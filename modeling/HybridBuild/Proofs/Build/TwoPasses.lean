import HybridBuild.Proofs.Bazel.Settled
import HybridBuild.Proofs.Build.Outcome
import HybridBuild.Proofs.Variant.Requests
import Mathlib.Data.List.Permutation

/-!
# Two passes are enough

A build with a fresh session plans its modules, invokes Bazel once and plans again. The
second pass makes the requests of the first, and an invocation with success has answered
all of them, so nothing waits when the graph is assembled.
-/
namespace HybridBuild

namespace FactSource

theorem invoke_session_eq_ok {s : Session} {src : FactSource} {files left : FileTree}
    (hok : (session s).invoke files = (.ok (), src, left)) :
    ∃ t, src = session t ∧ s.invoke files = (.ok (), t, left) := by
  rcases hrun : s.invoke files with ⟨e | ⟨⟩, t, left'⟩
  · simp [invoke, hrun] at hok
  · simp only [invoke, hrun, Prod.mk.injEq, true_and] at hok
    obtain ⟨rfl, rfl⟩ := hok
    exact ⟨t, rfl, rfl⟩

end FactSource

namespace Build

variable {g : ModuleGraph} {outDir : Path}

/-- A pass with a session makes the same requests whatever the session knows. -/
theorem asks_ofGraph_session (g : ModuleGraph) (outDir : Path) (s : Session) :
    (Pass.ofGraph (FactSource.session s).facts outDir g).Asks g.requests :=
  Pass.asks_ofGraph rfl outDir g

theorem plan_session (g : ModuleGraph) (outDir : Path) (s : Session) :
    plan g outDir (.session s) =
      ((Pass.ofGraph (FactSource.session s).facts outDir g).result,
        .session (s.askAll (Pass.ofGraph (FactSource.session s).facts outDir g).asked)) := rfl

/-- A session that knows all answers is not asked anything new by a pass. -/
theorem plan_of_isSome {s : Session}
    (h : ∀ r ∈ g.requests, (s.ledger.answer? r).isSome) :
    (plan g outDir (.session s)).2 = .session s := by
  have hasks := asks_ofGraph_session g outDir s
  have hknown : ∀ r ∈ (Pass.ofGraph (FactSource.session s).facts outDir g).asked,
      (s.ledger.answer? r).isSome := fun r hr => h r (hasks.starts.subset hr)
  rw [plan_session, Session.askAll, Ledger.askAll_of_isSome hknown]

theorem assemble_ne_unsettled (p : Plan) (src : FactSource) (files : FileTree)
    (moduleList : Option Path) (requests : List Request) :
    assemble p src files moduleList ≠ .error (.unsettledRequests requests) := by
  intro h
  rcases of_assemble_eq_error h with ⟨fault, heq⟩ | ⟨fault, heq⟩ <;> cases heq

/-- What the first pass of a fresh session leaves waiting, when it succeeds. -/
theorem mem_pending_plan_fresh {paths : BazelPaths} {registry : QueryRegistry} {runner : Runner}
    {p : Plan} {src : FactSource}
    (hok : plan g outDir (.session (Session.fresh paths registry runner)) = (.ok p, src))
    {r : Request} : r ∈ src.pending ↔ r ∈ g.requests := by
  have hasks := asks_ofGraph_session g outDir (Session.fresh paths registry runner)
  rw [plan_session, Prod.mk.injEq] at hok
  obtain ⟨hresult, rfl⟩ := hok
  rw [hasks.complete p hresult]
  exact Session.mem_pending_askAll_fresh

/-- Once an invocation has answered the requests of all delegated variants, the rest of
the build does not fail for want of answers. -/
theorem finish_ne_unsettled {options : BuildOptions} {s : Session} {files : FileTree}
    (hpending : s.ledger.pending = []) (hknown : ∀ r ∈ g.requests, (s.ledger.answer? r).isSome)
    (requests : List Request) :
    (finish g options (.session s) files).1 ≠ .error (.unsettledRequests requests) := by
  have hplan : (plan g options.outDir (.session s)).2 = .session s := plan_of_isSome hknown
  unfold finish
  rcases hsecond : plan g options.outDir (.session s) with ⟨e | p, src⟩
  · simp
  · rw [hsecond] at hplan
    obtain rfl : src = .session s := hplan
    have hnothing : (FactSource.session s).pending = [] := hpending
    simp only [hnothing]
    exact assemble_ne_unsettled p _ files options.moduleList requests

/-- The first pass and an invocation, both with success, leave a session that knows the
answers to the requests of all delegated variants. -/
theorem known_of_invoke {paths : BazelPaths} {registry : QueryRegistry} {runner : Runner}
    {first : Plan} {asked settled : FactSource} {files left : FileTree}
    (hfirst : plan g outDir (.session (Session.fresh paths registry runner)) = (.ok first, asked))
    (hinvoke : asked.invoke files = (.ok (), settled, left)) :
    ∃ t, settled = .session t ∧ t.ledger.pending = [] ∧
      ∀ r ∈ g.requests, (t.ledger.answer? r).isSome := by
  have hpending (r : Request) : r ∈ asked.pending ↔ r ∈ g.requests :=
    mem_pending_plan_fresh hfirst
  obtain rfl := congrArg Prod.snd hfirst
  obtain ⟨t, rfl, ht⟩ := FactSource.invoke_session_eq_ok hinvoke
  obtain ⟨hnothing, hknown⟩ := Session.isSome_of_invoke ht
  exact ⟨t, rfl, hnothing, fun r hr => hknown r ((hpending r).mpr hr)⟩

/-- A build with a fresh session never fails for want of answers. Its first pass, when it
succeeds, leaves waiting exactly the requests of the delegated variants; an invocation
with success answers all of them, and then the second pass asks for nothing else and
leaves no variant provisional. -/
theorem two_passes_suffice (g : ModuleGraph) (options : BuildOptions) (paths : BazelPaths)
    (registry : QueryRegistry) (runner : Runner) (files : FileTree) :
    let src := FactSource.session (Session.fresh paths registry runner)
    (∀ requests, (run g options src files).1 ≠ .error (.unsettledRequests requests)) ∧
    ∀ first asked, plan g options.outDir src = (.ok first, asked) →
      (∀ r, r ∈ asked.pending ↔ ∃ m ∈ g.modules, ∃ label, m.delegate? = some label ∧
        ∃ arch ∈ m.archs,
          r = ⟨label, if m.kind.isNativeCode then "getCcInfo" else "getOutputFiles", arch⟩) ∧
      ∀ settled left, asked.invoke files = (.ok (), settled, left) →
        (∀ r ∈ asked.pending, (settled.facts.answer? r).isSome) ∧
        (∀ r ∈ (Pass.ofGraph settled.facts options.outDir g).asked, r ∈ asked.pending) ∧
        ∀ second, (plan g options.outDir settled).1 = .ok second → second.provisional = [] := by
  intro src
  constructor
  · intro requests
    have henabled : src.enabled = true := rfl
    unfold run
    rw [if_pos henabled]
    rcases hfirst : plan g options.outDir src with ⟨e | first, asked⟩
    · simp
    · dsimp only
      rcases hinvoke : asked.invoke files with ⟨e | ⟨⟩, settled, left⟩
      · simp
      · obtain ⟨t, rfl, hnothing, hknown⟩ := known_of_invoke hfirst hinvoke
        exact finish_ne_unsettled hnothing hknown requests
  · intro first asked hfirst
    have hpending (r : Request) : r ∈ asked.pending ↔ r ∈ g.requests :=
      mem_pending_plan_fresh hfirst
    refine ⟨fun r => ?_, fun settled left hinvoke => ?_⟩
    · rw [hpending, ModuleGraph.mem_requests]
      simp only [ModuleDecl.outputsRequest_eq]
    · obtain ⟨t, rfl, -, hknown⟩ := known_of_invoke hfirst hinvoke
      refine ⟨fun r hr => hknown r ((hpending r).mp hr), fun r hr => ?_, fun second hsecond => ?_⟩
      · have hasks := asks_ofGraph_session g options.outDir t
        exact (hpending r).mpr (hasks.starts.subset hr)
      · exact Pass.provisional_ofGraph hknown hsecond

/-- A module that is delegated to one target. -/
def delegatedModule : ModuleDecl where
  name := "m"
  kind := .genrule
  archs := [.common]
  srcs := []
  deps := []
  cmd := none
  outs := []
  target := some ⟨"//a:b", true⟩

theorem check_delegatedModule : ModuleDecl.check [delegatedModule] = .ok () := by cbv

def delegatedGraph : ModuleGraph := ⟨[delegatedModule], check_delegatedModule⟩

theorem waves_delegatedGraph : delegatedGraph.waves = [[delegatedModule]] :=
  ModuleGraph.waves_of_no_deps (List.cons_ne_nil _ _) (List.forall_mem_singleton.mpr rfl)

/-- A build of this module goes through both passes. -/
theorem two_passes_suffice_delegatedGraph :
    ∃ first asked settled left,
      plan delegatedGraph ⟨"out"⟩ (.session Session.oneTargetSession) = (.ok first, asked) ∧
      asked.invoke (.onlyWorkDir []) = (.ok (), settled, left) ∧
      ⟨"//a:b", "getOutputFiles", .common⟩ ∈ asked.pending ∧
      ∀ second, (plan delegatedGraph ⟨"out"⟩ settled).1 = .ok second → second.provisional = [] := by
  have hplan : (plan delegatedGraph ⟨"out"⟩ (.session Session.oneTargetSession)).1.isOk = true := by
    rw [plan, Pass.ofGraph, waves_delegatedGraph]
    decide +kernel
  obtain ⟨-, hbuild⟩ := two_passes_suffice delegatedGraph ⟨⟨"out"⟩, none⟩ _ _ _ (.onlyWorkDir [])
  rcases hfirst : plan delegatedGraph ⟨"out"⟩ (.session Session.oneTargetSession) with
    ⟨_ | first, asked⟩
  · rw [hfirst] at hplan
    cases hplan
  · obtain ⟨hpending, hsettled⟩ := hbuild first asked hfirst
    obtain rfl := congrArg Prod.snd hfirst
    have hone : ∀ r ∈ (Pass.ofGraph (FactSource.session Session.oneTargetSession).facts ⟨"out"⟩
        delegatedGraph).asked, r = ⟨"//a:b", "getOutputFiles", .common⟩ := by
      intro r hr
      obtain ⟨m, hm, label, hlabel, arch, harch, rfl⟩ :=
        (hpending r).mp (Session.mem_pending_askAll_fresh.mpr hr)
      obtain rfl := List.mem_singleton.mp hm
      obtain rfl := List.mem_singleton.mp harch
      obtain rfl := Option.some.inj hlabel
      rfl
    obtain ⟨t, left, hrun⟩ := Session.exists_invoke_oneTargetSession _ hone
    have hinvoke : (plan delegatedGraph ⟨"out"⟩ (.session Session.oneTargetSession)).2.invoke
        (.onlyWorkDir []) = (.ok (), .session t, left) := by
      simp only [plan_session, FactSource.invoke, hrun]
    obtain ⟨-, -, hsecond⟩ := hsettled _ left hinvoke
    refine ⟨first, _, _, left, rfl, hinvoke, (hpending _).mpr ?_, hsecond⟩
    exact ⟨delegatedModule, List.mem_cons_self, _, rfl, _, List.mem_cons_self, rfl⟩

end Build

end HybridBuild
