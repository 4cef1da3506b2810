import HybridBuild.Proofs.Build.TwoPasses
import HybridBuild.Proofs.Variant.Faults

/-!
# Faults of the modules come before Bazel

A build with a fresh session comes upon the faults of its modules in the first pass, before
anything is written or run. After that pass only answers can spoil the plan: one that is
malformed, or one that names two files with the same destination.
-/
namespace HybridBuild.Build

variable {g : ModuleGraph} {options : BuildOptions} {outDir : Path} {src asked settled : FactSource}
  {files : FileTree}

/-- A plan error of the second half of a build is one of its pass. -/
theorem fst_plan_of_finish {e : PlanError}
    (h : (finish g options src files).1 = .error (.plan e)) :
    (plan g options.outDir src).1 = .error e := by
  unfold finish at h
  rcases hplan : plan g options.outDir src with ⟨e' | p, last⟩
  · rw [hplan] at h
    obtain rfl : e' = e := BuildError.plan.inj (Except.error.inj h)
    rfl
  · rw [hplan] at h
    dsimp only at h
    split at h
    · rcases of_assemble_eq_error h with ⟨fault, heq⟩ | ⟨fault, heq⟩ <;> cases heq
    · cases h

/-- After a pass with success, no other pass with facts comes upon a fault of the modules. -/
theorem not_isStructural_of_plan {first : Plan} (henabled : src.enabled)
    (hfirst : (plan g outDir src).1 = .ok first) (hsettled : settled.enabled) {e : PlanError}
    (he : (plan g outDir settled).1 = .error e) : ¬ e.IsStructural :=
  have hsame : settled.facts.enabled = src.facts.enabled := hsettled.trans henabled.symm
  Pass.not_isStructural_of_ofGraph hsame hfirst he

/-- When a build with a fresh session fails for a fault of the modules, it has written nothing
and run nothing. Once its first pass has succeeded, every pass with facts, whatever they are,
succeeds too, or fails for a malformed answer or for two files with one destination. -/
theorem structural_faults_first (g : ModuleGraph) (options : BuildOptions) (paths : BazelPaths)
    (registry : QueryRegistry) (runner : Runner) (files : FileTree) :
    let src := FactSource.session (Session.fresh paths registry runner)
    (∀ e, (run g options src files).1 = .error (.plan e) → e.IsStructural →
      ∃ t, (run g options src files).2 = (.session t, files) ∧ t.issued = [] ∧
        t.phase = .collecting) ∧
    ∀ first asked, plan g options.outDir src = (.ok first, asked) →
      ∀ settled : FactSource, settled.enabled →
        (∃ second, (plan g options.outDir settled).1 = .ok second) ∨
        (∃ v e, (plan g options.outDir settled).1 = .error (.query v e)) ∨
        ∃ v one other target,
          (plan g options.outDir settled).1 = .error (.outputCollision v one other target) := by
  intro src
  have henabled : src.enabled := rfl
  constructor
  · intro e herror hfault
    unfold run at herror ⊢
    rw [if_pos henabled] at herror ⊢
    rcases hfirst : plan g options.outDir src with ⟨e' | first, asked⟩
    · obtain rfl := congrArg Prod.snd hfirst
      exact ⟨_, rfl, rfl, rfl⟩
    · rcases hinvoke : asked.invoke files with ⟨e' | ⟨⟩, settled, left⟩
      · simp [hfirst, hinvoke] at herror
      · simp only [hfirst, hinvoke] at herror
        have hsettled : settled.enabled :=
          (FactSource.enabled_of_invoke hinvoke).trans (enabled_of_plan hfirst)
        have hfirst' : (plan g options.outDir src).1 = .ok first := congrArg Prod.fst hfirst
        exact absurd hfault
          (not_isStructural_of_plan henabled hfirst' hsettled (fst_plan_of_finish herror))
  · intro first asked hfirst settled hsettled
    have hfirst' : (plan g options.outDir src).1 = .ok first := congrArg Prod.fst hfirst
    cases hsecond : (plan g options.outDir settled).1 with
    | ok second => exact .inl ⟨second, rfl⟩
    | error e =>
      have hanswer := not_isStructural_of_plan henabled hfirst' hsettled hsecond
      cases e with
      | noCommand v => exact absurd trivial hanswer
      | noOutputs v => exact absurd trivial hanswer
      | missingVariant v dep => exact absurd trivial hanswer
      | query v e => exact .inr (.inl ⟨v, e, rfl⟩)
      | outputCollision v one other target => exact .inr (.inr ⟨v, one, other, target, rfl⟩)

section Example

/-- A delegated module, and one that reads its files but has no command. -/
def modulesWithoutCommand : List ModuleDecl :=
  [delegatedModule,
    { name := "n", kind := .genrule, archs := [.arm64], srcs := [], deps := ["m"], cmd := none,
      outs := ["o"], target := none }]

theorem check_modulesWithoutCommand : ModuleDecl.check modulesWithoutCommand = .ok () := by cbv

def graphWithoutCommand : ModuleGraph := ⟨modulesWithoutCommand, check_modulesWithoutCommand⟩

theorem waves_graphWithoutCommand :
    graphWithoutCommand.waves = modulesWithoutCommand.map ([·]) := by
  rw [ModuleGraph.waves, Digraph.layers, Digraph.layersFrom_of_ready (by decide +kernel),
    Digraph.layersFrom_of_ready (by decide +kernel),
    Digraph.layersFrom_of_not_ready (by decide +kernel)]
  rfl

/-- The build of these modules asks Bazel nothing, although there is a request to make. -/
theorem structural_faults_first_noCommand :
    ∃ t, run graphWithoutCommand ⟨⟨"out"⟩, none⟩ (.session Session.oneTargetSession)
        (.onlyWorkDir []) =
      (.error (.plan (.noCommand ⟨"n", .arm64⟩)), .session t, .onlyWorkDir []) ∧ t.issued = [] := by
  have herror : (run graphWithoutCommand ⟨⟨"out"⟩, none⟩ (.session Session.oneTargetSession)
      (.onlyWorkDir [])).1 = .error (.plan (.noCommand ⟨"n", .arm64⟩)) := by
    have hplan : (plan graphWithoutCommand ⟨"out"⟩ (.session Session.oneTargetSession)).1 =
        .error (.noCommand ⟨"n", .arm64⟩) := by
      rw [plan, Pass.ofGraph, waves_graphWithoutCommand]
      rfl
    have henabled : (FactSource.session Session.oneTargetSession).enabled := rfl
    rw [run, if_pos henabled]
    rcases hfirst : plan graphWithoutCommand ⟨"out"⟩ (.session Session.oneTargetSession) with
      ⟨e | first, asked⟩
    · rw [hfirst] at hplan
      obtain rfl : e = .noCommand ⟨"n", .arm64⟩ := Except.error.inj hplan
      rfl
    · rw [hfirst] at hplan
      cases hplan
  obtain ⟨t, hleft, hissued, -⟩ := (structural_faults_first graphWithoutCommand ⟨⟨"out"⟩, none⟩
    _ _ _ (.onlyWorkDir [])).1 _ herror trivial
  exact ⟨t, Prod.ext herror hleft, hissued⟩

end Example

end HybridBuild.Build
