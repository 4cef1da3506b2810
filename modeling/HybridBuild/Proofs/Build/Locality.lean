import HybridBuild.Proofs.Bazel.Uses
import HybridBuild.Proofs.Build.Outcome
import HybridBuild.Proofs.Ninja.Order
import HybridBuild.Proofs.Variant.Locality
import HybridBuild.Proofs.Variant.Requests
import Mathlib.Data.List.Permutation

/-!
# Builds without delegation

A build of modules of which none is delegated runs nothing of Bazel's, whatever its source,
and comes to the rules that a build with a disabled source has.
-/
namespace HybridBuild

/-- An invocation for which nothing waits runs nothing, and changes only the phase. -/
theorem Session.invoke_of_pending_nil {s : Session} (hphase : s.phase = .collecting)
    (hpending : s.ledger.pending = []) (files : FileTree) :
    ∃ result t left, s.invoke files = (result, t, left) ∧ t.issued = s.issued ∧
      t.statements = s.statements := by
  rcases hscripts : s.writeScripts files with ⟨e | paths, left⟩
  · exact ⟨_, _, left, invoke_of_invoked hphase (.unwritten hscripts), rfl, rfl⟩
  · exact ⟨_, _, left, invoke_of_invoked hphase (.idle hscripts hpending), rfl, rfl⟩

namespace Build

open ActionGraph

variable {g : ModuleGraph} {options : BuildOptions} {src : FactSource} {files : FileTree} {p : Plan}
  {graph : ActionGraph} {moduleList : Option Path}

/-- With a disabled source the graph has the rules of the plan and no others. -/
theorem assemble_disabled {planned : ActionGraph} {order : List Rule}
    (hplanned : empty.addRules p.rules = .ok planned) (horder : planned.ordered = .ok order)
    (files : FileTree) (moduleList : Option Path) :
    ∃ graph, assemble p .disabled files moduleList = .ok graph ∧ graph.rules = planned.rules :=
  exists_assemble hplanned (splice_of_disabled rfl) rfl horder

section Native

variable (hnative : ∀ m ∈ g.modules, m.delegate? = none)
include hnative

/-- Without delegated modules, planning is the same with every source, and asks nothing. -/
theorem plan_of_native (outDir : Path) (src : FactSource) :
    plan g outDir src = ((Pass.ofGraph FactSource.disabled.facts outDir g).result, src) := by
  have hpass := Pass.ofGraph_of_native hnative src.facts FactSource.disabled.facts outDir
  have hasked : (Pass.ofGraph FactSource.disabled.facts outDir g).asked = [] :=
    Pass.asked_ofWaves_of_disabled rfl outDir .empty g.waves
  simp only [plan, hpass, hasked, FactSource.note_nil]

/-- Without statements the rest of a build comes to the rules of the plan, as it does with a
disabled source. -/
theorem exists_disabled_of_finish (henabled : src.enabled) (hnone : src.statements = [])
    (h : (finish g options src files).1 = .ok graph) (files' : FileTree) :
    ∃ graph', (run g options .disabled files').1 = .ok graph' ∧ graph'.rules = graph.rules := by
  obtain ⟨p, hplan, -, hassemble⟩ := of_finish_eq_ok (Prod.ext h rfl)
  rw [plan_of_native hnative, Prod.mk.injEq] at hplan
  obtain ⟨hresult, hsrc⟩ := hplan
  rw [← hsrc] at hassemble
  obtain ⟨planned, spliced, count, deps, hplanned, hsplice, -, hgraph, order, horder⟩ :=
    of_assemble_eq_ok hassemble
  have hsame : graph.rules = planned.rules := by
    rw [hgraph, ← rules_of_splice_of_no_statements henabled hnone hsplice]
    rfl
  have horder' : planned.ordered = .ok order := (ordered_congr hsame.symm).trans horder
  obtain ⟨graph', hgraph', hrules'⟩ := assemble_disabled hplanned horder' files' options.moduleList
  refine ⟨graph', ?_, hrules'.trans hsame.symm⟩
  have hdisabled : FactSource.disabled.enabled = false := rfl
  simp only [run, hdisabled, finish, plan_of_native hnative, hresult, FactSource.pending]
  exact hgraph'

/-- A session that nobody has used runs nothing of Bazel's when no module is delegated. -/
theorem run_of_native (paths : BazelPaths) (registry : QueryRegistry) (runner : Runner)
    (files : FileTree) :
    ∃ result t left, run g options (.session (Session.fresh paths registry runner)) files =
        (result, .session t, left) ∧ t.issued = [] ∧
      ∀ graph, result = .ok graph → ∀ files', ∃ graph',
        (run g options .disabled files').1 = .ok graph' ∧ graph'.rules = graph.rules := by
  have henabled : (FactSource.session (Session.fresh paths registry runner)).enabled := rfl
  cases hresult : (Pass.ofGraph FactSource.disabled.facts options.outDir g).result with
  | error e =>
    refine ⟨.error (.plan e), Session.fresh paths registry runner, files, ?_, rfl, nofun⟩
    simp [run, henabled, plan_of_native hnative, hresult]
  | ok p =>
    obtain ⟨invoked, t, left, hinvoke, hissued, hstatements⟩ := Session.invoke_of_pending_nil
      (s := Session.fresh paths registry runner) rfl rfl files
    cases invoked with
    | error e =>
      refine ⟨.error (.source (.invoke e)), t, left, ?_, hissued, nofun⟩
      simp [run, henabled, plan_of_native hnative, hresult, FactSource.invoke, hinvoke]
    | ok =>
      rcases hfinish : finish g options (.session t) left with ⟨result, last⟩
      have hlast : last = .session t := by
        have hsnd := snd_finish g options (.session t) left
        rw [hfinish, plan_of_native hnative] at hsnd
        exact hsnd
      refine ⟨result, t, left, ?_, hissued, fun graph hgraph files' => ?_⟩
      · simp only [run, henabled, plan_of_native hnative, hresult, FactSource.invoke, hinvoke,
          hfinish, hlast, if_true]
      · have hok : (finish g options (.session t) left).1 = .ok graph := by rw [hfinish, hgraph]
        have hnone : (FactSource.session t).statements = [] := hstatements
        exact exists_disabled_of_finish hnative rfl hnone hok files'

end Native

/-- What is known about Bazel's targets has no say in a native module: with any facts with which
a pass succeeds, its variants have the same outputs and the same rules. When no module is
delegated, a build with a fresh session runs nothing of Bazel's, and a graph that it ends with
has the rules of the build with a disabled source, in the same order. -/
theorem delegation_is_local (g : ModuleGraph) (outDir : Path) :
    (∀ (facts facts' : Facts) (p p' : Plan), (Pass.ofGraph facts outDir g).result = .ok p →
      (Pass.ofGraph facts' outDir g).result = .ok p' →
      ∀ m ∈ g.modules, m.IsNative g.modules → ∀ arch ∈ m.archs,
        (∃ paths, p.outputs[m.variant arch]? = some paths ∧
          p'.outputs[m.variant arch]? = some paths) ∧
        p.rulesOf (m.variant arch) = p'.rulesOf (m.variant arch)) ∧
    ((∀ m ∈ g.modules, m.delegate? = none) →
      ∀ (moduleList : Option Path) (paths : BazelPaths) (registry : QueryRegistry)
        (runner : Runner) (files : FileTree),
      ∃ result t left, run g ⟨outDir, moduleList⟩
          (.session (Session.fresh paths registry runner)) files = (result, .session t, left) ∧
        t.issued = [] ∧
        ∀ graph, result = .ok graph → ∀ files', ∃ graph',
          (run g ⟨outDir, moduleList⟩ .disabled files').1 = .ok graph' ∧
            graph'.rules = graph.rules ∧ graph'.ordered = graph.ordered) := by
  constructor
  · intro facts facts' p p' hp hp' m hm hnative arch harch
    have h := Pass.result_ofGraph_eq_ok_iff.mp hp
    have h' := Pass.result_ofGraph_eq_ok_iff.mp hp'
    have hm' : m ∈ g.waves.flatten := ModuleGraph.mem_flatten_waves.mpr hm
    obtain ⟨c, -, hout⟩ := h.exists_planVariant hm' harch
    have hsame := Pass.getElem?_of_isNative h h' m hm hnative arch
    exact ⟨⟨c.outputs, hout, hsame ▸ hout⟩, Pass.rulesOf_of_isNative h h' hm hnative arch⟩
  · intro hnative moduleList paths registry runner files
    obtain ⟨result, t, left, hrun, hissued, hdisabled⟩ :=
      run_of_native hnative paths registry runner files
    refine ⟨result, t, left, hrun, hissued, fun graph hgraph files' => ?_⟩
    obtain ⟨graph', hgraph', hrules⟩ := hdisabled graph hgraph files'
    exact ⟨graph', hgraph', hrules, ordered_congr hrules⟩

section Example

/-- Two modules alike, of which one is delegated. -/
def neighbours : List ModuleDecl :=
  [{ name := "m", kind := .genrule, archs := [.common], srcs := [], deps := [], cmd := some "c",
      outs := ["o"], target := some ⟨"//a:b", true⟩ },
    { name := "n", kind := .genrule, archs := [.common], srcs := [], deps := [], cmd := some "c",
      outs := ["o"], target := none }]

theorem check_neighbours : ModuleDecl.check neighbours = .ok () := by cbv

def neighbourGraph : ModuleGraph := ⟨neighbours, check_neighbours⟩

theorem waves_neighbourGraph : neighbourGraph.waves = [neighbours] :=
  ModuleGraph.waves_of_no_deps (List.cons_ne_nil _ _) (by simp [neighbourGraph, neighbours])

/-- Every target has one file. -/
def oneFileFacts : Facts where
  enabled := true
  outputBase := some ⟨"b"⟩
  answer? := fun _ => some "x"

/-- With and without facts the plans differ, but not in the module that is not delegated. -/
theorem delegation_is_local_neighbours :
    ∃ p p', (Pass.ofGraph oneFileFacts ⟨"out"⟩ neighbourGraph).result = .ok p ∧
      (Pass.ofGraph FactSource.disabled.facts ⟨"out"⟩ neighbourGraph).result = .ok p' ∧
      p.rules ≠ p'.rules ∧ p.rulesOf ⟨"n", .common⟩ = p'.rulesOf ⟨"n", .common⟩ := by
  have hrules : (Pass.ofGraph oneFileFacts ⟨"out"⟩ neighbourGraph).result.map Plan.rules ≠
        (Pass.ofGraph FactSource.disabled.facts ⟨"out"⟩ neighbourGraph).result.map Plan.rules ∧
      (Pass.ofGraph oneFileFacts ⟨"out"⟩ neighbourGraph).result.isOk ∧
      (Pass.ofGraph FactSource.disabled.facts ⟨"out"⟩ neighbourGraph).result.isOk := by
    rw [Pass.ofGraph, Pass.ofGraph, waves_neighbourGraph]
    decide +kernel
  obtain ⟨hdiffer, hok, hok'⟩ := hrules
  cases hp : (Pass.ofGraph oneFileFacts ⟨"out"⟩ neighbourGraph).result with
  | error e => simp [hp, Except.isOk, Except.toBool] at hok
  | ok p =>
    cases hp' : (Pass.ofGraph FactSource.disabled.facts ⟨"out"⟩ neighbourGraph).result with
    | error e => simp [hp', Except.isOk, Except.toBool] at hok'
    | ok p' =>
      have hmem : neighbours[1] ∈ neighbourGraph.modules := List.getElem_mem _
      have hnative : neighbours[1].IsNative neighbourGraph.modules := by
        refine ⟨rfl, fun d hd => ?_⟩
        obtain ⟨b, -, -, -, hdep⟩ := Relation.TransGen.tail'_iff.mp hd
        exact absurd hdep List.not_mem_nil
      have hsame := (delegation_is_local neighbourGraph ⟨"out"⟩).1 _ _ p p' hp hp' _ hmem hnative
        .common List.mem_cons_self
      refine ⟨p, p', rfl, rfl, ?_, hsame.2⟩
      intro heq
      rw [hp, hp'] at hdiffer
      exact hdiffer (congrArg Except.ok heq)

end Example

end Build

end HybridBuild
