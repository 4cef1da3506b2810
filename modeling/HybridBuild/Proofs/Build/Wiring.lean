import HybridBuild.Proofs.Build.Outcome
import HybridBuild.Proofs.Ninja.Order
import HybridBuild.Proofs.Variant.Supply
import Mathlib.Data.List.Permutation

/-!
# From Bazel's actions to native rules

In the graph of a build the file that an action writes, the file that the copy of it reads,
and the copy that native rules read are named alike wherever they occur. So the action
stands before the rule that copies its file, and that rule before every native rule that
draws on the copy.
-/
namespace HybridBuild

namespace ActionGraph

variable {g : ActionGraph} {p r : Rule} {path : String} {order : List Rule}

/-- Of two rules of which one reads what the other writes, the writer comes first. -/
theorem idxOf_lt_idxOf (h : Registered g.rules) (hok : g.ordered = .ok order) (hp : p ∈ g.rules)
    (hr : r ∈ g.rules) (hout : path ∈ p.allOutputs) (hin : path ∈ r.allInputs) :
    order.idxOf p < order.idxOf r := by
  have hmem (q : Rule) (hq : q ∈ g.rules) : order.idxOf q < order.length :=
    List.idxOf_lt_length_iff.mpr ((ordered_perm hok).mem_iff.mpr hq)
  refine lt_of_feeds h hok (hmem p hp) (hmem r hr) ?_
  rw [List.getElem_idxOf, List.getElem_idxOf]
  exact ⟨hp, hr, path, hout, hin⟩

end ActionGraph

open ModuleDecl ActionGraph

namespace Build

variable {g : ModuleGraph} {outDir base : Path} {src : FactSource} {graph : ActionGraph} {p : Plan}
  {spliced : List Rule} {m : ModuleDecl} {arch : Arch} {path : String}

namespace Assembled

variable (h : Assembled g outDir src graph p base spliced)
include h

theorem solves : Pass.Solves src.facts outDir g.waves.flatten p :=
  Pass.result_ofGraph_eq_ok_iff.mp h.planned

/-- Every variant has been planned, and its rules are rules of the graph. -/
theorem exists_planVariant (hm : m ∈ g.modules) (harch : arch ∈ m.archs) :
    ∃ c, (m.planVariant src.facts outDir p.outputs arch).2 = .ok c ∧
      p.outputs[m.variant arch]? = some c.outputs ∧ c.rules ⊆ graph.rules := by
  have hm' : m ∈ g.waves.flatten := ModuleGraph.mem_flatten_waves.mpr hm
  obtain ⟨c, hc, hout⟩ := h.solves.exists_planVariant hm' harch
  refine ⟨c, hc, hout, fun rule hrule => ?_⟩
  rw [h.rules]
  exact List.mem_append_left _ (h.solves.mem_rules_iff.mpr ⟨m, hm', arch, harch, c, hc, hrule⟩)

/-- The file of an action is written by the rule that has the action's number. -/
theorem producer?_of_statement {i : Nat} {s : Statement} (hs : src.statements[i]? = some s)
    (hpath : path ∈ s.outputs) :
    ∃ action ∈ graph.rules, action.name = s!"bazel {i}" ∧
      ((execroot base).join path).text ∈ action.allOutputs ∧
      graph.producer? ((execroot base).join path).text = some action := by
  obtain ⟨action, hmem, haction⟩ := exists_rule_of_statementRules h.statements hs
  obtain ⟨hname, houtputs⟩ := Statement.of_rule_eq_ok haction
  have haction' : action ∈ graph.rules := h.rules ▸ List.mem_append_right _ hmem
  have hout : ((execroot base).join path).text ∈ action.allOutputs :=
    houtputs ▸ List.mem_map.mpr ⟨path, hpath, rfl⟩
  exact ⟨action, haction', hname, hout, h.registered.producer?_eq_some haction' hout⟩

/-- A rule of the graph copies the files of a delegated variant out of the execution root, and
the variant's outputs are the copies. -/
theorem exists_copy (henabled : src.enabled) (hm : m ∈ g.modules) (harch : arch ∈ m.archs)
    {label : String} (hlabel : m.delegate? = some label) {files : List String}
    (hfiles : m.bazelOutputs src.facts label arch = .ok (some files)) (hpath : path ∈ files) :
    ∃ copy ∈ graph.rules, copy.name = (m.variant arch).ruleName ∧
      ((execroot base).join path).text ∈ copy.implicitInputs ∧
      m.outPath outDir arch (bazelRelative path) ∈ copy.outputs ∧
      ∃ paths, p.outputs[m.variant arch]? = some paths ∧
        m.outPath outDir arch (bazelRelative path) ∈ paths := by
  obtain ⟨c, hc, hout, hrules⟩ := h.exists_planVariant hm harch
  have hdelegated : m.delegatedTo? src.facts = some label := by
    rw [delegatedTo?_of_enabled henabled, hlabel]
  rw [planVariant_of_delegated hdelegated] at hc
  obtain ⟨copy, hcopy, hname, hsource, htarget⟩ := exists_copy_of_planDelegated hfiles hpath hc
  have hroot : bazelRoot src.facts = execroot base := by simp [bazelRoot, h.outputBase]
  obtain ⟨files?, hfiles?, heq⟩ := outputs_of_planDelegated hc
  have hsame : some files = files? := Except.ok.inj (hfiles.symm.trans hfiles?)
  refine ⟨copy, hrules hcopy, hname, hroot ▸ hsource, htarget, c.outputs, hout, ?_⟩
  rw [heq, ← hsame]
  exact List.mem_map.mpr ⟨path, hpath, rfl⟩

/-- A native rule reads the outputs of what its module draws on. -/
theorem exists_reader (hm : m ∈ g.modules) (harch : arch ∈ m.archs) (hnative : m.delegate? = none)
    (hkind : m.kind ≠ .filegroup) {v : Variant} (hdraws : DrawsOn g.modules m arch v)
    {paths : List String} (hpaths : p.outputs[v]? = some paths) (hpath : path ∈ paths) :
    ∃ rule ∈ graph.rules, rule.name = (m.variant arch).ruleName ∧ path ∈ rule.inputs := by
  obtain ⟨c, hc, -, hrules⟩ := h.exists_planVariant hm harch
  rw [planVariant_of_native (delegatedTo?_eq_none hnative _)] at hc
  obtain ⟨rule, hrule, hname, hinputs⟩ := exists_rule_of_planNative hc hkind
  have hdraws' : DrawsOn g.waves.flatten m arch v :=
    hdraws.mono fun d hd => ModuleGraph.mem_flatten_waves.mpr hd
  exact ⟨rule, hrules hrule, hname, h.solves.mem_inputs_of_drawsOn hdraws' hinputs hpaths hpath⟩

end Assembled

/-- A source that is fixed beforehand gives both passes the same plan. -/
theorem run_fixed {g : ModuleGraph} {options : BuildOptions} {f : FixedFacts} {p : Plan}
    (henabled : f.facts.enabled) (hpending : f.pending = [])
    (hp : (Pass.ofGraph f.facts options.outDir g).result = .ok p) (files : FileTree) :
    run g options (.fixed f) files =
      (assemble p (.fixed f) files options.moduleList, .fixed f, files) := by
  have hplan : plan g options.outDir (.fixed f) = (.ok p, .fixed f) := by
    simp only [plan, FactSource.facts, hp]
    rfl
  have hsource : (FactSource.fixed f).enabled := henabled
  simp [run, hsource, hplan, FactSource.invoke, finish, FactSource.pending, hpending]

/-- In the graph of a build with facts, the rule that copies a file of a delegated variant reads
the very path that the rule of each action with that file writes, and comes after that rule;
and the rule of every native variant that draws on the delegated one reads the copy, and comes
after the rule that makes it. -/
theorem delegated_outputs_wired {g : ModuleGraph} {options : BuildOptions} {src last : FactSource}
    {files left : FileTree} {graph : ActionGraph} (henabled : src.enabled)
    (hrun : run g options src files = (.ok graph, last, left)) :
    ∃ base order, last.facts.outputBase = some base ∧ graph.ordered = .ok order ∧
      ∀ m ∈ g.modules, ∀ arch ∈ m.archs, ∀ label, m.delegate? = some label →
      ∀ paths, m.bazelOutputs last.facts label arch = .ok (some paths) → ∀ path ∈ paths,
        ∃ copy ∈ graph.rules, copy.name = (m.variant arch).ruleName ∧
          m.outPath options.outDir arch (bazelRelative path) ∈ copy.outputs ∧
          (∀ (i : Nat) (s : Statement), last.statements[i]? = some s → path ∈ s.outputs →
            ((execroot base).join path).text ∈ copy.implicitInputs ∧
            ∃ action, graph.producer? ((execroot base).join path).text = some action ∧
              action.name = s!"bazel {i}" ∧ order.idxOf action < order.idxOf copy) ∧
          ∀ n ∈ g.modules, ∀ arch' ∈ n.archs, n.delegate? = none → n.kind ≠ .filegroup →
            DrawsOn g.modules n arch' (m.variant arch) →
            ∃ rule ∈ graph.rules, rule.name = (n.variant arch').ruleName ∧
              m.outPath options.outDir arch (bazelRelative path) ∈ rule.inputs ∧
              order.idxOf copy < order.idxOf rule := by
  obtain ⟨p, base, spliced, h⟩ := assembled_of_run henabled hrun
  have hlast : last.enabled := (enabled_of_run hrun).trans henabled
  obtain ⟨order, horder⟩ := h.ordered
  refine ⟨base, order, h.outputBase, horder, ?_⟩
  intro m hm arch harch label hlabel paths hpaths path hpath
  obtain ⟨copy, hcopy, hname, hsource, htarget, outputs, houtputs, hcopied⟩ :=
    h.exists_copy hlast hm harch hlabel hpaths hpath
  refine ⟨copy, hcopy, hname, htarget, fun i s hs hwritten => ?_,
    fun n hn arch' harch' hnative hkind hdraws => ?_⟩
  · obtain ⟨action, haction, haname, hout, hproducer⟩ := h.producer?_of_statement hs hwritten
    have hread : ((execroot base).join path).text ∈ copy.allInputs :=
      List.mem_append_right _ hsource
    exact ⟨hsource, action, hproducer, haname,
      idxOf_lt_idxOf h.registered horder haction hcopy hout hread⟩
  · obtain ⟨rule, hrule, hrname, hinput⟩ :=
      h.exists_reader hn harch' hnative hkind hdraws houtputs hcopied
    have hwrite : m.outPath options.outDir arch (bazelRelative path) ∈ copy.allOutputs :=
      List.mem_append_left _ htarget
    have hread : m.outPath options.outDir arch (bazelRelative path) ∈ rule.allInputs :=
      List.mem_append_left _ hinput
    exact ⟨rule, hrule, hrname, hinput,
      idxOf_lt_idxOf h.registered horder hcopy hrule hwrite hread⟩

section Example

/-- A module that reads the files of a delegated one, by way of a file group. -/
def groupedModules : List ModuleDecl :=
  [{ name := "n", kind := .genrule, archs := [.arm64], srcs := [], deps := ["g"], cmd := some "c",
      outs := ["o"], target := none },
    { name := "g", kind := .filegroup, archs := [.arm64], srcs := [], deps := ["m"], cmd := none,
      outs := [], target := none },
    { name := "m", kind := .genrule, archs := [.common], srcs := [], deps := [], cmd := none,
      outs := [], target := some ⟨"//a:b", true⟩ }]

theorem check_groupedModules : check groupedModules = .ok () := by cbv

def groupedGraph : ModuleGraph := ⟨groupedModules, check_groupedModules⟩

theorem waves_groupedGraph : groupedGraph.waves = groupedModules.reverse.map ([·]) := by
  rw [ModuleGraph.waves, Digraph.layers, Digraph.layersFrom_of_ready (by decide +kernel),
    Digraph.layersFrom_of_ready (by decide +kernel),
    Digraph.layersFrom_of_ready (by decide +kernel),
    Digraph.layersFrom_of_not_ready (by decide +kernel)]
  rfl

/-- The action that writes the file of the delegated module. -/
def fileStatement : Statement where
  mnemonic := "Write"
  command := "t"
  inputs := []
  outputs := ["x"]
  depfile := none
  env := []

def groupedFacts : FixedFacts where
  facts := { enabled := true, outputBase := some ⟨"b"⟩, answer? := fun _ => some "x" }
  statements := [fileStatement]
  pending := []
  generatedFiles := []

def plannedRules : List Rule :=
  [FileCopy.rule "m.common" "bazel output m"
      [FileCopy.ofFile (execroot ⟨"b"⟩) ⟨"out/m/common"⟩ "x"],
    { name := "n.arm64", description := "genrule n", command := "c", outputs := ["out/n/arm64/o"],
      inputs := ["out/m/common/x"] }]

def actionRule : Rule where
  name := "bazel 0"
  description := "Write"
  command := "cd b/execroot/__main__ && t"
  implicitOutputs := ["b/execroot/__main__/x"]
  restat := true

theorem rules_ofGraph_grouped :
    (Pass.ofGraph groupedFacts.facts ⟨"out"⟩ groupedGraph).result.map Plan.rules =
      .ok plannedRules := by
  rw [Pass.ofGraph, waves_groupedGraph]
  decide +kernel

theorem splice_plannedRules : splice ⟨plannedRules, ∅⟩ (.fixed groupedFacts) =
    (.ok 1, ⟨plannedRules ++ [actionRule], ∅⟩) := rfl

theorem digraph_groupedRules :
    digraph (plannedRules ++ [actionRule]) = (⟨[(2, 0), (0, 1)]⟩ : Digraph 3) := rfl

theorem exists_assemble_grouped {p : Plan} (hp : p.rules = plannedRules) {files : FileTree}
    {moduleList : Option Path} {deps : List String}
    (hdeps : (FactSource.fixed groupedFacts).manifestDeps files moduleList = .ok deps) :
    ∃ graph, assemble p (.fixed groupedFacts) files moduleList = .ok graph := by
  have hadd : empty.addRules plannedRules = .ok ⟨plannedRules, ∅⟩ := rfl
  have hsort : (Digraph.topoSort (⟨[(2, 0), (0, 1)]⟩ : Digraph 3)) = .ok [2, 0, 1] := by cbv
  obtain ⟨order, horder⟩ : ∃ order, ordered ⟨plannedRules ++ [actionRule], ∅⟩ = .ok order := by
    rw [exists_ordered_iff, digraph_groupedRules]
    exact ⟨_, hsort⟩
  have hplanned : empty.addRules p.rules = .ok ⟨plannedRules, ∅⟩ := hp ▸ hadd
  obtain ⟨graph, hgraph, -⟩ := exists_assemble hplanned splice_plannedRules hdeps horder
  exact ⟨graph, hgraph⟩

/-- In that build the action comes first, then the copy of its file, then the module that reads
the copy by way of the file group. -/
theorem delegated_outputs_wired_grouped :
    ∃ graph, run groupedGraph ⟨⟨"out"⟩, none⟩ (.fixed groupedFacts) (.onlyWorkDir []) =
        (.ok graph, .fixed groupedFacts, .onlyWorkDir []) ∧
      ∃ order action copy rule, graph.ordered = .ok order ∧ action.name = "bazel 0" ∧
        copy.name = "m.common" ∧ rule.name = "n.arm64" ∧
        order.idxOf action < order.idxOf copy ∧ order.idxOf copy < order.idxOf rule := by
  obtain ⟨p, hp, hrules⟩ := except_map_eq_ok_iff.mp rules_ofGraph_grouped
  have hdeps : (FactSource.fixed groupedFacts).manifestDeps (.onlyWorkDir []) none = .ok [] := rfl
  obtain ⟨graph, hgraph⟩ := exists_assemble_grouped hrules hdeps
  have hrun : run groupedGraph ⟨⟨"out"⟩, none⟩ (.fixed groupedFacts) (.onlyWorkDir []) =
      (.ok graph, .fixed groupedFacts, .onlyWorkDir []) := by
    rw [← hgraph]
    exact run_fixed rfl rfl hp _
  have hmem (i : Fin 3) : groupedModules[i] ∈ groupedModules := List.getElem_mem _
  obtain ⟨base, order, -, horder, hwired⟩ := delegated_outputs_wired rfl hrun
  obtain ⟨copy, -, hcname, -, hactions, hreaders⟩ := hwired _ (hmem 2) .common List.mem_cons_self
    "//a:b" rfl ["x"] (by decide +kernel) "x" List.mem_cons_self
  obtain ⟨-, action, -, haname, hfirst⟩ := hactions 0 fileStatement rfl List.mem_cons_self
  have hdraws : DrawsOn groupedModules groupedModules[0] .arm64 ⟨"m", .common⟩ :=
    .through (hmem 1) List.mem_cons_self rfl rfl (.direct (hmem 2) List.mem_cons_self)
  obtain ⟨rule, -, hrname, -, hlast⟩ :=
    hreaders _ (hmem 0) .arm64 List.mem_cons_self rfl (by decide) hdraws
  exact ⟨graph, hrun, order, action, copy, rule, horder, haname, hcname, hrname, hfirst, hlast⟩

end Example

end Build

end HybridBuild
