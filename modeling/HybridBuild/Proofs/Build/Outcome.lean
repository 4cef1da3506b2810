import HybridBuild.Build.Basic
import HybridBuild.Proofs.Build.Splice
import HybridBuild.Proofs.Facts.Source
import HybridBuild.Proofs.Ninja.Order

/-!
# How a build ends

A build ends in one of three ways: its first pass fails, the invocation does, or its last pass
decides. A build that ends with a graph has planned its modules with what its source knew at
the end. The rules of the graph are those of the plan, followed by one for each build
statement, and they have an order.
-/
namespace HybridBuild.Build

open ActionGraph

variable {g : ModuleGraph} {options : BuildOptions} {src last : FactSource}
  {files left : FileTree} {p : Plan} {graph : ActionGraph} {moduleList : Option Path}

/-- What the last pass of a build starts from: the source and the files as they are when
nothing may be delegated, and as the invocation after a first pass leaves them otherwise. -/
inductive Prepares (g : ModuleGraph) (outDir : Path) (src : FactSource) (files : FileTree) :
    FactSource → FileTree → Prop
  | untouched (disabled : src.enabled = false) : Prepares g outDir src files src files
  | invoked {first : Plan} {asked settled : FactSource} {left : FileTree}
      (enabled : src.enabled) (planned : plan g outDir src = (.ok first, asked))
      (invoked : asked.invoke files = (.ok (), settled, left)) :
      Prepares g outDir src files settled left

/-- How a build ends: with which result, source and files. -/
inductive Ran (g : ModuleGraph) (options : BuildOptions) (src : FactSource) (files : FileTree) :
    Except BuildError ActionGraph × FactSource × FileTree → Prop
  | unplanned {e : PlanError} {asked : FactSource} (enabled : src.enabled)
      (planned : plan g options.outDir src = (.error e, asked)) :
      Ran g options src files (.error (.plan e), asked, files)
  | uninvoked {first : Plan} {asked settled : FactSource} {e : SourceError} {left : FileTree}
      (enabled : src.enabled) (planned : plan g options.outDir src = (.ok first, asked))
      (invoked : asked.invoke files = (.error e, settled, left)) :
      Ran g options src files (.error (.source e), settled, left)
  | finished {second last : FactSource} {left : FileTree}
      {result : Except BuildError ActionGraph}
      (prepared : Prepares g options.outDir src files second left)
      (finished : finish g options second left = (result, last)) :
      Ran g options src files (result, last, left)

theorem ran_run (g : ModuleGraph) (options : BuildOptions) (src : FactSource) (files : FileTree) :
    Ran g options src files (run g options src files) := by
  unfold run
  split
  next henabled =>
    rcases hfirst : plan g options.outDir src with ⟨e | first, asked⟩
    · exact .unplanned henabled hfirst
    · rcases hinvoke : asked.invoke files with ⟨e | ⟨⟩, settled, left⟩
      · simp only [hinvoke]
        exact .uninvoked henabled hfirst hinvoke
      · simp only [hinvoke]
        exact .finished (.invoked henabled hfirst hinvoke) rfl
  next hdisabled => exact .finished (.untouched (by simpa using hdisabled)) rfl

theorem of_assemble_eq_ok (h : assemble p src files moduleList = .ok graph) :
    ∃ planned spliced count deps, empty.addRules p.rules = .ok planned ∧
      planned.splice src = (.ok count, spliced) ∧ src.manifestDeps files moduleList = .ok deps ∧
      graph = spliced.addManifestDeps (deps ++ (moduleList.map Path.text).toList) ∧
      ∃ order, graph.ordered = .ok order := by
  unfold assemble at h
  split at h
  · cases h
  next planned hplanned =>
    split at h
    · cases h
    next count spliced hspliced =>
      split at h
      · cases h
      next deps hdeps =>
        dsimp only at h
        split at h
        · cases h
        next order horder =>
          obtain rfl := Except.ok.inj h
          exact ⟨planned, spliced, count, deps, hplanned, hspliced, hdeps, rfl, order, horder⟩

/-- A graph is put together when each step has success and the rules can be ordered. -/
theorem exists_assemble {planned spliced : ActionGraph} {count : Nat} {deps : List String}
    {order : List Rule} (hplanned : empty.addRules p.rules = .ok planned)
    (hsplice : planned.splice src = (.ok count, spliced))
    (hdeps : src.manifestDeps files moduleList = .ok deps) (horder : spliced.ordered = .ok order) :
    ∃ graph, assemble p src files moduleList = .ok graph ∧ graph.rules = spliced.rules := by
  let graph := spliced.addManifestDeps (deps ++ (moduleList.map Path.text).toList)
  have hrules : graph.rules = spliced.rules := rfl
  have horder' : graph.ordered = .ok order := (ordered_congr hrules).trans horder
  refine ⟨graph, ?_, hrules⟩
  simp only [assemble, hplanned, hsplice, hdeps, graph, horder']

/-- The rules of a graph that was put together: those of the plan, and those of the statements
unless the source is disabled. -/
theorem rules_of_assemble (h : assemble p src files moduleList = .ok graph) :
    ∃ spliced, graph.rules = p.rules ++ spliced ∧ Registered graph.rules ∧
      (src.enabled = false → spliced = []) ∧
      (src.enabled → ∃ base, src.facts.outputBase = some base ∧
        statementRules (execroot base) 0 src.statements = .ok spliced) := by
  obtain ⟨planned, added, count, deps, hplanned, hsplice, -, rfl, -⟩ := of_assemble_eq_ok h
  obtain ⟨spliced, hadded, hdisabled, henabled⟩ := exists_rules_of_splice hsplice
  have hreg : Registered planned.rules := registered_addRules .nil hplanned
  have hreg' : Registered added.rules := registered_addRules hreg hadded
  have hrules : added.rules = p.rules ++ spliced := by
    rw [rules_addRules hadded, rules_addRules hplanned]
    rfl
  exact ⟨spliced, hrules, hreg', hdisabled, henabled⟩

/-- A plan is only refused for its rules or for those of Bazel's actions. -/
theorem of_assemble_eq_error {e : BuildError} (h : assemble p src files moduleList = .error e) :
    (∃ fault, e = .splice fault) ∨ ∃ fault, e = .graph fault := by
  unfold assemble at h
  split at h
  next fault _ => exact .inr ⟨fault, (Except.error.inj h).symm⟩
  · split at h
    next fault _ _ => exact .inl ⟨fault, (Except.error.inj h).symm⟩
    · split at h
      next fault _ => exact .inl ⟨fault, (Except.error.inj h).symm⟩
      · dsimp only at h
        split at h
        next fault _ => exact .inr ⟨fault, (Except.error.inj h).symm⟩
        · cases h

theorem enabled_of_plan {outDir : Path} {result : Except PlanError Plan}
    (h : plan g outDir src = (result, last)) : last.enabled = src.enabled := by
  have hnote : src.note (Pass.ofGraph src.facts outDir g).asked = last := congrArg Prod.snd h
  rw [← hnote, FactSource.enabled_note]

/-- The second half of a build asks its source what a pass asks, and nothing else. -/
theorem snd_finish (g : ModuleGraph) (options : BuildOptions) (src : FactSource)
    (files : FileTree) : (finish g options src files).2 = (plan g options.outDir src).2 := by
  unfold finish
  rcases plan g options.outDir src with ⟨e | p, last⟩
  · rfl
  · cases hpending : last.pending with
    | nil => simp only [hpending]
    | cons r rs => simp only [hpending]

theorem of_finish_eq_ok (h : finish g options src files = (.ok graph, last)) :
    ∃ p, plan g options.outDir src = (.ok p, last) ∧ last.pending = [] ∧
      assemble p last files options.moduleList = .ok graph := by
  unfold finish at h
  rcases hplan : plan g options.outDir src with ⟨e | p, asked⟩
  · simp [hplan] at h
  · simp only [hplan] at h
    split at h
    next hpending =>
      obtain ⟨hassemble, rfl⟩ := Prod.mk.inj h
      exact ⟨p, rfl, hpending, hassemble⟩
    · cases h

/-- A build ends with a graph only after a last pass that leaves nothing waiting. -/
theorem of_run_eq_ok (h : run g options src files = (.ok graph, last, left)) :
    ∃ second p, Prepares g options.outDir src files second left ∧
      plan g options.outDir second = (.ok p, last) ∧ last.pending = [] ∧
      assemble p last left options.moduleList = .ok graph := by
  have hran := ran_run g options src files
  rw [h] at hran
  cases hran with
  | finished prepared finished =>
    obtain ⟨p, hplan, hpending, hassemble⟩ := of_finish_eq_ok finished
    exact ⟨_, p, prepared, hplan, hpending, hassemble⟩

/-- A pass notes what it asks, and knows afterwards what it knew before. -/
theorem result_ofGraph_of_plan {outDir : Path} {result : Except PlanError Plan}
    (h : plan g outDir src = (result, last)) :
    (Pass.ofGraph last.facts outDir g).result = result := by
  obtain ⟨hresult, rfl⟩ := Prod.mk.inj h
  rw [FactSource.facts_note, hresult]

theorem Prepares.enabled_eq {outDir : Path} (h : Prepares g outDir src files last left) :
    last.enabled = src.enabled := by
  cases h with
  | untouched => rfl
  | invoked _ planned invoked =>
    exact (FactSource.enabled_of_invoke invoked).trans (enabled_of_plan planned)

theorem enabled_of_run (h : run g options src files = (.ok graph, last, left)) :
    last.enabled = src.enabled := by
  obtain ⟨second, p, hprepared, hplan, -⟩ := of_run_eq_ok h
  exact (enabled_of_plan hplan).trans hprepared.enabled_eq

/-- The parts of the graph that a build ends with: the rules of the plan `p`, and the rules of
the build statements below the execution root of `base`. -/
structure Assembled (g : ModuleGraph) (outDir : Path) (src : FactSource) (graph : ActionGraph)
    (p : Plan) (base : Path) (spliced : List Rule) : Prop where
  planned : (Pass.ofGraph src.facts outDir g).result = .ok p
  outputBase : src.facts.outputBase = some base
  statements : statementRules (execroot base) 0 src.statements = .ok spliced
  rules : graph.rules = p.rules ++ spliced
  registered : Registered graph.rules
  ordered : ∃ order, graph.ordered = .ok order

/-- A build with facts ends with a graph of such parts. -/
theorem assembled_of_run (henabled : src.enabled)
    (h : run g options src files = (.ok graph, last, left)) :
    ∃ p base spliced, Assembled g options.outDir last graph p base spliced := by
  obtain ⟨second, p, -, hplan, -, hassemble⟩ := of_run_eq_ok h
  obtain ⟨spliced, hrules, hreg, -, hstatements⟩ := rules_of_assemble hassemble
  obtain ⟨base, hbase, hspliced⟩ := hstatements ((enabled_of_run h).trans henabled)
  obtain ⟨-, -, -, -, -, -, -, -, horder⟩ := of_assemble_eq_ok hassemble
  exact ⟨p, base, spliced, result_ofGraph_of_plan hplan, hbase, hspliced, hrules, hreg, horder⟩

end HybridBuild.Build
