import HybridBuild.Proofs.Action.Memory

/-!
# What a statement takes from its action

The statements of a document are those of its actions, one for each in their order. A statement
has the words of its action's arguments, of which one is not empty, for a command, and the paths
of the action's outputs, without a depfile, for its outputs.
-/
namespace HybridBuild

namespace ActionTables

/-- What the statement of an action takes from it. -/
structure States (t : ActionTables) (action : Action) (s : Statement) : Prop where
  arguments : ∃ argument ∈ action.arguments, argument ≠ ""
  command : s.command = shellWords action.arguments
  env : s.env = action.environment
  outputs : ∃ paths, action.outputs.mapM t.index.plainArtifactPath = .ok paths ∧
    s.outputs = paths.filter fun path => !isDepfile path

variable {t : ActionTables} {action : Action} {s : Statement}

theorem states_of_plainStatement (h : t.index.plainStatement action = .ok s) :
    t.States action s := by
  unfold ActionIndex.plainStatement at h
  split at h
  · cases h
  next hsome =>
    cases hinputs : t.index.plainSetPaths [] action.inputSets with
    | error e => simp [hinputs] at h
    | ok inputs =>
      cases hpaths : action.outputs.mapM t.index.plainArtifactPath with
      | error e => simp [hinputs, hpaths] at h
      | ok paths =>
        rw [hinputs, hpaths, except_ok_bind, except_ok_bind, Action.statementWith] at h
        split at h
        · cases h
        · cases h
          exact ⟨by simpa using hsome, rfl, rfl, paths, hpaths, rfl⟩

/-- The outputs of a statement are those outputs of its action that are no depfiles. -/
theorem States.mem_outputs_iff (h : t.States action s) {path : String} :
    path ∈ s.outputs ↔
      ∃ artifact ∈ action.outputs, t.HasPath artifact path ∧ isDepfile path = false := by
  obtain ⟨paths, hpaths, houtputs⟩ := h.outputs
  rw [houtputs, List.mem_filter, mem_of_mapM_eq_ok hpaths, Bool.not_eq_true']
  simp only [plainArtifactPath_eq_ok_iff, ← and_assoc, exists_and_right]

end ActionTables

/-- The statements of a document are those of its actions. -/
theorem exists_states_of_listOfDocument {bytes : List UInt8} {statements : List Statement}
    (h : Statement.listOfDocument bytes = .ok statements) {i : Nat} {s : Statement}
    (hs : statements[i]? = some s) :
    ∃ tables action, (Json.parse? bytes >>= ActionTables.ofJson?) = some tables ∧
      tables.actions[i]? = some action ∧ tables.States action s := by
  unfold Statement.listOfDocument at h
  split at h
  · cases h
    simp at hs
  · split at h
    · cases h
    next tables htables =>
      rw [ActionTables.statements_eq_mapM, mapM_eq_ok_iff] at h
      have hplace : (tables.actions.map tables.index.plainStatement)[i]? = some (.ok s) := by
        rw [h, List.getElem?_map, hs]
        rfl
      rw [List.getElem?_map, Option.map_eq_some_iff] at hplace
      obtain ⟨action, haction, hstatement⟩ := hplace
      exact ⟨tables, action, htables, haction, ActionTables.states_of_plainStatement hstatement⟩

end HybridBuild
