import HybridBuild.Action.Statement
import HybridBuild.Proofs.Action.Chain
import HybridBuild.Proofs.Action.Expand
import Mathlib.Data.List.Basic

/-!
# What is remembered changes nothing

The paths and sets that were resolved before are looked up instead of being resolved
again. Every value that is remembered is the one that would be found anew, and a set that
was expanded before leads to no set that is still open. So each step gives the result of
its counterpart without memory, errors included, and what it remembers afterwards is
right again. The statement of an action is therefore the same after any other actions.
-/
namespace HybridBuild

/-- The statement of an action whose files have the given paths. -/
def Action.statementWith (action : Action) (inputs paths : List String) :
    Except ActionError Statement :=
  let depfiles := paths.filter isDepfile
  if 1 < depfiles.length then
    .error (.multipleDepfiles action.mnemonic action.key depfiles)
  else
    .ok {
      mnemonic := action.mnemonic
      command := shellWords action.arguments
      inputs
      outputs := paths.filter fun path => !isDepfile path
      depfile := depfiles.head?
      env := action.environment }

namespace ActionIndex

/-- The paths of the files of some sets without the files `seen`, all found anew. -/
def plainSetPaths (ix : ActionIndex) (seen : List Nat) :
    List Nat → Except ActionError (List String)
  | [] => .ok []
  | id :: rest => do
    let ids ← ix.expand [] id
    let fresh := ids.filter fun id => id ∉ seen
    let paths ← fresh.mapM ix.plainArtifactPath
    let more ← ix.plainSetPaths (fresh ++ seen) rest
    return paths ++ more

/-- The statement of an action, with all references resolved anew. -/
def plainStatement (ix : ActionIndex) (action : Action) : Except ActionError Statement :=
  if action.arguments.all String.isEmpty then
    .error (.emptyCommand action.mnemonic action.key)
  else do
    let inputs ← ix.plainSetPaths [] action.inputSets
    let paths ← action.outputs.mapM ix.plainArtifactPath
    action.statementWith inputs paths

end ActionIndex

section Memory

variable {α β σ τ : Type}

/-- Every value that is remembered is the one found anew. -/
def Remembers (plain : Nat → Except ActionError α) (known : Std.TreeMap Nat α) : Prop :=
  ∀ id a, known[id]? = some a → plain id = .ok a

theorem remembers_empty (plain : Nat → Except ActionError α) : Remembers plain ∅ := by
  intro id a h
  simp at h

theorem Remembers.insert {plain : Nat → Except ActionError α} {known : Std.TreeMap Nat α}
    (h : Remembers plain known) {id : Nat} {a : α} (ha : plain id = .ok a) :
    Remembers plain (known.insert id a) := by
  intro id' a' h'
  rw [Std.TreeMap.getElem?_insert] at h'
  split at h'
  next heq =>
    obtain rfl : id = id' := Std.LawfulEqOrd.eq_of_compare heq
    rwa [← Option.some.inj h']
  next => exact h id' a' h'

/-- A computation with memory gives what the one without gives, and leaves a memory that
is right. -/
def Follows (right : σ → Prop) (result : Except ActionError (α × σ))
    (plain : Except ActionError α) : Prop :=
  match result with
  | .error e => plain = .error e
  | .ok (a, s) => plain = .ok a ∧ right s

/-- Both fail in the same way, or both succeed with one value. -/
theorem Follows.cases {right : σ → Prop} {result : Except ActionError (α × σ)}
    {plain : Except ActionError α} (h : Follows right result plain) :
    (∃ e, result = .error e ∧ plain = .error e) ∨
      ∃ a s, result = .ok (a, s) ∧ plain = .ok a ∧ right s := by
  cases result with
  | error e => exact .inl ⟨e, rfl, h⟩
  | ok r => exact .inr ⟨r.1, r.2, rfl, h⟩

end Memory

namespace ActionTables

open ActionIndex Relation

variable {t : ActionTables}

theorem follows_fragmentPath {paths : Std.TreeMap Nat String}
    (h : Remembers t.index.plainPath paths) (id : Nat) :
    Follows (Remembers t.index.plainPath) (t.index.fragmentPath paths id)
      (t.index.plainPath id) := by
  unfold fragmentPath
  cases hknown : paths[id]? with
  | some path => exact ⟨h id path hknown, h⟩
  | none =>
    dsimp only
    cases hchain : t.index.chain [] [] id with
    | error e =>
      show t.index.plainPath id = .error e
      rw [plainPath, hchain]
      rfl
    | ok labels =>
      have hpath : t.index.plainPath id = .ok ("/".intercalate labels) := by
        rw [plainPath, hchain]
        rfl
      exact ⟨hpath, h.insert hpath⟩

theorem follows_artifactPath {paths : Std.TreeMap Nat String}
    (h : Remembers t.index.plainPath paths) (id : Nat) :
    Follows (Remembers t.index.plainPath) (t.index.artifactPath paths id)
      (t.index.plainArtifactPath id) := by
  unfold artifactPath plainArtifactPath
  cases t.index.artifacts[id]? with
  | none => rfl
  | some artifact => exact follows_fragmentPath h artifact.fragment

theorem follows_artifactPaths {paths : Std.TreeMap Nat String}
    (h : Remembers t.index.plainPath paths) (ids : List Nat) :
    Follows (Remembers t.index.plainPath) (t.index.artifactPaths paths ids)
      (ids.mapM t.index.plainArtifactPath) := by
  induction ids generalizing paths with
  | nil => exact ⟨rfl, h⟩
  | cons id rest ih =>
    rw [artifactPaths, List.mapM_cons]
    obtain ⟨e, hr, hp⟩ | ⟨path, known, hr, hp, hknown⟩ := (follows_artifactPath h id).cases
    · rw [hr, hp]
      rfl
    · rw [hr, hp]
      obtain ⟨e, hr, hp⟩ | ⟨more, known', hr, hp, hknown'⟩ := (ih hknown).cases
      · simp only [hr, hp]
        rfl
      · simp only [hr, hp]
        exact ⟨rfl, hknown'⟩

/-- The memory of sets is right. -/
abbrev RemembersSets (t : ActionTables) : Std.TreeMap Nat (List Nat) → Prop :=
  Remembers (t.index.expand [])

theorem follows_flattenAll {above : List Nat} {sets : List Nat}
    (hsets : ∀ id ∈ sets, ∀ files, t.RemembersSets files →
      Follows t.RemembersSets (t.index.flatten above files id) (t.index.expand above id))
    {files : Std.TreeMap Nat (List Nat)} (h : t.RemembersSets files) :
    Follows t.RemembersSets (t.index.flattenAll above files sets)
      ((sets.mapM (t.index.expand above)).map List.flatten) := by
  induction sets generalizing files with
  | nil =>
    rw [flattenAll]
    exact ⟨rfl, h⟩
  | cons id rest ih =>
    rw [List.forall_mem_cons] at hsets
    rw [flattenAll]
    obtain ⟨e, hr, hp⟩ | ⟨ids, known, hr, hp, hknown⟩ := (hsets.1 files h).cases
    · rw [hr, mapM_cons_error hp]
      rfl
    · rw [hr, mapM_cons_ok hp]
      obtain ⟨e, hr, hp⟩ | ⟨more, known', hr, hp, hknown'⟩ := (ih hsets.2 hknown).cases
      · simp only [hr, except_map_eq_error_iff.mp hp]
        rfl
      · obtain ⟨lists, hlists, rfl⟩ := except_map_eq_ok_iff.mp hp
        simp only [hr, hlists]
        exact ⟨rfl, hknown'⟩

/-- A set that was expanded before leads to no open set, so looking it up gives what
going down into it would give. -/
theorem expand_of_remembered {above : List Nat} {id : Nat} {files : Std.TreeMap Nat (List Nat)}
    (hopen : ∀ x ∈ above, TransGen t.Contains x id) (h : t.RemembersSets files) {ids : List Nat}
    (hknown : files[id]? = some ids) : t.index.expand above id = .ok ids := by
  have hids := h id ids hknown
  have hground := grounded_of_expand hids
  refine expand_congr hids fun x hx hmem => ?_
  exact (hground x hx).2 ((hopen x hmem).trans_left hx)

/-- It is enough to look at sets that were not expanded before. -/
theorem follows_flatten_of_new {above : List Nat} {id : Nat} {files : Std.TreeMap Nat (List Nat)}
    (hopen : ∀ x ∈ above, TransGen t.Contains x id) (h : t.RemembersSets files)
    (hnew : files[id]? = none →
      Follows t.RemembersSets (t.index.flatten above files id) (t.index.expand above id)) :
    Follows t.RemembersSets (t.index.flatten above files id) (t.index.expand above id) := by
  cases hknown : files[id]? with
  | none => exact hnew hknown
  | some ids =>
    have hflatten : t.index.flatten above files id = .ok (ids, files) := by
      rw [flatten]
      simp only [hknown]
    rw [hflatten]
    exact ⟨expand_of_remembered hopen h hknown, h⟩

/-- A set comes to the same files whether the sets expanded before are remembered or not. What is
remembered of it does not depend on the sets above. -/
theorem follows_flatten {above : List Nat} {id : Nat} {files : Std.TreeMap Nat (List Nat)}
    (hopen : ∀ x ∈ above, TransGen t.Contains x id) (h : t.RemembersSets files) :
    Follows t.RemembersSets (t.index.flatten above files id) (t.index.expand above id) := by
  induction above, id using expand.induct t.index generalizing files with
  | case1 above id hmem =>
    refine follows_flatten_of_new hopen h fun hknown => ?_
    rw [flatten]
    simp only [hknown, dif_pos hmem]
    exact expand_of_mem hmem
  | case2 above id hnew hnone =>
    refine follows_flatten_of_new hopen h fun hknown => ?_
    rw [flatten]
    simp only [hknown, dif_neg hnew]
    split
    · exact expand_of_none hnew hnone
    next set hsome => exact absurd (hnone.symm.trans hsome) nofun
  | case3 above id hnew set hset ih =>
    refine follows_flatten_of_new hopen h fun hknown => ?_
    rw [flatten]
    simp only [hknown, dif_neg hnew]
    split
    next hnone => exact absurd (hset.symm.trans hnone) nofun
    next set' hset' =>
      obtain rfl := Option.some.inj (hset.symm.trans hset')
      have hchildren : ∀ child ∈ set.transitive, ∀ files, t.RemembersSets files →
          Follows t.RemembersSets (t.index.flatten (id :: above) files child)
            (t.index.expand (id :: above) child) := by
        intro child hchild files hfiles
        have hc : t.Contains id child := ⟨set, (getElem?_depSets id).symm.trans hset, hchild⟩
        refine ih child (fun x hx => ?_) hfiles
        rcases List.mem_cons.mp hx with rfl | hx
        · exact .single hc
        · exact (hopen x hx).tail hc
      obtain ⟨e, hr, hp⟩ | ⟨below, known, hr, hp, hknown⟩ :=
        (follows_flattenAll hchildren h).cases
      · have hids : t.index.expand above id = .error e := by
          rw [expand_of_some hnew hset, except_map_eq_error_iff.mp hp]
          rfl
        simp only [hr]
        exact hids
      · obtain ⟨lists, hlists, rfl⟩ := except_map_eq_ok_iff.mp hp
        have hids : t.index.expand above id =
            .ok (set.direct ++ lists.flatten).eraseDups := by
          rw [expand_of_some hnew hset, hlists]
          rfl
        simp only [hr]
        exact ⟨hids, hknown.insert (expand_congr hids fun x _ => List.not_mem_nil)⟩

/-- What has been resolved so far is right. -/
structure Recalls (t : ActionTables) (resolved : Resolved) : Prop where
  paths : Remembers t.index.plainPath resolved.paths
  files : t.RemembersSets resolved.files

theorem recalls_empty (t : ActionTables) : t.Recalls .empty :=
  ⟨remembers_empty _, remembers_empty _⟩

theorem follows_setPaths {resolved : Resolved} (h : t.Recalls resolved) (seen sets : List Nat) :
    Follows t.Recalls (t.index.setPaths resolved seen sets) (t.index.plainSetPaths seen sets) := by
  induction sets generalizing resolved seen with
  | nil => exact ⟨rfl, h⟩
  | cons id rest ih =>
    have hset : Follows t.RemembersSets (t.index.flatten [] resolved.files id)
        (t.index.expand [] id) := follows_flatten nofun h.files
    rw [setPaths, plainSetPaths]
    obtain ⟨e, hr, hp⟩ | ⟨ids, files, hr, hp, hfiles⟩ := hset.cases
    · rw [hr, hp]
      rfl
    · simp only [hr, hp, except_ok_bind]
      have hfresh := follows_artifactPaths h.paths (ids.filter fun id => id ∉ seen)
      obtain ⟨e, hr, hp⟩ | ⟨paths, known, hr, hp, hknown⟩ := hfresh.cases
      · rw [hr, hp]
        rfl
      · simp only [hr, hp, except_ok_bind]
        have hresolved : t.Recalls ⟨known, files⟩ := ⟨hknown, hfiles⟩
        have hrest := ih hresolved ((ids.filter fun id => id ∉ seen) ++ seen)
        obtain ⟨e, hr, hp⟩ | ⟨more, later, hr, hp, hlater⟩ := hrest.cases
        · rw [hr, hp]
          rfl
        · rw [hr, hp]
          exact ⟨rfl, hlater⟩

theorem follows_statement {resolved : Resolved} (h : t.Recalls resolved) (action : Action) :
    Follows t.Recalls (t.index.statement resolved action) (t.index.plainStatement action) := by
  unfold statement plainStatement
  split
  · rfl
  · obtain ⟨e, hr, hp⟩ | ⟨inputs, later, hr, hp, hlater⟩ :=
      (follows_setPaths h [] action.inputSets).cases
    · rw [hr, hp]
      rfl
    · simp only [hr, hp, except_ok_bind]
      obtain ⟨e, hr, hp⟩ | ⟨paths, known, hr, hp, hknown⟩ :=
        (follows_artifactPaths hlater.paths action.outputs).cases
      · rw [hr, hp]
        rfl
      · simp only [hr, hp, except_ok_bind, Action.statementWith, List.partition_eq_filter_filter]
        split
        · rfl
        · exact ⟨rfl, hknown, hlater.files⟩

/-- The statements of some actions are found one by one, whatever was resolved before. -/
theorem statements_eq_mapM_of_recalls {resolved : Resolved} (h : t.Recalls resolved)
    (actions : List Action) :
    t.index.statements resolved actions = actions.mapM t.index.plainStatement := by
  induction actions generalizing resolved with
  | nil => rfl
  | cons action rest ih =>
    rw [ActionIndex.statements]
    obtain ⟨e, hr, hp⟩ | ⟨statement, later, hr, hp, hlater⟩ := (follows_statement h action).cases
    · rw [hr, mapM_cons_error hp]
    · rw [hr, mapM_cons_ok hp, ← ih hlater]
      dsimp only
      cases t.index.statements later rest <;> rfl

theorem statements_eq_mapM (t : ActionTables) :
    t.statements = t.actions.mapM t.index.plainStatement :=
  statements_eq_mapM_of_recalls t.recalls_empty t.actions

/-- The tables with a single action. -/
def only (t : ActionTables) (action : Action) : ActionTables := { t with actions := [action] }

theorem statements_only (t : ActionTables) (action : Action) :
    (t.only action).statements = (t.index.plainStatement action).map ([·]) := by
  rw [statements_eq_mapM]
  show [action].mapM t.index.plainStatement = _
  cases hp : t.index.plainStatement action with
  | error e => exact mapM_cons_error hp
  | ok statement => exact mapM_cons_ok hp

/-- Each action is resolved as if it were the only one: a report has the statements that
its actions have alone, in their order, and when some action is faulty alone, the report
fails as the first such action does. -/
theorem statements_independent (t : ActionTables) :
    (∀ statements, t.statements = .ok statements ↔
      t.actions.map (fun action => (t.only action).statements) =
        statements.map fun statement => .ok [statement]) ∧
    ∀ e, t.statements = .error e ↔ ∃ before action after,
      t.actions = before ++ action :: after ∧
      (∀ b ∈ before, ∃ statement, (t.only b).statements = .ok [statement]) ∧
      (t.only action).statements = .error e := by
  rw [statements_eq_mapM]
  constructor
  · intro statements
    have hone : Function.Injective fun r : Except ActionError Statement => r.map ([·]) := by
      intro r r' h
      cases r <;> cases r' <;> simp_all [Except.map]
    rw [mapM_eq_ok_iff, ← (List.map_injective_iff.mpr hone).eq_iff, List.map_map, List.map_map]
    simp only [statements_only]
    rfl
  · intro e
    have honly (action : Action) (statement : Statement) :
        (t.only action).statements = .ok [statement] ↔
          t.index.plainStatement action = .ok statement := by
      simp [statements_only, except_map_eq_ok_iff]
    simp only [honly]
    simp only [mapM_eq_error_iff, statements_only, except_map_eq_error_iff]

end ActionTables

end HybridBuild
