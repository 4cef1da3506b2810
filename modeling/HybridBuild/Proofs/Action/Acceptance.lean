import HybridBuild.Proofs.Action.Memory

/-!
# Which reports are accepted

An action is fit when it has a command, every set that it reads is defined and does not
contain itself, all its files have paths, and at most one of its outputs is a depfile. A
report has statements exactly when all its actions are fit; entries of the tables that
no action leads to do not matter.
-/
namespace HybridBuild

theorem length_filter_le_one_iff {α : Type} {p : α → Bool} {l : List α} :
    (l.filter p).length ≤ 1 ↔ l.Pairwise fun a b => ¬ (p a ∧ p b) := by
  induction l with
  | nil => simp
  | cons a l ih =>
    rw [List.pairwise_cons, ← ih]
    by_cases ha : p a
    · have hnone : (∀ b ∈ l, ¬ (p a ∧ p b)) ↔ (l.filter p).length = 0 := by
        simp [ha, List.length_eq_zero_iff, List.filter_eq_nil_iff]
      rw [List.filter_cons_of_pos ha, List.length_cons, hnone]
      omega
    · rw [List.filter_cons_of_neg ha]
      simp [ha]

namespace ActionTables

open ActionIndex Relation

/-- An action reads the sets that it names and all that they lead to. -/
def Reads (t : ActionTables) (action : Action) (id : Nat) : Prop :=
  ∃ first ∈ action.inputSets, ReflTransGen t.Contains first id

/-- An action uses its outputs and the artifacts of the sets that it reads. -/
def Uses (t : ActionTables) (action : Action) (artifact : Nat) : Prop :=
  artifact ∈ action.outputs ∨
    ∃ id set, t.Reads action id ∧ t.depSet? id = some set ∧ artifact ∈ set.direct

/-- The path of an artifact is that of a depfile. -/
def HasDepfilePath (t : ActionTables) (artifact : Nat) : Prop :=
  ∃ path, t.HasPath artifact path ∧ isDepfile path

structure Fit (t : ActionTables) (action : Action) : Prop where
  command : ∃ argument ∈ action.arguments, argument ≠ ""
  sets : ∀ id, t.Reads action id →
    (∃ set, t.depSet? id = some set) ∧ ¬ TransGen t.Contains id id
  artifacts : ∀ artifact, t.Uses action artifact → ∃ path, t.HasPath artifact path
  depfiles : action.outputs.Pairwise fun a b => ¬ (t.HasDepfilePath a ∧ t.HasDepfilePath b)

variable {t : ActionTables} {action : Action}

/-- Once some files are met, a set needs paths only for its other files. -/
theorem exists_path_append_iff {ids seen : List Nat}
    (hids : ∀ artifact ∈ ids, artifact ∉ seen → ∃ path, t.HasPath artifact path)
    (more : List Nat) :
    (∀ artifact ∈ more, artifact ∉ (ids.filter fun id => id ∉ seen) ++ seen →
        ∃ path, t.HasPath artifact path) ↔
      ∀ artifact ∈ more, artifact ∉ seen → ∃ path, t.HasPath artifact path := by
  refine forall₂_congr fun artifact _ => ?_
  simp only [List.mem_append, List.mem_filter, decide_eq_true_eq, not_or, not_and, not_not]
  constructor
  · intro h hseen
    by_cases hmem : artifact ∈ ids
    · exact hids artifact hmem hseen
    · exact h ⟨fun hmem' => absurd hmem' hmem, hseen⟩
  · exact fun h hnew => h hnew.2

theorem exists_plainSetPaths_iff {seen sets : List Nat} :
    (∃ paths, t.index.plainSetPaths seen sets = .ok paths) ↔
      ∀ id ∈ sets, ∃ ids, t.index.expand [] id = .ok ids ∧
        ∀ artifact ∈ ids, artifact ∉ seen → ∃ path, t.HasPath artifact path := by
  induction sets generalizing seen with
  | nil => simp [plainSetPaths]
  | cons id rest ih =>
    rw [List.forall_mem_cons, plainSetPaths, exists_bind_ok_iff, ← exists_and_right]
    refine exists_congr fun ids => ?_
    rw [and_assoc, and_congr_right_iff]
    intro _
    have hfresh : (∃ paths, (ids.filter fun id => id ∉ seen).mapM t.index.plainArtifactPath =
        .ok paths) ↔ ∀ artifact ∈ ids, artifact ∉ seen → ∃ path, t.HasPath artifact path := by
      rw [exists_mapM_ok_iff]
      simp [plainArtifactPath_eq_ok_iff]
    rw [exists_bind_ok_iff, ← hfresh, ← exists_and_right]
    refine exists_congr fun paths => ?_
    rw [and_congr_right_iff]
    intro hpaths
    have hseen := exists_path_append_iff (hfresh.mp ⟨paths, hpaths⟩)
    rw [exists_bind_ok_iff]
    have hreturn (more : List String) : ∃ b, (pure (paths ++ more) : Except ActionError _) = .ok b :=
      ⟨_, rfl⟩
    simp only [hreturn, and_true, ih, hseen]

theorem exists_statementWith_iff {inputs paths : List String} :
    (∃ statement, action.statementWith inputs paths = .ok statement) ↔
      paths.Pairwise fun p q => ¬ (isDepfile p ∧ isDepfile q) := by
  rw [← length_filter_le_one_iff, ← Nat.not_lt]
  unfold Action.statementWith
  dsimp only
  split <;> simp_all

theorem exists_plainStatement_iff :
    (∃ statement, t.index.plainStatement action = .ok statement) ↔
      (∃ argument ∈ action.arguments, argument ≠ "") ∧
      (∃ inputs, t.index.plainSetPaths [] action.inputSets = .ok inputs) ∧
      ∃ paths, action.outputs.mapM t.index.plainArtifactPath = .ok paths ∧
        paths.Pairwise fun p q => ¬ (isDepfile p ∧ isDepfile q) := by
  have hcommand : (∃ argument ∈ action.arguments, argument ≠ "") ↔
      ¬ action.arguments.all String.isEmpty := by simp
  rw [hcommand]
  unfold plainStatement
  by_cases hempty : action.arguments.all String.isEmpty
  · simp [hempty]
  · rw [if_neg hempty]
    simp only [exists_bind_ok_iff, exists_statementWith_iff, hempty]
    simp

/-- Whether two of some outputs are depfiles shows in their paths. -/
theorem pairwise_depfile_iff {outputs : List Nat} {paths : List String}
    (h : outputs.mapM t.index.plainArtifactPath = .ok paths) :
    (paths.Pairwise fun p q => ¬ (isDepfile p ∧ isDepfile q)) ↔
      outputs.Pairwise fun a b => ¬ (t.HasDepfilePath a ∧ t.HasDepfilePath b) := by
  let isBoth (r s : Except ActionError String) : Prop :=
    (∃ p, r = .ok p ∧ isDepfile p) ∧ ∃ q, s = .ok q ∧ isDepfile q
  have hpath (a : Nat) : t.HasDepfilePath a ↔
      ∃ p, t.index.plainArtifactPath a = .ok p ∧ isDepfile p := by
    simp only [HasDepfilePath, plainArtifactPath_eq_ok_iff]
  calc (paths.Pairwise fun p q => ¬ (isDepfile p ∧ isDepfile q))
      ↔ (paths.map Except.ok).Pairwise fun r s => ¬ isBoth r s := by
        simp [List.pairwise_map, isBoth]
    _ ↔ (outputs.map t.index.plainArtifactPath).Pairwise fun r s => ¬ isBoth r s := by
        rw [mapM_eq_ok_iff.mp h]
    _ ↔ outputs.Pairwise fun a b => ¬ (t.HasDepfilePath a ∧ t.HasDepfilePath b) := by
        simp only [List.pairwise_map, hpath, isBoth]

/-- The inputs of an action have paths when all sets that it reads and their artifacts are
in order. -/
theorem exists_plainSetPaths_nil_iff :
    (∃ inputs, t.index.plainSetPaths [] action.inputSets = .ok inputs) ↔
      (∀ id, t.Reads action id →
        (∃ set, t.depSet? id = some set) ∧ ¬ TransGen t.Contains id id) ∧
      ∀ artifact id set, t.Reads action id → t.depSet? id = some set → artifact ∈ set.direct →
        ∃ path, t.HasPath artifact path := by
  rw [exists_plainSetPaths_iff]
  constructor
  · intro h
    constructor
    · rintro id ⟨first, hfirst, hreach⟩
      obtain ⟨ids, hids, -⟩ := h first hfirst
      exact grounded_of_expand hids id hreach
    · rintro artifact id set ⟨first, hfirst, hreach⟩ hset hdirect
      obtain ⟨ids, hids, hpaths⟩ := h first hfirst
      exact hpaths artifact ((mem_expand hids).mpr ⟨id, set, hreach, hset, hdirect⟩)
        List.not_mem_nil
  · rintro ⟨hsets, hartifacts⟩ first hfirst
    have hground : t.Grounded first := fun x hx => hsets x ⟨first, hfirst, hx⟩
    obtain ⟨ids, hids⟩ := exists_expand_iff.mpr ⟨hground, fun _ _ => List.not_mem_nil⟩
    refine ⟨ids, hids, fun artifact hmem _ => ?_⟩
    obtain ⟨id, set, hreach, hset, hdirect⟩ := (mem_expand hids).mp hmem
    exact hartifacts artifact id set ⟨first, hfirst, hreach⟩ hset hdirect

theorem exists_plainStatement_iff_fit :
    (∃ statement, t.index.plainStatement action = .ok statement) ↔ t.Fit action := by
  have houtputs : (∃ paths, action.outputs.mapM t.index.plainArtifactPath = .ok paths) ↔
      ∀ artifact ∈ action.outputs, ∃ path, t.HasPath artifact path := by
    simp only [exists_mapM_ok_iff, plainArtifactPath_eq_ok_iff]
  rw [exists_plainStatement_iff, exists_plainSetPaths_nil_iff]
  constructor
  · rintro ⟨hcommand, ⟨hsets, hinputs⟩, paths, hpaths, hdepfiles⟩
    refine ⟨hcommand, hsets, ?_, (pairwise_depfile_iff hpaths).mp hdepfiles⟩
    rintro artifact (hmem | ⟨id, set, hread, hset, hdirect⟩)
    · exact houtputs.mp ⟨paths, hpaths⟩ artifact hmem
    · exact hinputs artifact id set hread hset hdirect
  · rintro ⟨hcommand, hsets, hartifacts, hdepfiles⟩
    have hinputs : ∀ artifact id set, t.Reads action id → t.depSet? id = some set →
        artifact ∈ set.direct → ∃ path, t.HasPath artifact path :=
      fun artifact id set hread hset hdirect =>
        hartifacts artifact (.inr ⟨id, set, hread, hset, hdirect⟩)
    obtain ⟨paths, hpaths⟩ := houtputs.mpr fun artifact hmem => hartifacts artifact (.inl hmem)
    exact ⟨hcommand, ⟨hsets, hinputs⟩, paths, hpaths, (pairwise_depfile_iff hpaths).mpr hdepfiles⟩

/-- A report has statements exactly when each of its actions has a command, reads only
defined sets that do not contain themselves, uses only defined artifacts whose chains of
fragments end, and has at most one depfile among its outputs. -/
theorem exists_statements_iff_fit (t : ActionTables) :
    (∃ statements, t.statements = .ok statements) ↔ ∀ action ∈ t.actions, t.Fit action := by
  rw [statements_eq_mapM, exists_mapM_ok_iff]
  exact forall₂_congr fun _ _ => exists_plainStatement_iff_fit

end ActionTables

end HybridBuild
