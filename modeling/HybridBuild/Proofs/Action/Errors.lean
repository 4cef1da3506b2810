import HybridBuild.Proofs.Action.Acceptance
import HybridBuild.Proofs.Action.Expansion

/-!
# Errors tell the truth

What is open while a set is expanded, or seen while a chain is followed, lies on the way to where
the search stands, so a number that is met again there leads back to itself; a set that was merely
met before is not taken for one. An error thus names a set or a fragment on a cycle, or a number
that its table does not have, and what it names is found from the action that fails. All actions
before that one have statements.
-/
namespace HybridBuild.ActionTables

open ActionIndex Relation

variable {t : ActionTables} {action : Action} {e : ActionError} {id : Nat}

/-- A fragment other than the root has the parent that its entry names. -/
def HasParent (t : ActionTables) (id parent : Nat) : Prop :=
  id ≠ 0 ∧ ∃ fragment, t.fragment? id = some fragment ∧ fragment.parent = parent

/-- Steps from a number lead to one that leads back to itself, or to one that is missing, and the
error names it. -/
inductive WalkFault (step : Nat → Nat → Prop) (missing : Nat → Prop)
    (cyclic undefined : Nat → ActionError) (id : Nat) : ActionError → Prop where
  | cycle {x : Nat} (reach : ReflTransGen step id x) (back : TransGen step x x) :
    WalkFault step missing cyclic undefined id (cyclic x)
  | gap {x : Nat} (reach : ReflTransGen step id x) (lacks : missing x) :
    WalkFault step missing cyclic undefined id (undefined x)

theorem WalkFault.of_step {step : Nat → Nat → Prop} {missing : Nat → Prop}
    {cyclic undefined : Nat → ActionError} {next : Nat} (hstep : step id next)
    (h : WalkFault step missing cyclic undefined next e) :
    WalkFault step missing cyclic undefined id e := by
  cases h with
  | cycle reach back => exact .cycle (.head hstep reach) back
  | gap reach lacks => exact .gap (.head hstep reach) lacks

/-- A set leads to a cycle of sets or to a number without a set. -/
abbrev SetFault (t : ActionTables) : Nat → ActionError → Prop :=
  WalkFault t.Contains (fun x => t.depSet? x = none) .depSetCycle .undefinedDepSet

/-- The chain of a fragment leads to a cycle or to a number without a fragment. -/
abbrev ChainFault (t : ActionTables) : Nat → ActionError → Prop :=
  WalkFault t.HasParent (fun x => x ≠ 0 ∧ t.fragment? x = none) .pathFragmentCycle
    .undefinedPathFragment

/-- An artifact is not defined, or the chain of its fragment has a fault. -/
inductive ArtifactFault (t : ActionTables) (id : Nat) : ActionError → Prop where
  | undefined (missing : t.artifact? id = none) : ArtifactFault t id (.undefinedArtifact id)
  | chain {artifact : Artifact} {e : ActionError} (defined : t.artifact? id = some artifact)
    (fault : t.ChainFault artifact.fragment e) : ArtifactFault t id e

/-- When every open set leads to the set that is expanded, an error is true. A further set that is
finished is not open any more, so those beside it are led to by the sets above alone. -/
theorem setFault_of_expand {above : List Nat} (hopen : ∀ x ∈ above, TransGen t.Contains x id)
    (h : t.index.expand above id = .error e) : t.SetFault id e := by
  induction above, id using expand.induct t.index with
  | case1 above id hmem =>
    rw [expand_of_mem hmem] at h
    cases h
    exact .cycle .refl (hopen id hmem)
  | case2 above id hnew hnone =>
    rw [expand_of_none hnew hnone] at h
    cases h
    exact .gap .refl (by simpa using hnone)
  | case3 above id hnew set hset ih =>
    rw [expand_of_some hnew hset, except_map_eq_error_iff, mapM_eq_error_iff] at h
    obtain ⟨before, child, after, hsplit, -, hchild⟩ := h
    have hc : t.Contains id child := ⟨set, by simpa using hset, by simp [hsplit]⟩
    have hopen' : ∀ x ∈ id :: above, TransGen t.Contains x child :=
      List.forall_mem_cons.mpr ⟨.single hc, fun x hx => (hopen x hx).tail hc⟩
    exact (ih child hopen' hchild).of_step hc

/-- When every fragment that was seen has the next one above it, an error is true. -/
theorem chainFault_of_chain {seen : List Nat} {below : List String}
    (hseen : ∀ x ∈ seen, TransGen t.HasParent x id)
    (h : t.index.chain seen below id = .error e) : t.ChainFault id e := by
  induction seen, below, id using chain.induct t.index with
  | case1 seen below =>
    rw [chain_zero] at h
    cases h
  | case2 seen below id hid hmem =>
    rw [chain_of_mem hid hmem] at h
    cases h
    exact .cycle .refl (hseen id hmem)
  | case3 seen below id hid hnew hnone =>
    rw [chain_of_none hid hnew hnone] at h
    cases h
    exact .gap .refl ⟨hid, by simpa using hnone⟩
  | case4 seen below id hid hnew fragment hsome ih =>
    rw [chain_of_some hid hnew hsome] at h
    have hp : t.HasParent id fragment.parent := ⟨hid, fragment, by simpa using hsome, rfl⟩
    have hseen' : ∀ x ∈ id :: seen, TransGen t.HasParent x fragment.parent :=
      List.forall_mem_cons.mpr ⟨.single hp, fun x hx => (hseen x hx).tail hp⟩
    exact (ih hseen' h).of_step hp

theorem artifactFault_of_plainArtifactPath (h : t.index.plainArtifactPath id = .error e) :
    t.ArtifactFault id e := by
  rw [plainArtifactPath, getElem?_artifacts] at h
  cases hartifact : t.artifact? id with
  | none =>
    rw [hartifact] at h
    cases h
    exact .undefined hartifact
  | some artifact =>
    rw [hartifact] at h
    have hchain : t.index.chain [] [] artifact.fragment = .error e := except_map_eq_error_iff.mp h
    exact .chain hartifact (chainFault_of_chain (List.forall_mem_nil _) hchain)

/-- An action leads to a faulty set, or uses a faulty artifact. -/
def ReferenceFault (t : ActionTables) (action : Action) (e : ActionError) : Prop :=
  (∃ first ∈ action.inputSets, t.SetFault first e) ∨
    ∃ artifact, t.Uses action artifact ∧ t.ArtifactFault artifact e

theorem referenceFault_of_plainSetPaths {seen sets : List Nat} (hsets : sets ⊆ action.inputSets)
    (h : t.index.plainSetPaths seen sets = .error e) : t.ReferenceFault action e := by
  induction sets generalizing seen with
  | nil => cases h
  | cons first rest ih =>
    obtain ⟨hfirst, hrest⟩ := List.cons_subset.mp hsets
    simp only [plainSetPaths, bind_eq_error_iff] at h
    obtain hset | ⟨ids, hids, hpaths | ⟨paths, -, hmore | ⟨more, -, hdone⟩⟩⟩ := h
    · exact .inl ⟨first, hfirst, setFault_of_expand (List.forall_mem_nil _) hset⟩
    · obtain ⟨before, artifact, after, hsplit, -, hartifact⟩ := mapM_eq_error_iff.mp hpaths
      have hfresh : artifact ∈ ids.filter fun id => id ∉ seen := by
        rw [hsplit]
        exact List.mem_append_right before List.mem_cons_self
      obtain ⟨id, set, hreach, hset, hdirect⟩ :=
        (mem_expand hids).mp (List.mem_of_mem_filter hfresh)
      exact .inr ⟨artifact, .inr ⟨id, set, ⟨first, hfirst, hreach⟩, hset, hdirect⟩,
        artifactFault_of_plainArtifactPath hartifact⟩
    · exact ih hrest hmore
    · cases hdone

/-- An action uses an artifact whose chain of ancestors passes a fragment. -/
def Passes (t : ActionTables) (action : Action) (id : Nat) : Prop :=
  ∃ number artifact, t.Uses action number ∧ t.artifact? number = some artifact ∧
    ReflTransGen t.HasParent artifact.fragment id

/-- What an error says of the tables and of the action that fails. -/
def Justifies (t : ActionTables) (action : Action) : ActionError → Prop
  | .malformed => False
  | .undefinedArtifact id => t.Uses action id ∧ ∀ artifact ∈ t.artifacts, artifact.id ≠ id
  | .undefinedDepSet id => t.Reads action id ∧ ∀ set ∈ t.depSets, set.id ≠ id
  | .undefinedPathFragment id =>
    t.Passes action id ∧ id ≠ 0 ∧ ∀ fragment ∈ t.fragments, fragment.id ≠ id
  | .depSetCycle id => t.Reads action id ∧ TransGen t.Contains id id
  | .pathFragmentCycle id => t.Passes action id ∧ TransGen t.HasParent id id
  | .multipleDepfiles mnemonic key depfiles =>
    mnemonic = action.mnemonic ∧ key = action.key ∧ 2 ≤ depfiles.length ∧
      ∃ paths, List.Forall₂ t.HasPath action.outputs paths ∧ depfiles = paths.filter isDepfile
  | .emptyCommand mnemonic key =>
    mnemonic = action.mnemonic ∧ key = action.key ∧ ∀ argument ∈ action.arguments, argument = ""

theorem ReferenceFault.justifies (h : t.ReferenceFault action e) : t.Justifies action e := by
  obtain ⟨first, hfirst, hset⟩ | ⟨number, huse, hartifact⟩ := h
  · cases hset with
    | cycle reach back => exact ⟨⟨first, hfirst, reach⟩, back⟩
    | gap reach missing => exact ⟨⟨first, hfirst, reach⟩, lastWith?_eq_none_iff.mp missing⟩
  · cases hartifact with
    | undefined missing => exact ⟨huse, lastWith?_eq_none_iff.mp missing⟩
    | @chain artifact _ defined fault =>
      cases fault with
      | cycle reach back => exact ⟨⟨number, artifact, huse, defined, reach⟩, back⟩
      | gap reach lacks =>
        obtain ⟨other, missing⟩ := lacks
        exact ⟨⟨number, artifact, huse, defined, reach⟩, other, lastWith?_eq_none_iff.mp missing⟩

theorem justifies_of_plainStatement (h : t.index.plainStatement action = .error e) :
    t.Justifies action e := by
  unfold plainStatement at h
  split at h
  next hempty =>
    cases h
    exact ⟨rfl, rfl, by simpa using hempty⟩
  · simp only [bind_eq_error_iff] at h
    obtain hinputs | ⟨inputs, -, hpaths | ⟨paths, hpaths, hdepfiles⟩⟩ := h
    · exact (referenceFault_of_plainSetPaths (List.Subset.refl _) hinputs).justifies
    · obtain ⟨before, artifact, after, hsplit, -, hartifact⟩ := mapM_eq_error_iff.mp hpaths
      have houtput : t.Uses action artifact := .inl (by simp [hsplit])
      have hfault : t.ReferenceFault action e :=
        .inr ⟨artifact, houtput, artifactFault_of_plainArtifactPath hartifact⟩
      exact hfault.justifies
    · unfold Action.statementWith at hdepfiles
      dsimp only at hdepfiles
      split at hdepfiles
      next hmany =>
        cases hdepfiles
        exact ⟨rfl, rfl, hmany, paths, forall₂_hasPath hpaths, rfl⟩
      · cases hdepfiles

/-- When a report has no statements, the error is that of its first action that has none: the
actions before it have statements, and alone it fails in the same way. A set that is called cyclic
is read by that action and leads back to itself, and a fragment that is called cyclic is an ancestor
of itself on the chain of an artifact that the action uses. A number that is called undefined is
missing in its table, where the fragment 0 is never looked for, and is found from the action by
references that are defined. Depfiles that are too many are at least two, and they are the depfiles
among the paths of the action's outputs, in order. -/
theorem errors_are_true (t : ActionTables) (e : ActionError) (h : t.statements = .error e) :
    ∃ before action after, t.actions = before ++ action :: after ∧
      (∃ statements, { t with actions := before }.statements = .ok statements) ∧
      (t.only action).statements = .error e ∧ t.Justifies action e := by
  rw [statements_eq_mapM, mapM_eq_error_iff] at h
  obtain ⟨before, action, after, hsplit, hbefore, haction⟩ := h
  refine ⟨before, action, after, hsplit, ?_, ?_, justifies_of_plainStatement haction⟩
  · simp only [statements_eq_mapM]
    exact exists_mapM_ok_iff.mpr hbefore
  · rw [statements_only, haction]
    rfl

/-- An action with statements, and one that reads a set in two ways, behind which another set
contains itself. -/
def loopedSets : ActionTables where
  artifacts := []
  actions := [⟨"a", "Touch", ["touch"], [], [4], []⟩, ⟨"b", "Touch", ["touch"], [], [1], []⟩]
  depSets := [⟨1, [], [2, 4, 3]⟩, ⟨2, [], [4]⟩, ⟨3, [], [4, 5]⟩, ⟨4, [], []⟩, ⟨5, [], [3]⟩]
  fragments := []

/-- The set that is met twice is not taken for one that contains itself. -/
theorem errors_are_true_looped : loopedSets.statements = .error (.depSetCycle 3) ∧
    ∃ before action after, loopedSets.actions = before ++ action :: after ∧
      (∃ statements, { loopedSets with actions := before }.statements = .ok statements) ∧
      (loopedSets.only action).statements = .error (.depSetCycle 3) ∧
      loopedSets.Reads action 3 ∧ TransGen loopedSets.Contains 3 3 := by
  have hempty : loopedSets.index.expand [] 4 = .ok [] := by cbv
  have hcycle : loopedSets.index.expand [] 1 = .error (.depSetCycle 3) := by cbv
  have herror : loopedSets.statements = .error (.depSetCycle 3) := by
    rw [statements_eq_mapM, mapM_eq_error_iff]
    refine ⟨[_], _, [], rfl, ?_, ?_⟩
    · rw [List.forall_mem_singleton, ActionIndex.plainStatement, if_neg (by decide),
        ActionIndex.plainSetPaths, hempty]
      exact ⟨_, rfl⟩
    · rw [ActionIndex.plainStatement, if_neg (by decide), ActionIndex.plainSetPaths, hcycle]
      rfl
  exact ⟨herror, errors_are_true loopedSets _ herror⟩

end HybridBuild.ActionTables
