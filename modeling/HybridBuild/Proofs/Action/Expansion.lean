import HybridBuild.Proofs.Action.Memory
import HybridBuild.Proofs.Distinct

/-!
# The files of a set and its full expansion

The full expansion of a set lists its own artifacts and then, in order, the full expansions of
its further sets, as often as they are reached. A set has one exactly when nothing below it is
undefined or comes back to itself. The files of a set are the first occurrences in its full
expansion, whatever was resolved before, although repetitions are left out at every level and
sets that are remembered are not gone through again. The inputs of a statement are the paths
of the first occurrences in the files of the sets that its action reads.
-/
namespace HybridBuild.ActionTables

open ActionIndex Relation

variable {t : ActionTables} {id : Nat}

/-- The full expansion of a set. -/
inductive Expands (t : ActionTables) : Nat → List Nat → Prop where
  | set {id : Nat} {set : DepSet} (full : Nat → List Nat) (defined : t.depSet? id = some set)
    (children : ∀ child ∈ set.transitive, Expands t child (full child)) :
    Expands t id (set.direct ++ set.transitive.flatMap full)

theorem Expands.unique {ids ids' : List Nat} (h : t.Expands id ids) (h' : t.Expands id ids') :
    ids = ids' := by
  induction h generalizing ids' with
  | set full hset _ ih =>
    cases h' with
    | set full' hset' hchildren' =>
      obtain rfl := Option.some.inj (hset.symm.trans hset')
      have hsame : ∀ child ∈ _, full child = full' child :=
        fun child hchild => ih child hchild (hchildren' child hchild)
      rw [List.flatMap_congr hsame]

/-- A set is grounded when it is defined and all its further sets are grounded, as a cycle through
the set would run through one of them. -/
theorem grounded_iff : t.Grounded id ↔
    ∃ set, t.depSet? id = some set ∧ ∀ child ∈ set.transitive, t.Grounded child := by
  constructor
  · intro h
    obtain ⟨⟨set, hset⟩, -⟩ := h id .refl
    exact ⟨set, hset, fun child hchild => h.child ⟨set, hset, hchild⟩⟩
  · rintro ⟨set, hset, hchildren⟩ x hx
    rcases (reaches_iff hset).mp hx with rfl | ⟨child, hchild, hx⟩
    · refine ⟨⟨set, hset⟩, fun hcycle => ?_⟩
      obtain ⟨child, ⟨set', hset', hchild⟩, hback⟩ := TransGen.head'_iff.mp hcycle
      obtain rfl := Option.some.inj (hset.symm.trans hset')
      exact (hchildren child hchild x hback).2 hcycle
    · exact hchildren child hchild x hx

theorem Expands.grounded {ids : List Nat} (h : t.Expands id ids) : t.Grounded id := by
  induction h with
  | set full hset _ ih => exact grounded_iff.mpr ⟨_, hset, ih⟩

/-- What is found anew are the first occurrences in the full expansion. -/
theorem exists_expands_of_expand {above ids : List Nat} (h : t.index.expand above id = .ok ids) :
    ∃ full, t.Expands id full ∧ ids = full.eraseDups := by
  induction h using expand_induction with
  | @set above id set lists h hnew hset hlists ih =>
    rw [getElem?_depSets] at hset
    have hchildren : ∀ child ∈ set.transitive, ∃ full, t.Expands child full ∧
        t.index.expand (id :: above) child = .ok full.eraseDups := by
      intro child hchild
      obtain ⟨list, hlist⟩ := exists_mapM_ok_iff.mp ⟨lists, hlists⟩ child hchild
      obtain ⟨full, hfull, rfl⟩ := ih child hchild hlist
      exact ⟨full, hfull, hlist⟩
    choose! full hfull hexpand using hchildren
    refine ⟨_, .set full hset hfull, ?_⟩
    have hall : lists = set.transitive.map fun child => (full child).eraseDups := by
      have hmap := mapM_eq_ok_iff.mp hlists
      rw [List.map_congr_left hexpand, ← Function.comp_def Except.ok, ← List.map_map] at hmap
      exact (List.map_injective_iff.mpr (fun _ _ => Except.ok.inj) hmap).symm
    rw [hall, ← List.flatMap_def]
    exact eraseDups_append_congr rfl (eraseDups_flatMap_eraseDups full set.transitive)

theorem exists_expand_nil_iff : (∃ ids, t.index.expand [] id = .ok ids) ↔
    ∃ full, t.Expands id full := by
  constructor
  · rintro ⟨ids, h⟩
    obtain ⟨full, hfull, -⟩ := exists_expands_of_expand h
    exact ⟨full, hfull⟩
  · rintro ⟨full, hfull⟩
    exact exists_expand_iff.mpr ⟨hfull.grounded, fun _ _ => List.not_mem_nil⟩

/-- The files of a set by its full expansion. -/
def Files (t : ActionTables) (id : Nat) (ids : List Nat) : Prop :=
  ∃ full, t.Expands id full ∧ ids = full.eraseDups

theorem files_of_expand {above ids : List Nat} (h : t.index.expand above id = .ok ids) :
    t.Files id ids := exists_expands_of_expand h

theorem Files.nodup {ids : List Nat} (h : t.Files id ids) : ids.Nodup := by
  obtain ⟨full, -, rfl⟩ := h
  exact nodup_eraseDups full

/-- The inputs of an action by the files of the sets that it reads. -/
def HasInputs (t : ActionTables) (action : Action) (inputs : List String) : Prop :=
  ∃ lists, List.Forall₂ t.Files action.inputSets lists ∧
    List.Forall₂ t.HasPath lists.flatten.eraseDups inputs

theorem forall₂_hasPath {ids : List Nat} {paths : List String}
    (h : ids.mapM t.index.plainArtifactPath = .ok paths) : List.Forall₂ t.HasPath ids paths := by
  have heach : List.Forall₂ Eq (ids.map t.index.plainArtifactPath) (paths.map .ok) :=
    List.forall₂_eq_eq_eq ▸ mapM_eq_ok_iff.mp h
  rw [List.forall₂_map_left_iff, List.forall₂_map_right_iff] at heach
  exact heach.imp fun _ _ => plainArtifactPath_eq_ok_iff.mp

/-- Of some files and more behind them, without the files `seen`: the files that are not seen,
and then what is new behind them. -/
theorem eraseDups_filter_append {ids more seen : List Nat} (h : ids.Nodup) :
    ((ids ++ more).filter fun id => id ∉ seen).eraseDups =
      (ids.filter fun id => id ∉ seen) ++
        (more.filter fun id => id ∉ (ids.filter fun id => id ∉ seen) ++ seen).eraseDups := by
  rw [List.filter_append, eraseDups_append_eq, eraseDups_of_nodup (h.filter _),
    ← eraseDups_filter, List.filter_filter]
  congr 2
  refine List.filter_congr fun id _ => ?_
  simp

theorem exists_lists_of_plainSetPaths {seen sets : List Nat} {paths : List String}
    (h : t.index.plainSetPaths seen sets = .ok paths) :
    ∃ lists, List.Forall₂ t.Files sets lists ∧
      List.Forall₂ t.HasPath (lists.flatten.filter fun id => id ∉ seen).eraseDups paths := by
  induction sets generalizing seen paths with
  | nil =>
    obtain rfl : [] = paths := Except.ok.inj h
    exact ⟨[], .nil, .nil⟩
  | cons id rest ih =>
    simp only [plainSetPaths, bind_eq_ok_iff] at h
    obtain ⟨ids, hids, known, hknown, more, hmore, heq⟩ := h
    obtain rfl : known ++ more = paths := Except.ok.inj heq
    obtain ⟨lists, hlists, hpaths⟩ := ih hmore
    have hfiles := files_of_expand hids
    refine ⟨ids :: lists, .cons hfiles hlists, ?_⟩
    rw [List.flatten_cons, eraseDups_filter_append hfiles.nodup]
    exact List.rel_append (forall₂_hasPath hknown) hpaths

/-- The inputs that are found anew are those of the action. -/
theorem hasInputs_of_plainSetPaths {action : Action} {inputs : List String}
    (h : t.index.plainSetPaths [] action.inputSets = .ok inputs) : t.HasInputs action inputs := by
  obtain ⟨lists, hlists, hpaths⟩ := exists_lists_of_plainSetPaths h
  have hall : (lists.flatten.filter fun id => id ∉ ([] : List Nat)) = lists.flatten :=
    List.filter_eq_self.mpr fun id _ => by simp
  exact ⟨lists, hlists, hall ▸ hpaths⟩

/-- What may have been resolved after some calls, from nothing on. A set is also resolved inside
of calls for the sets `above` that contain it, and what such a call found stays known when a
call around it fails. -/
inductive Reached (t : ActionTables) : Resolved → Prop where
  | start : Reached t .empty
  | path {resolved : Resolved} {id : Nat} {path : String} {paths : Std.TreeMap Nat String}
    (before : Reached t resolved)
    (call : t.index.fragmentPath resolved.paths id = .ok (path, paths)) :
    Reached t { resolved with paths }
  | set {resolved : Resolved} {above : List Nat} {id : Nat} {ids : List Nat}
    {files : Std.TreeMap Nat (List Nat)} (before : Reached t resolved)
    (contain : ∀ x ∈ above, TransGen t.Contains x id)
    (call : t.index.flatten above resolved.files id = .ok (ids, files)) :
    Reached t { resolved with files }

variable {resolved later : Resolved}

theorem Reached.recalls (h : t.Reached resolved) : t.Recalls resolved := by
  induction h with
  | start => exact t.recalls_empty
  | @path resolved id path paths _ call ih =>
    have hfollows := follows_fragmentPath ih.paths id
    rw [call] at hfollows
    exact ⟨hfollows.2, ih.files⟩
  | @set resolved above id ids files _ contain call ih =>
    have hfollows := follows_flatten contain ih.files
    rw [call] at hfollows
    exact ⟨ih.paths, hfollows.2⟩

theorem Reached.artifactPaths {known last : Std.TreeMap Nat String}
    {files : Std.TreeMap Nat (List Nat)} (h : t.Reached ⟨known, files⟩) {ids : List Nat}
    {paths : List String} (hok : t.index.artifactPaths known ids = .ok (paths, last)) :
    t.Reached ⟨last, files⟩ := by
  induction ids generalizing known paths with
  | nil =>
    cases hok
    exact h
  | cons id rest ih =>
    rw [ActionIndex.artifactPaths, artifactPath] at hok
    split at hok
    · cases hok
    next path found hpath =>
      split at hpath
      · cases hpath
      · split at hok
        · cases hok
        next more last hrest =>
          cases hok
          exact ih (h.path hpath) hrest

theorem Reached.setPaths (h : t.Reached resolved) {seen sets : List Nat} {paths : List String}
    (hok : t.index.setPaths resolved seen sets = .ok (paths, later)) : t.Reached later := by
  induction sets generalizing resolved seen paths with
  | nil =>
    cases hok
    exact h
  | cons id rest ih =>
    rw [ActionIndex.setPaths] at hok
    split at hok
    · cases hok
    next ids files hset =>
      dsimp only at hok
      split at hok
      · cases hok
      next known last hpaths =>
        split at hok
        · cases hok
        next more after hrest =>
          cases hok
          have hfound : t.Reached { resolved with files } := h.set (List.forall_mem_nil _) hset
          exact ih (hfound.artifactPaths hpaths) hrest

theorem Reached.statement (h : t.Reached resolved) {action : Action} {s : Statement}
    (hok : t.index.statement resolved action = .ok (s, later)) : t.Reached later := by
  unfold ActionIndex.statement at hok
  split at hok
  · cases hok
  · split at hok
    · cases hok
    next inputs middle hinputs =>
      split at hok
      · cases hok
      next paths known hpaths =>
        dsimp only at hok
        split at hok
        · cases hok
        · cases hok
          exact (h.setPaths hinputs).artifactPaths hpaths

theorem hasInputs_of_plainStatement {action : Action} {s : Statement}
    (h : t.index.plainStatement action = .ok s) : t.HasInputs action s.inputs := by
  unfold plainStatement at h
  split at h
  · cases h
  · simp only [bind_eq_ok_iff] at h
    obtain ⟨inputs, hinputs, paths, -, hstatement⟩ := h
    unfold Action.statementWith at hstatement
    dsimp only at hstatement
    split at hstatement
    · cases hstatement
    · cases hstatement
      exact hasInputs_of_plainSetPaths hinputs

/-- A set holds the artifacts of all sets that it leads to. -/
def Holds (t : ActionTables) (id artifact : Nat) : Prop :=
  ∃ x set, ReflTransGen t.Contains id x ∧ t.depSet? x = some set ∧ artifact ∈ set.direct

/-- Whatever was resolved before, the files of a set are found exactly when it has a full
expansion. Wherever they are found, they are the first occurrences in its only one, which are
exactly the artifacts that the set holds, each once. A statement lists the paths of the first
occurrences in the files of the sets that its action reads, and leaves what may have been
resolved by such calls. -/
theorem files_eq_first_occurrences (t : ActionTables) (resolved : Resolved)
    (h : t.Reached resolved) :
    (∀ id, (∃ found, t.index.flatten [] resolved.files id = .ok found) ↔
      ∃ full, t.Expands id full) ∧
    (∀ above id ids files, (∀ x ∈ above, TransGen t.Contains x id) →
      t.index.flatten above resolved.files id = .ok (ids, files) →
        (∃ full, t.Expands id full ∧ (∀ other, t.Expands id other → other = full) ∧
          ids = full.eraseDups) ∧ ids.Nodup ∧ ∀ artifact, artifact ∈ ids ↔ t.Holds id artifact) ∧
    ∀ action s later, t.index.statement resolved action = .ok (s, later) →
      t.HasInputs action s.inputs ∧ t.Reached later := by
  have hset {above : List Nat} {id : Nat} (habove : ∀ x ∈ above, TransGen t.Contains x id) :
      Follows t.RemembersSets (t.index.flatten above resolved.files id)
        (t.index.expand above id) := follows_flatten habove h.recalls.files
  refine ⟨fun id => ?_, fun above id ids files habove hfound => ?_,
    fun action s later hstatement => ?_⟩
  · rw [← exists_expand_nil_iff]
    have hid : Follows t.RemembersSets (t.index.flatten [] resolved.files id)
        (t.index.expand [] id) := hset (List.forall_mem_nil _)
    obtain ⟨e, hr, hp⟩ | ⟨ids, files, hr, hp, -⟩ := hid.cases
    · simp [hr, hp]
    · simp [hr, hp]
  · have hids := hset habove
    rw [hfound] at hids
    obtain ⟨full, hfull, rfl⟩ := files_of_expand hids.1
    exact ⟨⟨full, hfull, fun other hother => hother.unique hfull, rfl⟩, nodup_eraseDups full,
      fun artifact => mem_expand hids.1⟩
  · have hplain := follows_statement h.recalls action
    rw [hstatement] at hplain
    exact ⟨hasInputs_of_plainStatement hplain.1, h.statement hstatement⟩

/-- A set that reaches another one in two ways, beside a set that contains itself. -/
def sharedSets : ActionTables where
  artifacts := []
  actions := []
  depSets := [⟨1, [5], [2, 3]⟩, ⟨2, [7, 5], []⟩, ⟨3, [8], [2]⟩, ⟨9, [6], [9]⟩]
  fragments := []

/-- When the last of its further sets is known already, the first set still has its files in
the order of its full expansion, and only the set that contains itself has none. -/
theorem files_eq_first_occurrences_shared : ∃ known files,
    sharedSets.index.flatten [] ∅ 3 = .ok ([8, 7, 5], known) ∧
    sharedSets.index.flatten [] known 1 = .ok ([5, 7, 8], files) ∧
    (∃ full, sharedSets.Expands 1 full ∧ [5, 7, 8] = full.eraseDups) ∧
    ¬ ∃ full, sharedSets.Expands 9 full := by
  have hcycle : sharedSets.index.flatten [] ∅ 9 = .error (.depSetCycle 9) := by cbv
  have hfirst : (sharedSets.index.flatten [] ∅ 3).map Prod.fst = .ok [8, 7, 5] := by cbv
  have hplain : sharedSets.index.expand [] 1 = .ok [5, 7, 8] := by cbv
  obtain ⟨⟨ids, known⟩, hknown, rfl : ids = _⟩ := except_map_eq_ok_iff.mp hfirst
  have hreached : sharedSets.Reached ⟨∅, known⟩ :=
    Reached.start.set (List.forall_mem_nil _) hknown
  have hagain : Follows sharedSets.RemembersSets (sharedSets.index.flatten [] known 1)
      (.ok [5, 7, 8]) := hplain ▸ follows_flatten (List.forall_mem_nil _) hreached.recalls.files
  obtain ⟨e, -, he⟩ | ⟨ids', files, hfiles, hids, -⟩ := hagain.cases
  · cases he
  obtain rfl := Except.ok.inj hids
  obtain ⟨-, hfound, -⟩ := files_eq_first_occurrences sharedSets ⟨∅, known⟩ hreached
  obtain ⟨⟨full, hfull, -, hfirsts⟩, -, -⟩ :=
    hfound [] 1 [5, 7, 8] files (List.forall_mem_nil _) hfiles
  obtain ⟨hdefined, -, -⟩ := files_eq_first_occurrences sharedSets .empty .start
  refine ⟨known, files, hknown, hfiles, ⟨full, hfull, hfirsts⟩, fun hnine => ?_⟩
  obtain ⟨found, hnine⟩ := (hdefined 9).mpr hnine
  rw [show Resolved.empty.files = ∅ from rfl, hcycle] at hnine
  cases hnine

end HybridBuild.ActionTables
