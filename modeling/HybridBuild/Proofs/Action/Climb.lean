import HybridBuild.Proofs.Action.Expansion

/-!
# The path of a fragment is its chain of parents

A path is found by a loop that goes from parent to parent, takes the label of each fragment on its
way and turns the labels around at the end. Every pass but the last meets a fragment that it has
not met before, so there is at most one pass more than there are fragments, also when the parents
go round in a circle that the first fragment is not on. What the loop finds is the path along the
chain of parents, and nothing else is ever remembered.
-/
namespace HybridBuild

/-- Where the search for the root stands: the fragment that it looks at next, those that it has
looked at, and their labels in the order in which they were taken. -/
structure Climb where
  id : Nat
  seen : List Nat
  labels : List String

namespace Climb

def start (id : Nat) : Climb := ⟨id, [], []⟩

/-- One pass of the search: it comes to an end, or goes on with the parent. -/
def pass (ix : ActionIndex) (c : Climb) : Except ActionError (List String) ⊕ Climb :=
  if c.id = 0 then .inl (.ok c.labels.reverse)
  else if c.id ∈ c.seen then .inl (.error (.pathFragmentCycle c.id))
  else
    match ix.fragments[c.id]? with
    | none => .inl (.error (.undefinedPathFragment c.id))
    | some fragment => .inr ⟨fragment.parent, c.id :: c.seen, c.labels ++ [fragment.label]⟩

/-- What the search finds when it may make so many passes; it may not come to an end. -/
def run (ix : ActionIndex) : Nat → Climb → Option (Except ActionError (List String))
  | 0, _ => none
  | passes + 1, c =>
    match c.pass ix with
    | .inl result => some result
    | .inr next => next.run ix passes

variable {ix : ActionIndex} {c : Climb} {passes : Nat}

theorem run_of_done {result : Except ActionError (List String)} (h : c.pass ix = .inl result)
    (hpasses : 0 < passes) : c.run ix passes = some result := by
  obtain ⟨rest, rfl⟩ := Nat.exists_eq_add_one_of_ne_zero (Nat.ne_of_gt hpasses)
  simp only [run, h]

theorem run_of_next {next : Climb} (h : c.pass ix = .inr next) :
    c.run ix (passes + 1) = next.run ix passes := by
  simp only [run, h]

/-- The fragments that are not met yet bound the passes that are still to come. -/
theorem run_eq_chain {seen : List Nat} {below : List String} {id : Nat}
    (h : countUnmet ix.fragments.keys seen < passes) :
    run ix passes ⟨id, seen, below.reverse⟩ = some (ix.chain seen below id) := by
  induction seen, below, id using ActionIndex.chain.induct ix generalizing passes with
  | case1 seen below =>
    rw [ActionIndex.chain_zero]
    refine run_of_done ?_ (by omega)
    simp [pass]
  | case2 seen below id hid hseen =>
    rw [ActionIndex.chain_of_mem hid hseen]
    refine run_of_done ?_ (by omega)
    simp [pass, hid, hseen]
  | case3 seen below id hid hnew hnone =>
    rw [ActionIndex.chain_of_none hid hnew hnone]
    refine run_of_done ?_ (by omega)
    simp [pass, hid, hnew, hnone]
  | case4 seen below id hid hnew fragment hsome ih =>
    have hfewer : countUnmet ix.fragments.keys (id :: seen) < countUnmet ix.fragments.keys seen :=
      countUnmet_cons_lt (mem_keys_of_getElem? hsome) hnew
    have hnext : pass ix ⟨id, seen, below.reverse⟩ =
        .inr ⟨fragment.parent, id :: seen, (fragment.label :: below).reverse⟩ := by
      simp [pass, hid, hnew, hsome]
    obtain ⟨rest, rfl⟩ : ∃ rest, passes = rest + 1 := ⟨passes - 1, by omega⟩
    rw [run_of_next hnext, ActionIndex.chain_of_some hid hnew hsome]
    exact ih (by omega)

theorem run_start (id : Nat) (h : ix.fragments.size < passes) :
    (start id).run ix passes = some (ix.chain [] [] id) := by
  have hunmet : countUnmet ix.fragments.keys [] = ix.fragments.size := by
    simp [countUnmet, Std.TreeMap.length_keys]
  have hrun : run ix passes ⟨id, [], List.reverse []⟩ = some (ix.chain [] [] id) :=
    run_eq_chain (by omega)
  exact hrun

end Climb

/-- The path of a fragment when the search for the root may make so many passes. A path that is
remembered needs none. -/
def ActionIndex.fragmentPathWithin (ix : ActionIndex) (passes : Nat)
    (paths : Std.TreeMap Nat String) (id : Nat) :
    Option (Except ActionError (String × Std.TreeMap Nat String)) :=
  match paths[id]? with
  | some path => some (.ok (path, paths))
  | none => ((Climb.start id).run ix passes).map fun result => result.map fun labels =>
    ("/".intercalate labels, paths.insert id ("/".intercalate labels))

theorem ActionIndex.fragmentPathWithin_eq {ix : ActionIndex} {passes : Nat}
    (h : ix.fragments.size < passes) (paths : Std.TreeMap Nat String) (id : Nat) :
    ix.fragmentPathWithin passes paths id = some (ix.fragmentPath paths id) := by
  unfold fragmentPathWithin fragmentPath
  cases paths[id]? with
  | some path => rfl
  | none =>
    dsimp only
    rw [Climb.run_start id h]
    cases ix.chain [] [] id <;> rfl

theorem size_indexBy_le {α : Type} (id : α → Nat) (entries : List α) :
    (indexBy id entries).size ≤ entries.length := by
  induction entries using List.reverseRecOn with
  | nil => simp [indexBy]
  | append_singleton entries entry ih =>
    have hsize : (indexBy id (entries ++ [entry])).size ≤ (indexBy id entries).size + 1 := by
      rw [indexBy, List.foldl_append]
      exact Std.TreeMap.size_insert_le
    simp only [List.length_append, List.length_cons, List.length_nil]
    omega

namespace ActionTables

variable {t : ActionTables}

/-- The path from the root down to a fragment: its parents lead to the root, no fragment among them
repeats, and their labels are joined. -/
def HasFragmentPath (t : ActionTables) (id : Nat) (path : String) : Prop :=
  ∃ fragments, t.ParentChain id fragments ∧ (fragments.map PathFragment.id).Nodup ∧
    path = "/".intercalate (fragments.reverse.map PathFragment.label)

theorem plainPath_eq_ok_iff_hasFragmentPath {id : Nat} {path : String} :
    t.index.plainPath id = .ok path ↔ t.HasFragmentPath id path := plainPath_eq_ok_iff

theorem hasFragmentPath_zero_iff {path : String} : t.HasFragmentPath 0 path ↔ path = "" := by
  constructor
  · rintro ⟨fragments, hchain, -, rfl⟩
    cases hchain with
    | root => rfl
    | child hid => exact absurd rfl hid
  · rintro rfl
    exact ⟨[], .root, List.nodup_nil, rfl⟩

/-- Whatever paths were found before, the search for a fragment's path comes to an end after at
most one pass more than the table has fragments, and there are at most as many as it has entries.
It finds a path exactly when the fragment's parents lead to the root through fragments that are
defined and do not repeat, and the path is then made of the labels on that chain, from the root
down; that of the root itself is empty. Every path that is remembered is such a path. -/
theorem path_is_parent_chain (t : ActionTables) (resolved : Resolved) (h : t.Reached resolved) :
    (∀ id passes, t.index.fragments.size + 1 ≤ passes →
      t.index.fragmentPathWithin passes resolved.paths id =
        some (t.index.fragmentPath resolved.paths id)) ∧
    t.index.fragments.size ≤ t.fragments.length ∧
    (∀ id path, (∃ paths, t.index.fragmentPath resolved.paths id = .ok (path, paths)) ↔
      t.HasFragmentPath id path) ∧
    (∀ path, t.HasFragmentPath 0 path ↔ path = "") ∧
    ∀ id path, resolved.paths[id]? = some path → t.HasFragmentPath id path := by
  refine ⟨fun id passes hpasses => ActionIndex.fragmentPathWithin_eq hpasses _ id,
    size_indexBy_le _ _, fun id path => ?_, fun path => hasFragmentPath_zero_iff,
    fun id path hknown => plainPath_eq_ok_iff_hasFragmentPath.mp (h.recalls.paths id path hknown)⟩
  rw [← plainPath_eq_ok_iff_hasFragmentPath]
  obtain ⟨e, hr, hp⟩ | ⟨found, paths, hr, hp, -⟩ :=
    (follows_fragmentPath h.recalls.paths id).cases
  · simp [hr, hp]
  · simp [hr, hp]

/-- A fragment that is defined twice, and one whose parents come to a circle that it is not on. -/
def circledFragments : ActionTables where
  artifacts := []
  actions := []
  depSets := []
  fragments := [⟨1, "usr", 0⟩, ⟨2, "bin", 9⟩, ⟨3, "x", 4⟩, ⟨4, "y", 3⟩, ⟨5, "z", 3⟩, ⟨2, "lib", 1⟩]

/-- Once a path was found it is remembered, and the search that comes to the circle ends. -/
theorem path_is_parent_chain_circled : ∃ known,
    circledFragments.index.fragmentPath ∅ 2 = .ok ("usr/lib", known) ∧
    (known[2]? = some "usr/lib" ∧ circledFragments.HasFragmentPath 2 "usr/lib") ∧
    circledFragments.index.fragmentPathWithin 6 known 5 = some (.error (.pathFragmentCycle 3)) ∧
    ¬ ∃ path, circledFragments.HasFragmentPath 5 path := by
  have hlabels : circledFragments.index.chain [] [] 2 = .ok ["usr", "lib"] := by cbv
  have hcircle : circledFragments.index.chain [] [] 5 = .error (.pathFragmentCycle 3) := by cbv
  have hsize : circledFragments.index.fragments.size + 1 ≤ 6 := by cbv
  let known : Std.TreeMap Nat String := (∅ : Std.TreeMap Nat String).insert 2 "usr/lib"
  have hfound : circledFragments.index.fragmentPath ∅ 2 = .ok ("usr/lib", known) := by
    rw [ActionIndex.fragmentPath, hlabels]
    rfl
  have hfails : circledFragments.index.fragmentPath known 5 = .error (.pathFragmentCycle 3) := by
    rw [ActionIndex.fragmentPath, hcircle]
    rfl
  have hreached : circledFragments.Reached ⟨known, ∅⟩ := Reached.start.path hfound
  obtain ⟨hends, -, hpaths, -, hknown⟩ := path_is_parent_chain circledFragments _ hreached
  refine ⟨known, hfound, ⟨rfl, hknown 2 "usr/lib" rfl⟩, (hends 5 6 hsize).trans ?_, ?_⟩
  · exact congrArg some hfails
  · rintro ⟨path, hpath⟩
    obtain ⟨paths, hok⟩ := (hpaths 5 path).mpr hpath
    rw [hfails] at hok
    cases hok

end ActionTables

end HybridBuild
