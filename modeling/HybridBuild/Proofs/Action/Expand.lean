import HybridBuild.Proofs.Action.Index
import HybridBuild.Proofs.Traverse
import Mathlib.Logic.Relation

/-!
# The files of a set, found anew

Without any memory, a set is expanded by going down into its further sets. That succeeds
exactly when every set below it is defined and none of them comes back to itself. The
sets on the way down then play no part in the result, which holds the artifacts of all
the sets below.
-/
namespace HybridBuild

namespace ActionIndex

/-- The files of a set as they are found when nothing is remembered. The sets `above`
contain it. -/
def expand (ix : ActionIndex) (above : List Nat) (id : Nat) : Except ActionError (List Nat) :=
  if _new : id ∈ above then .error (.depSetCycle id)
  else
    match _found : ix.depSets[id]? with
    | none => .error (.undefinedDepSet id)
    | some set =>
      (set.transitive.mapM fun child => ix.expand (id :: above) child).map fun lists =>
        (set.direct ++ lists.flatten).eraseDups
termination_by countUnmet ix.depSets.keys above
decreasing_by exact countUnmet_cons_lt (mem_keys_of_getElem? (by assumption)) (by assumption)

variable {ix : ActionIndex} {above : List Nat} {id : Nat}

theorem expand_of_mem (h : id ∈ above) : ix.expand above id = .error (.depSetCycle id) := by
  rw [expand, dif_pos h]

theorem expand_of_none (h : id ∉ above) (hset : ix.depSets[id]? = none) :
    ix.expand above id = .error (.undefinedDepSet id) := by
  rw [expand, dif_neg h]
  split
  · rfl
  next set hsome => exact absurd (hset.symm.trans hsome) nofun

theorem expand_of_some (h : id ∉ above) {set : DepSet} (hset : ix.depSets[id]? = some set) :
    ix.expand above id = (set.transitive.mapM (ix.expand (id :: above))).map fun lists =>
      (set.direct ++ lists.flatten).eraseDups := by
  rw [expand, dif_neg h]
  split
  next hnone => exact absurd (hset.symm.trans hnone) nofun
  next set' hsome =>
    obtain rfl : set = set' := Option.some.inj (hset.symm.trans hsome)
    rfl

end ActionIndex

namespace ActionTables

open ActionIndex Relation

/-- A set lists another one among its further sets. -/
def Contains (t : ActionTables) (id child : Nat) : Prop :=
  ∃ set, t.depSet? id = some set ∧ child ∈ set.transitive

/-- Every set that a set leads to is defined and does not lead to itself. -/
def Grounded (t : ActionTables) (id : Nat) : Prop :=
  ∀ x, ReflTransGen t.Contains id x →
    (∃ set, t.depSet? x = some set) ∧ ¬ TransGen t.Contains x x

variable {t : ActionTables} {above : List Nat} {id : Nat}

theorem Grounded.child (h : t.Grounded id) {child : Nat} (hc : t.Contains id child) :
    t.Grounded child := fun x hx => h x (.head hc hx)

/-- What lies below a further set lies neither above the set nor is the set itself. -/
theorem Grounded.notMem_cons (h : t.Grounded id)
    (hfree : ∀ x, ReflTransGen t.Contains id x → x ∉ above) {child : Nat}
    (hc : t.Contains id child) {x : Nat} (hx : ReflTransGen t.Contains child x) :
    x ∉ id :: above := by
  intro hmem
  rcases List.mem_cons.mp hmem with rfl | hmem
  · exact (h x .refl).2 (TransGen.head' hc hx)
  · exact hfree x (.head hc hx) hmem

/-- What a set leads to, after one step. -/
theorem reaches_iff {set : DepSet} (hset : t.depSet? id = some set) {x : Nat} :
    ReflTransGen t.Contains id x ↔
      x = id ∨ ∃ child ∈ set.transitive, ReflTransGen t.Contains child x := by
  rw [ReflTransGen.cases_head_iff, eq_comm]
  refine or_congr_right (exists_congr fun child => and_congr_left fun _ => ?_)
  constructor
  · rintro ⟨set', hset', hchild⟩
    rwa [Option.some.inj (hset.symm.trans hset')]
  · exact fun hchild => ⟨set, hset, hchild⟩

theorem exists_expand_iff : (∃ ids, t.index.expand above id = .ok ids) ↔
    t.Grounded id ∧ ∀ x, ReflTransGen t.Contains id x → x ∉ above := by
  induction above, id using expand.induct t.index with
  | case1 above id h =>
    rw [expand_of_mem h]
    constructor
    · rintro ⟨ids, hok⟩
      cases hok
    · exact fun hfree => absurd h (hfree.2 id .refl)
  | case2 above id h hnone =>
    rw [expand_of_none h hnone]
    constructor
    · rintro ⟨ids, hok⟩
      cases hok
    · rintro ⟨hground, -⟩
      obtain ⟨⟨set, hset⟩, -⟩ := hground id .refl
      rw [getElem?_depSets, hset] at hnone
      cases hnone
  | case3 above id h set hset ih =>
    rw [expand_of_some h hset]
    rw [getElem?_depSets] at hset
    simp only [except_map_eq_ok_iff]
    have hall : (∃ ids lists, set.transitive.mapM (t.index.expand (id :: above)) = .ok lists ∧
        (set.direct ++ lists.flatten).eraseDups = ids) ↔
        ∀ child ∈ set.transitive, t.Grounded child ∧
          ∀ x, ReflTransGen t.Contains child x → x ∉ id :: above := by
      rw [exists_comm]
      simp only [exists_and_left, exists_eq', and_true, exists_mapM_ok_iff, ih]
    rw [hall]
    constructor
    · intro hchildren
      constructor
      · intro x hx
        rcases (reaches_iff hset).mp hx with rfl | ⟨child, hchild, hx⟩
        · refine ⟨⟨set, hset⟩, fun hcycle => ?_⟩
          obtain ⟨child, ⟨set', hset', hchild⟩, hback⟩ := TransGen.head'_iff.mp hcycle
          obtain rfl := Option.some.inj (hset.symm.trans hset')
          exact (hchildren child hchild).2 x hback List.mem_cons_self
        · exact (hchildren child hchild).1 x hx
      · intro x hx
        rcases (reaches_iff hset).mp hx with rfl | ⟨child, hchild, hx⟩
        · exact h
        · exact fun hmem => (hchildren child hchild).2 x hx (List.mem_cons_of_mem id hmem)
    · rintro ⟨hground, hfree⟩ child hchild
      have hc : t.Contains id child := ⟨set, hset, hchild⟩
      exact ⟨hground.child hc, fun x hx => hground.notMem_cons hfree hc hx⟩

theorem grounded_of_expand {ids : List Nat} (h : t.index.expand above id = .ok ids) :
    t.Grounded id := (exists_expand_iff.mp ⟨ids, h⟩).1

/-- A property of expansions holds once every set hands it on from its further sets to itself. -/
@[elab_as_elim]
theorem expand_induction
    {motive : ∀ above id ids, t.index.expand above id = .ok ids → Prop}
    (set : ∀ {above id set lists}
      (h : t.index.expand above id = .ok (set.direct ++ lists.flatten).eraseDups), id ∉ above →
      t.index.depSets[id]? = some set →
      set.transitive.mapM (t.index.expand (id :: above)) = .ok lists →
      (∀ child ∈ set.transitive, ∀ {ids} (h : t.index.expand (id :: above) child = .ok ids),
        motive (id :: above) child ids h) →
      motive above id _ h)
    {ids : List Nat} (h : t.index.expand above id = .ok ids) : motive above id ids h := by
  induction above, id using expand.induct t.index generalizing ids with
  | case1 above id hmem =>
    rw [expand_of_mem hmem] at h
    cases h
  | case2 above id hnew hnone =>
    rw [expand_of_none hnew hnone] at h
    cases h
  | case3 above id hnew found hset ih =>
    have heq := h
    rw [expand_of_some hnew hset, except_map_eq_ok_iff] at heq
    obtain ⟨lists, hlists, rfl⟩ := heq
    exact set h hnew hset hlists fun child _ ids hchild => ih child hchild

/-- The sets on the way down do not show in the result, as long as none comes back. -/
theorem expand_congr {ids : List Nat} (h : t.index.expand above id = .ok ids) {above' : List Nat}
    (hfree : ∀ x, ReflTransGen t.Contains id x → x ∉ above') :
    t.index.expand above' id = .ok ids := by
  induction h using expand_induction generalizing above' with
  | @set above id set lists h hnew hset hlists ih =>
    have hground := grounded_of_expand h
    rw [expand_of_some (hfree id .refl) hset, except_map_eq_ok_iff]
    refine ⟨lists, ?_, rfl⟩
    rw [← hlists]
    refine mapM_congr fun child hchild => ?_
    obtain ⟨list, hlist⟩ := exists_mapM_ok_iff.mp ⟨lists, hlists⟩ child hchild
    have hc : t.Contains id child := ⟨set, (getElem?_depSets id).symm.trans hset, hchild⟩
    rw [hlist]
    exact ih child hchild hlist fun x hx => hground.notMem_cons hfree hc hx

/-- The files of a set are the artifacts of all sets that it leads to. -/
theorem mem_expand {ids : List Nat} (h : t.index.expand above id = .ok ids) {artifact : Nat} :
    artifact ∈ ids ↔ ∃ x set, ReflTransGen t.Contains id x ∧ t.depSet? x = some set ∧
      artifact ∈ set.direct := by
  induction h using expand_induction with
  | @set above id set lists h hnew hset hlists ih =>
    rw [getElem?_depSets] at hset
    have hmap := mapM_eq_ok_iff.mp hlists
    rw [List.mem_eraseDups, List.mem_append, List.mem_flatten]
    constructor
    · rintro (hdirect | ⟨list, hlist, hmem⟩)
      · exact ⟨id, set, .refl, hset, hdirect⟩
      · have hok : Except.ok list ∈ set.transitive.map (t.index.expand (id :: above)) :=
          hmap ▸ List.mem_map_of_mem hlist
        obtain ⟨child, hchild, hok⟩ := List.mem_map.mp hok
        obtain ⟨x, set', hx, hset', hdirect⟩ := (ih child hchild hok).mp hmem
        exact ⟨x, set', (reaches_iff hset).mpr (.inr ⟨child, hchild, hx⟩), hset', hdirect⟩
    · rintro ⟨x, set', hx, hset', hdirect⟩
      rcases (reaches_iff hset).mp hx with rfl | ⟨child, hchild, hx⟩
      · obtain rfl := Option.some.inj (hset.symm.trans hset')
        exact .inl hdirect
      · have hok : t.index.expand (id :: above) child ∈ lists.map Except.ok :=
          hmap ▸ List.mem_map_of_mem hchild
        obtain ⟨list, hlist, hok⟩ := List.mem_map.mp hok
        exact .inr ⟨list, hlist, (ih child hchild hok.symm).mpr ⟨x, set', hx, hset', hdirect⟩⟩

end ActionTables

end HybridBuild
