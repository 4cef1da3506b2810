import Std.Data.TreeSet
import Mathlib.Data.List.Nodup
import Mathlib.Data.List.Perm.Basic

/-!
# First occurrences

The distinct elements of a list stand where each of them occurs first. It does not matter
whether parts of a list are freed of repetitions before they are put together, nor whether
elements are left out before or after. A list that ascends has no repetitions, and is known by its elements.
-/
namespace HybridBuild

theorem exists_split_cons_iff {α : Type} {x y : α} {xs : List α} {P : List α → List α → Prop} :
    (∃ before after, y :: xs = before ++ x :: after ∧ P before after) ↔
      y = x ∧ P [] xs ∨ ∃ before after, xs = before ++ x :: after ∧ P (y :: before) after := by
  constructor
  · rintro ⟨before, after, heq, h⟩
    cases before with
    | nil =>
      obtain ⟨rfl, rfl⟩ := List.cons.inj heq
      exact .inl ⟨rfl, h⟩
    | cons _ before =>
      obtain ⟨rfl, rfl⟩ := List.cons.inj heq
      exact .inr ⟨before, after, rfl, h⟩
  · rintro (⟨rfl, h⟩ | ⟨before, after, rfl, h⟩)
    · exact ⟨[], xs, rfl, h⟩
    · exact ⟨y :: before, after, rfl, h⟩

section Ascending

variable {α β : Type} [Ord β] [Std.TransOrd β] {key : α → β} {xs ys : List α}

theorem nodup_of_ascending (h : xs.Pairwise fun x y => compare (key x) (key y) = .lt) :
    xs.Nodup := by
  refine h.imp fun hlt heq => ?_
  rw [heq, Std.ReflOrd.compare_self] at hlt
  cases hlt

/-- Lists that ascend by a key are the same when they have the same elements. -/
theorem eq_of_ascending (hxs : xs.Pairwise fun x y => compare (key x) (key y) = .lt)
    (hys : ys.Pairwise fun x y => compare (key x) (key y) = .lt) (h : ∀ x, x ∈ xs ↔ x ∈ ys) :
    xs = ys := by
  have hperm : xs.Perm ys :=
    (List.perm_ext_iff_of_nodup (nodup_of_ascending hxs) (nodup_of_ascending hys)).mpr h
  refine List.Perm.eq_of_pairwise (fun x y _ _ hlt hgt => ?_) hxs hys hperm
  exact absurd hgt (Std.OrientedCmp.not_lt_of_lt hlt)

theorem nodup_toList {α : Type} [Ord α] [Std.TransOrd α] (s : Std.TreeSet α) : s.toList.Nodup :=
  nodup_of_ascending s.ordered_toList

end Ascending

/-- Of some elements `b` is the first whose key an element before it has, and `a` is the one that
has it: no two elements before `b` have the same key. -/
def FirstRepeat {α β : Type} (key : α → β) (l : List α) (a b : α) : Prop :=
  ∃ before after, l = before ++ b :: after ∧ (before.map key).Nodup ∧ a ∈ before ∧ key a = key b

variable {α : Type} [BEq α] {xs ys xs' ys' : List α}

/-- A list is gone through as its distinct elements are found: behind an element, the rest
without it. -/
theorem eraseDups_induction {P : List α → Prop} (nil : P [])
    (cons : ∀ x xs, P (xs.filter fun y => !y == x) → P (x :: xs)) : ∀ xs, P xs
  | [] => nil
  | x :: xs => cons x xs (eraseDups_induction nil cons _)
termination_by xs => xs.length
decreasing_by exact Nat.lt_succ_of_le (List.length_filter_le _ _)

variable [LawfulBEq α]

/-- Leaving elements out leaves the order of the first occurrences. -/
theorem eraseDups_filter (p : α → Bool) (xs : List α) :
    (xs.filter p).eraseDups = xs.eraseDups.filter p := by
  induction xs using eraseDups_induction with
  | nil => rfl
  | cons x xs ih =>
    rw [List.eraseDups_cons]
    by_cases hx : p x
    · rw [List.filter_cons_of_pos hx, List.filter_cons_of_pos hx, List.eraseDups_cons, ← ih,
        List.filter_filter, List.filter_filter]
      simp only [Bool.and_comm]
    · have hsame : (xs.filter fun y => !y == x).filter p = xs.filter p := by
        rw [List.filter_filter]
        refine List.filter_congr fun y _ => ?_
        by_cases hy : p y
        · have hne : y ≠ x := fun heq => hx (heq ▸ hy)
          simp [hne]
        · simp [hy]
      rw [List.filter_cons_of_neg hx, List.filter_cons_of_neg hx, ← ih, hsame]

theorem nodup_eraseDups (xs : List α) : xs.eraseDups.Nodup := by
  induction xs using eraseDups_induction with
  | nil => exact List.nodup_nil
  | cons x xs ih =>
    rw [List.eraseDups_cons, List.nodup_cons]
    exact ⟨by simp [List.mem_eraseDups], ih⟩

theorem eraseDups_of_nodup (h : xs.Nodup) : xs.eraseDups = xs := by
  induction xs with
  | nil => rfl
  | cons x xs ih =>
    obtain ⟨hx, hxs⟩ := List.nodup_cons.mp h
    have hall : (xs.filter fun y => !y == x) = xs := by
      refine List.filter_eq_self.mpr fun y hy => ?_
      have hne : y ≠ x := fun heq => hx (heq ▸ hy)
      simp [hne]
    rw [List.eraseDups_cons, hall, ih hxs]

/-- What is new behind other elements, once these are free of repetitions. -/
theorem eraseDups_append_eq (xs ys : List α) :
    (xs ++ ys).eraseDups = xs.eraseDups ++ ys.eraseDups.filter fun y => !xs.contains y := by
  rw [List.eraseDups_append, ← eraseDups_filter]
  rfl

/-- Parts of a list may be freed of repetitions first. -/
theorem eraseDups_append_congr (hxs : xs.eraseDups = xs'.eraseDups)
    (hys : ys.eraseDups = ys'.eraseDups) : (xs ++ ys).eraseDups = (xs' ++ ys').eraseDups := by
  have hcontains (y : α) : xs.contains y = xs'.contains y := by
    rw [Bool.eq_iff_iff, List.contains_iff_mem, List.contains_iff_mem, ← List.mem_eraseDups,
      hxs, List.mem_eraseDups]
  simp only [eraseDups_append_eq, hxs, hys, hcontains]

theorem eraseDups_eraseDups (xs : List α) : xs.eraseDups.eraseDups = xs.eraseDups :=
  eraseDups_of_nodup (nodup_eraseDups xs)

theorem eraseDups_flatMap_eraseDups {ι : Type} (f : ι → List α) (is : List ι) :
    (is.flatMap fun i => (f i).eraseDups).eraseDups = (is.flatMap f).eraseDups := by
  induction is with
  | nil => rfl
  | cons i is ih => exact eraseDups_append_congr (eraseDups_eraseDups _) ih

end HybridBuild
