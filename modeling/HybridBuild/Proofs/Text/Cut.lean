import HybridBuild.Text.Cut
import Mathlib.Data.List.Chain
import Mathlib.Data.List.Infix
import Mathlib.Data.Nat.Find

/-!
# Where a text is cut

A text is cut at a separator's first occurrence: it can be cut unless the separator does
not occur, and the text in front, extended by all of the separator but its last
character, is free of it.
-/
namespace HybridBuild.Text

variable {sep text a b : List Char}

/-- The text read so far stands in front of what is found. -/
theorem cutFrom_eq (before : List Char) : cutFrom sep before text =
    (cutFrom sep [] text).map fun cut => (before.reverse ++ cut.1, cut.2) := by
  induction text generalizing before with
  | nil =>
    unfold cutFrom
    split <;> simp
  | cons c rest ih =>
    unfold cutFrom
    split
    · simp
    · rw [ih (c :: before), ih [c], Option.map_map]
      congr 1
      funext cut
      simp

/-- Whether a text is cut is decided at each of its characters in turn. -/
theorem cut?_cons (c : Char) (rest : List Char) : cut? sep (c :: rest) =
    if sep <+: c :: rest then some ([], (c :: rest).drop sep.length)
    else (cut? sep rest).map fun cut => (c :: cut.1, cut.2) := by
  rw [cut?, cutFrom, cutFrom_eq [c]]
  simp only [List.isPrefixOf_iff_prefix]
  rfl

theorem cut?_eq_none_iff (hsep : sep ≠ []) : cut? sep text = none ↔ ¬ sep <:+: text := by
  induction text with
  | nil => simp [cut?, cutFrom, hsep]
  | cons c rest ih =>
    rw [cut?_cons, List.infix_cons_iff]
    split
    next h => simp [h]
    next h => simp [h, ih]

/-- A separator that does not occur before another occurrence of it does not begin before that
occurrence either, since it would end before the last character of the other one. -/
theorem not_prefix_of_not_infix {c : Char} (h : ¬ sep <:+: c :: a ++ sep.dropLast) :
    ¬ sep <+: c :: a ++ (sep ++ b) := by
  intro hp
  have hshort : c :: a ++ sep.dropLast <+: c :: a ++ (sep ++ b) :=
    (List.prefix_append_right_inj _).mpr ((List.dropLast_prefix sep).trans (List.prefix_append _ _))
  have hlength : sep.length ≤ (c :: a ++ sep.dropLast).length := by
    simp only [List.length_append, List.length_cons, List.length_dropLast]
    omega
  exact h (List.prefix_of_prefix_length_le hp hshort hlength).isInfix

/-- A text is cut at the first occurrence of the separator. -/
theorem cut?_append (hsep : sep ≠ []) (hfirst : ¬ sep <:+: a ++ sep.dropLast) :
    cut? sep (a ++ (sep ++ b)) = some (a, b) := by
  induction a with
  | nil =>
    obtain ⟨c, rest, rfl⟩ := List.exists_cons_of_ne_nil hsep
    rw [List.nil_append, List.cons_append, cut?_cons, ← List.cons_append,
      if_pos (List.prefix_append _ _), List.drop_left]
  | cons c a ih =>
    have hhere : ¬ sep <+: c :: a ++ (sep ++ b) := not_prefix_of_not_infix hfirst
    have hrest : ¬ sep <:+: a ++ sep.dropLast := fun h => hfirst (List.infix_cons h)
    rw [List.cons_append] at hhere ⊢
    rw [cut?_cons, if_neg hhere, ih hrest, Option.map_some]

/-- When no separator begins before the end of a text, the text in front of the separator and all
of the separator but its last character are free of it. -/
theorem not_infix_of_first (hsep : sep ≠ [])
    (hfirst : ∀ a' b', a ++ (sep ++ b) = a' ++ (sep ++ b') → a.length ≤ a'.length) :
    ¬ sep <:+: a ++ sep.dropLast := by
  rintro ⟨front, back, heq⟩
  have hocc : a ++ (sep ++ b) = front ++ (sep ++ (back ++ sep.getLast hsep :: b)) := by
    calc a ++ (sep ++ b) = (a ++ sep.dropLast) ++ sep.getLast hsep :: b := by
          conv_lhs => rw [← List.dropLast_append_getLast hsep]
          simp
      _ = front ++ (sep ++ (back ++ sep.getLast hsep :: b)) := by
          rw [← heq]
          simp
  have hle := hfirst _ _ hocc
  have hlength := congrArg List.length heq
  have hpos := List.length_pos_iff.mpr hsep
  simp only [List.length_append, List.length_dropLast] at hlength
  omega

/-- A text is cut at the first of all places where the separator begins. -/
theorem cut?_eq_some_iff (hsep : sep ≠ []) : cut? sep text = some (a, b) ↔
    text = a ++ (sep ++ b) ∧ ∀ a' b', text = a' ++ (sep ++ b') → a.length ≤ a'.length := by
  have hcut {a b : List Char} (hsplit : text = a ++ (sep ++ b))
      (hfirst : ∀ a' b', text = a' ++ (sep ++ b') → a.length ≤ a'.length) :
      cut? sep text = some (a, b) := by
    subst hsplit
    exact cut?_append hsep (not_infix_of_first hsep hfirst)
  refine ⟨fun h => ?_, fun h => hcut h.1 h.2⟩
  have hinfix : sep <:+: text := by
    by_contra hfree
    rw [(cut?_eq_none_iff hsep).mpr hfree] at h
    cases h
  classical
  have hex : ∃ n a b, text = a ++ (sep ++ b) ∧ a.length = n := by
    obtain ⟨a', b', heq⟩ := hinfix
    exact ⟨_, a', b', by rw [← heq, List.append_assoc], rfl⟩
  obtain ⟨a', b', hsplit, hlength⟩ := Nat.find_spec hex
  have hfirst : ∀ c d, text = c ++ (sep ++ d) → a'.length ≤ c.length := by
    intro c d heq
    rw [hlength]
    exact Nat.find_min' hex ⟨c, d, heq, rfl⟩
  obtain ⟨rfl, rfl⟩ : a' = a ∧ b' = b := by simpa [hcut hsplit hfirst] using h
  exact ⟨hsplit, hfirst⟩

/-- Two characters do not occur together when no two neighbours are those. -/
theorem not_pair_infix_iff {x y : Char} :
    ¬ [x, y] <:+: text ↔ text.IsChain fun c d => ¬ (c = x ∧ d = y) := by
  constructor
  · intro h
    induction text with
    | nil => exact .nil
    | cons c rest ih =>
      have hrest : rest.IsChain fun c d => ¬ (c = x ∧ d = y) :=
        ih fun hi => h (List.infix_cons hi)
      refine List.isChain_cons.mpr ⟨fun d hd => ?_, hrest⟩
      rintro ⟨rfl, rfl⟩
      obtain ⟨tail, rfl⟩ := List.head?_eq_some_iff.mp hd
      exact h (List.prefix_append [c, d] tail).isInfix
  · intro h hi
    have hpair := h.infix hi
    simp at hpair

theorem not_pair_infix_append {x y : Char} (ha : ¬ [x, y] <:+: a) (hb : ¬ [x, y] <:+: b)
    (hjoint : a.getLast? ≠ some x ∨ b.head? ≠ some y) : ¬ [x, y] <:+: a ++ b := by
  rw [not_pair_infix_iff] at ha hb ⊢
  refine List.isChain_append.mpr ⟨ha, hb, fun c hc d hd => ?_⟩
  rintro ⟨rfl, rfl⟩
  obtain hlast | hhead := hjoint
  · exact hlast hc
  · exact hhead hd

end HybridBuild.Text

namespace HybridBuild

variable {a sep b text part : String}

theorem cutText?_append (hsep : sep.toList ≠ [])
    (hfirst : ¬ sep.toList <:+: a.toList ++ sep.toList.dropLast) :
    cutText? (a ++ (sep ++ b)) sep = some (a, b) := by
  simp only [cutText?, String.toList_append, Text.cut?_append hsep hfirst, Option.map_some,
    String.ofList_toList]

theorem cutText?_eq_none_iff (hsep : sep.toList ≠ []) :
    cutText? text sep = none ↔ ¬ sep.toList <:+: text.toList := by
  rw [cutText?, Option.map_eq_none_iff, Text.cut?_eq_none_iff hsep]

theorem textContains_eq_false_iff (hpart : part.toList ≠ []) :
    textContains text part = false ↔ ¬ part.toList <:+: text.toList := by
  rw [textContains, Option.isSome_eq_false_iff, Option.isNone_iff_eq_none,
    Text.cut?_eq_none_iff hpart]

/-- A text is cut in two at the first occurrence of a separator. -/
structure CutsAt (text sep before after : String) : Prop where
  split : text = before ++ (sep ++ after)
  first : ∀ b a, text = b ++ (sep ++ a) → before.length ≤ b.length

theorem cutText?_eq_some_iff {text sep before after : String} (hsep : sep.toList ≠ []) :
    cutText? text sep = some (before, after) ↔ CutsAt text sep before after := by
  have hread : cutText? text sep = some (before, after) ↔
      Text.cut? sep.toList text.toList = some (before.toList, after.toList) := by
    rw [cutText?, Option.map_eq_some_iff]
    constructor
    · rintro ⟨⟨a, b⟩, hcut, heq⟩
      obtain ⟨rfl, rfl⟩ := Prod.mk.inj heq
      simpa using hcut
    · intro hcut
      exact ⟨_, hcut, by simp⟩
  rw [hread, Text.cut?_eq_some_iff hsep]
  constructor
  · rintro ⟨hsplit, hfirst⟩
    refine ⟨String.toList_injective (by simpa using hsplit), fun b a heq => ?_⟩
    have hle := hfirst b.toList a.toList (by simp [heq])
    rwa [String.length_toList, String.length_toList] at hle
  · rintro ⟨rfl, hfirst⟩
    refine ⟨by simp, fun b a heq => ?_⟩
    have hle := hfirst (String.ofList b) (String.ofList a)
      (String.toList_injective (by simpa using heq))
    rwa [String.length_ofList, ← String.length_toList] at hle

end HybridBuild
