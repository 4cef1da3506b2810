import HybridBuild.Proofs.Text.Cut

/-!
# What an exchange changes

A text without the text that is exchanged stays as it is. Otherwise the part in front of the
first occurrence stays, and the exchange goes on behind it; what comes in for an occurrence is
not looked at again. The pieces between the occurrences of a separator make up the text again,
and pieces that are put together with it come back unless one of them completes a separator.
-/
namespace HybridBuild.Text

variable {sep text a b : List Char}

theorem piecesFrom_done (done : List (List Char)) (piece : List Char) (skip : Nat) :
    piecesFrom sep done piece skip text = done.reverse ++ piecesFrom sep [] piece skip text := by
  induction text generalizing done piece skip with
  | nil => cases skip <;> simp [piecesFrom]
  | cons c rest ih =>
    cases skip with
    | succ skip => rw [piecesFrom, piecesFrom, ih]
    | zero =>
      rw [piecesFrom, piecesFrom]
      split
      · rw [ih (piece.reverse :: done), ih [piece.reverse]]
        simp
      · exact ih done (c :: piece) 0

theorem piecesFrom_skip (done : List (List Char)) (piece skipped text : List Char) :
    piecesFrom sep done piece skipped.length (skipped ++ text) = piecesFrom sep done piece 0 text := by
  induction skipped with
  | nil => rfl
  | cons c skipped ih => rw [List.length_cons, List.cons_append, piecesFrom, ih]

theorem piecesFrom_of_not_infix (h : ¬ sep <:+: text) (done : List (List Char)) (piece : List Char) :
    piecesFrom sep done piece 0 text = done.reverse ++ [piece.reverse ++ text] := by
  induction text generalizing piece with
  | nil => simp [piecesFrom]
  | cons c rest ih =>
    have hhere : ¬ sep <+: c :: rest := fun hp => h hp.isInfix
    have hrest : ¬ sep <:+: rest := fun hi => h (List.infix_cons hi)
    rw [piecesFrom, if_neg (by simpa using hhere), ih hrest]
    simp

theorem piecesFrom_append (hsep : sep ≠ []) (hfirst : ¬ sep <:+: a ++ sep.dropLast)
    (piece : List Char) :
    piecesFrom sep [] piece 0 (a ++ (sep ++ b)) = (piece.reverse ++ a) :: pieces sep b := by
  induction a generalizing piece with
  | nil =>
    obtain ⟨c, rest, rfl⟩ := List.exists_cons_of_ne_nil hsep
    have hhere : (c :: rest).isPrefixOf (c :: rest ++ b) = true := by simp
    have hlength : (c :: rest).length - 1 = rest.length := by simp
    rw [List.nil_append, List.cons_append, piecesFrom, ← List.cons_append, if_pos hhere, hlength,
      piecesFrom_skip, piecesFrom_done, pieces]
    simp
  | cons c a ih =>
    have hhere : ¬ sep <+: c :: a ++ (sep ++ b) := not_prefix_of_not_infix hfirst
    have hrest : ¬ sep <:+: a ++ sep.dropLast := fun h => hfirst (List.infix_cons h)
    rw [List.cons_append] at hhere ⊢
    rw [piecesFrom, if_neg (by simpa using hhere), ih hrest]
    simp

theorem piecesFrom_ne_nil (done : List (List Char)) (piece : List Char) (skip : Nat) :
    piecesFrom sep done piece skip text ≠ [] := by
  induction text generalizing done piece skip with
  | nil => cases skip <;> simp [piecesFrom]
  | cons c rest ih =>
    cases skip with
    | succ skip => exact ih done piece skip
    | zero =>
      rw [piecesFrom]
      split <;> exact ih _ _ _

/-- A text is free of another one when its parts around a foreign character are. -/
theorem not_infix_append_cons {c : Char} (hsep : sep ≠ []) (ha : ¬ sep <:+: a) (hb : ¬ sep <:+: b)
    (hc : c ∉ sep) : ¬ sep <:+: a ++ c :: b := by
  have hhead : ∀ part, part ≠ [] → part <+: c :: b → c ∈ part := by
    intro part hne hstart
    obtain ⟨d, rest, rfl⟩ := List.exists_cons_of_ne_nil hne
    rw [(List.cons_prefix_cons.mp hstart).1]
    exact List.mem_cons_self
  rw [List.infix_append_iff_ne_nil, List.infix_cons_iff]
  rintro (h | (h | h) | ⟨first, second, -, hsecond, heq, -, hstart⟩)
  · exact ha h
  · exact hc (hhead _ hsep h)
  · exact hb h
  · exact hc (heq ▸ List.mem_append_right _ (hhead second hsecond hstart))

theorem exchange_of_not_infix {new : List Char} (h : ¬ sep <:+: text) :
    exchange sep new text = text := by
  rw [exchange, pieces, piecesFrom_of_not_infix h]
  simp

/-- The text in front of the first occurrence of the old one stays as it is. -/
theorem exchange_append {new : List Char} (hsep : sep ≠ []) (hfirst : ¬ sep <:+: a ++ sep.dropLast) :
    exchange sep new (a ++ (sep ++ b)) = a ++ (new ++ exchange sep new b) := by
  have hne : pieces sep b ≠ [] := piecesFrom_ne_nil [] [] 0
  obtain ⟨piece, rest, hpieces⟩ := List.exists_cons_of_ne_nil hne
  rw [exchange, exchange, pieces, piecesFrom_append hsep hfirst, hpieces, List.intercalate_cons_cons]
  simp

/-- A text that is exchanged for itself stays where it is: by induction on what follows its first
occurrence. -/
theorem exchange_self (hsep : sep ≠ []) (text : List Char) : exchange sep sep text = text := by
  induction hlength : text.length using Nat.strong_induction_on generalizing text with
  | h n ih =>
    cases hcut : cut? sep text with
    | none => exact exchange_of_not_infix ((cut?_eq_none_iff hsep).mp hcut)
    | some cut =>
      obtain ⟨a, b⟩ := cut
      obtain ⟨rfl, hfirst⟩ := (cut?_eq_some_iff hsep).mp hcut
      have hpos := List.length_pos_iff.mpr hsep
      have hshort : b.length < n := by
        simp only [List.length_append] at hlength
        omega
      rw [exchange_append hsep (not_infix_of_first hsep hfirst), ih _ hshort b rfl]

/-- Parts that are put together: the first one, and a separator in front of every other. -/
theorem intercalate_cons (sep first : List Char) (rest : List (List Char)) :
    sep.intercalate (first :: rest) = first ++ rest.flatMap (sep ++ ·) := by
  induction rest generalizing first with
  | nil => simp
  | cons second rest ih =>
    rw [List.intercalate_cons_cons, List.flatMap_cons, ih second]
    simp

theorem intercalate_concat (sep : List Char) (parts : List (List Char)) (last : List Char) :
    sep.intercalate (parts ++ [last]) = parts.flatMap (· ++ sep) ++ last := by
  induction parts with
  | nil => simp
  | cons part parts ih =>
    rw [List.cons_append, List.intercalate_cons_of_ne_nil (by simp), ih]
    simp

/-- What stands in no separator stands in the pieces that are put together. -/
theorem mem_intercalate_iff {c : Char} (hsep : c ∉ sep) {parts : List (List Char)} :
    c ∈ sep.intercalate parts ↔ ∃ part ∈ parts, c ∈ part := by
  induction parts with
  | nil => simp
  | cons part rest ih =>
    cases rest with
    | nil => simp
    | cons next rest =>
      rw [List.intercalate_cons_cons, List.mem_append, List.mem_append, ih]
      simp [hsep]

/-- The pieces of a text make it up again. -/
theorem intercalate_pieces (hsep : sep ≠ []) (text : List Char) :
    sep.intercalate (pieces sep text) = text := exchange_self hsep text

/-- Pieces that are put together come back, when none of them holds the separator, not even
together with the start of the separator behind it. -/
theorem pieces_intercalate (hsep : sep ≠ []) {parts : List (List Char)} (hparts : parts ≠ [])
    (hfree : ∀ part ∈ parts, ¬ sep <:+: part ++ sep.dropLast) :
    pieces sep (sep.intercalate parts) = parts := by
  induction parts with
  | nil => exact absurd rfl hparts
  | cons part rest ih =>
    obtain ⟨hpart, hrest⟩ := List.forall_mem_cons.mp hfree
    cases rest with
    | nil =>
      have hlast : ¬ sep <:+: part := fun h => hpart (h.trans (List.prefix_append _ _).isInfix)
      rw [List.intercalate_singleton, pieces, piecesFrom_of_not_infix hlast]
      rfl
    | cons next rest =>
      rw [List.intercalate_cons_cons, List.append_assoc, pieces, piecesFrom_append hsep hpart,
        ih (List.cons_ne_nil _ _) hrest]
      rfl

end HybridBuild.Text
