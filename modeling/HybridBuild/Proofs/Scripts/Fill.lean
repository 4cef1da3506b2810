import HybridBuild.Proofs.Scripts.Reading
import HybridBuild.Proofs.Text.Exchange

/-!
# Placeholders

A placeholder is filled where it stands in a template, and nothing else changes in a text that
is free of it. A text is free of a placeholder when no brace opens in it, when none closes in
it, and when its parts around a character that no placeholder holds are free of it.
-/
namespace HybridBuild.Scripts

open Starlark

variable {template name text : String} {a b : List Char} {c : Char}

theorem toList_unlines (lines : List String) :
    (unlines lines).toList = lines.flatMap fun line => line.toList ++ ['\n'] := by
  simp [unlines, List.flatMap_map]

/-- A text in which a placeholder does not occur. -/
def IsFree (name : String) (text : List Char) : Prop := ¬ (placeholder name).toList <:+: text

instance (name : String) (text : List Char) : Decidable (IsFree name text) :=
  inferInstanceAs (Decidable (¬ _))

theorem toList_placeholder (name : String) :
    (placeholder name).toList = '\x7b' :: (name.toList ++ ['\x7d']) := by
  simp [placeholder]

def placeholderNames : List String :=
  ["arch", "labels", "config_nodes", "config_node_labels", "ids", "body", "kind", "kinds", "dispatch"]

/-- No name of a placeholder holds a brace, a quote or a line feed. -/
theorem notMem_name (hname : name ∈ placeholderNames) : '\x7b' ∉ name.toList ∧
    '\x7d' ∉ name.toList ∧ '"' ∉ name.toList ∧ '\n' ∉ name.toList := by
  have hall : ∀ name ∈ placeholderNames, '\x7b' ∉ name.toList ∧ '\x7d' ∉ name.toList ∧
      '"' ∉ name.toList ∧ '\n' ∉ name.toList := by
    decide
  exact hall name hname

theorem notMem_placeholder (hname : name ∈ placeholderNames) :
    '"' ∉ (placeholder name).toList ∧ '\n' ∉ (placeholder name).toList := by
  obtain ⟨-, -, hquote, hline⟩ := notMem_name hname
  simp [toList_placeholder, hquote, hline]

/-- Nothing in front of which a brace opens matters. -/
theorem IsFree.append_left (hb : IsFree name b) (ha : '\x7b' ∉ a) : IsFree name (a ++ b) := by
  unfold IsFree at hb ⊢
  rw [toList_placeholder] at hb ⊢
  rw [List.infix_append_iff_ne_nil]
  rintro (h | h | ⟨first, second, hfirst, -, heq, hsuffix, -⟩)
  · exact ha (h.subset List.mem_cons_self)
  · exact hb h
  · obtain ⟨d, rest, rfl⟩ := List.exists_cons_of_ne_nil hfirst
    obtain ⟨rfl, -⟩ := List.cons_eq_cons.mp heq
    exact ha (hsuffix.subset List.mem_cons_self)

/-- Nothing behind which a brace closes matters. -/
theorem IsFree.append_right (ha : IsFree name a) (hb : '\x7d' ∉ b) : IsFree name (a ++ b) := by
  unfold IsFree at ha ⊢
  rw [toList_placeholder] at ha ⊢
  have hlast : '\x7d' ∈ '\x7b' :: (name.toList ++ ['\x7d']) := by simp
  rw [List.infix_append_iff_ne_nil]
  rintro (h | h | ⟨first, second, -, hsecond, heq, -, hstart⟩)
  · exact ha h
  · exact hb (h.subset hlast)
  · have hmem : '\x7d' ∈ second := by
      have hgetLast := congrArg List.getLast? heq
      rw [List.getLast?_append_of_ne_nil _ hsecond, ← List.cons_append, List.getLast?_concat]
        at hgetLast
      exact List.mem_of_getLast? hgetLast.symm
    exact hb (hstart.subset hmem)

/-- A text is free of a placeholder when its parts around a foreign character are. -/
theorem IsFree.append_cons (ha : IsFree name a) (hb : IsFree name b)
    (hc : c ∉ (placeholder name).toList) : IsFree name (a ++ c :: b) :=
  Text.not_infix_append_cons (by simp [toList_placeholder]) ha hb hc

/-- No placeholder occurs in another one, since the names of both end at the first brace that
closes. -/
theorem isFree_placeholder {other : String} (hname : name ∈ placeholderNames)
    (hother : other ∈ placeholderNames) (hne : name ≠ other) :
    IsFree name (placeholder other).toList := by
  obtain ⟨hopen, hclose, -⟩ := notMem_name hother
  unfold IsFree
  rw [toList_placeholder, toList_placeholder, List.infix_cons_iff]
  rintro (h | h)
  · obtain ⟨rest, hrest⟩ := (List.cons_prefix_cons.mp h).2
    have hends := congrArg (List.takeWhile (· ≠ '\x7d')) hrest
    have hfirst : ∀ c ∈ name.toList, decide (c ≠ '\x7d') = true := fun c hc =>
      decide_eq_true fun heq => (notMem_name hname).2.1 (heq ▸ hc)
    have hsecond : ∀ c ∈ other.toList, decide (c ≠ '\x7d') = true := fun c hc =>
      decide_eq_true fun heq => hclose (heq ▸ hc)
    rw [List.append_assoc, List.takeWhile_append_of_pos hfirst,
      List.takeWhile_append_of_pos hsecond] at hends
    exact hne (String.toList_inj.mp (by simpa using hends))
  · have hmem := h.subset List.mem_cons_self
    simp [hopen] at hmem

theorem isFree_of_notMem_open (h : '\x7b' ∉ a) : IsFree name a := by
  have hnil : IsFree name [] := by simp [IsFree, toList_placeholder]
  simpa using hnil.append_left h

/-- Lines are free of a placeholder if each of them is, by induction on the lines. -/
theorem isFree_flatMap_lines {α : Type} {l : List α} {write : α → List Char}
    (h : ∀ x ∈ l, IsFree name (write x)) (hname : name ∈ placeholderNames) :
    IsFree name (l.flatMap fun x => write x ++ ['\n']) := by
  induction l with
  | nil => exact isFree_of_notMem_open List.not_mem_nil
  | cons x l ih =>
    obtain ⟨hx, hl⟩ := List.forall_mem_cons.mp h
    rw [List.flatMap_cons, List.append_assoc]
    exact hx.append_cons (ih hl) (notMem_placeholder hname).2

/-- A placeholder is filled where it stands for the first time. -/
theorem exchange_placeholder (ha : IsFree name a) (hname : name ∈ placeholderNames)
    (new : List Char) :
    Text.exchange (placeholder name).toList new (a ++ ((placeholder name).toList ++ b)) =
      a ++ (new ++ Text.exchange (placeholder name).toList new b) := by
  have hdrop : (placeholder name).toList.dropLast = '\x7b' :: name.toList := by
    rw [toList_placeholder, ← List.cons_append, List.dropLast_concat]
  refine Text.exchange_append (by simp [toList_placeholder]) ?_
  rw [hdrop]
  exact ha.append_right (by simp [(notMem_name hname).2.1])

/-- A placeholder is filled between the parts of a text, by induction on the parts. -/
theorem toList_fill_parts {parts : List (List Char)}
    (htext : template.toList = (placeholder name).toList.intercalate parts)
    (hname : name ∈ placeholderNames) (hparts : ∀ part ∈ parts, IsFree name part) :
    (fill template name text).toList = text.toList.intercalate parts := by
  rw [fill, replaceText, String.toList_ofList, htext]
  clear htext
  induction parts with
  | nil => rfl
  | cons part rest ih =>
    obtain ⟨hpart, hrest⟩ := List.forall_mem_cons.mp hparts
    cases rest with
    | nil => simpa only [List.intercalate_singleton] using Text.exchange_of_not_infix hpart
    | cons next rest =>
      rw [List.intercalate_cons_cons, List.intercalate_cons_cons, List.append_assoc,
        exchange_placeholder hpart hname, ih hrest, List.append_assoc]

/-- A placeholder that stands once is filled between two parts. -/
theorem toList_fill (htext : template.toList = a ++ ((placeholder name).toList ++ b))
    (hname : name ∈ placeholderNames) (ha : IsFree name a) (hb : IsFree name b) :
    (fill template name text).toList = a ++ (text.toList ++ b) := by
  have hparts : template.toList = (placeholder name).toList.intercalate [a, b] := by
    rw [htext]
    simp [List.intercalate_cons_cons]
  rw [toList_fill_parts hparts hname (by simp [ha, hb])]
  simp [List.intercalate_cons_cons]

/-- Two placeholders that stand once are filled one after the other, where the second one must not
come in with the first. -/
theorem toList_fill_fill {lead between rest : List Char} {first second text' : String}
    (htext : template.toList = lead ++ ((placeholder first).toList ++
      (between ++ ((placeholder second).toList ++ rest))))
    (hfirst : first ∈ placeholderNames) (hsecond : second ∈ placeholderNames)
    (hlead : IsFree first lead)
    (hbehind : IsFree first (between ++ ((placeholder second).toList ++ rest)))
    (hfront : IsFree second (lead ++ (text.toList ++ between))) (hrest : IsFree second rest) :
    (fill (fill template first text) second text').toList =
      lead ++ (text.toList ++ (between ++ (text'.toList ++ rest))) := by
  have hfilled : (fill template first text).toList =
      (lead ++ (text.toList ++ between)) ++ ((placeholder second).toList ++ rest) := by
    rw [toList_fill htext hfirst hlead hbehind]
    simp only [List.append_assoc]
  rw [toList_fill hfilled hsecond hfront hrest]
  simp only [List.append_assoc]

/-- A text in quotes is free of a placeholder if the text and what follows it are. -/
theorem isFree_quoted_append {value : String} {rest : List Char} (hvalue : IsFree name value.toList)
    (hrest : IsFree name rest) (hname : name ∈ placeholderNames) :
    IsFree name (quoted value ++ rest) := by
  have hquote := (notMem_placeholder hname).1
  have hnil : IsFree name [] := isFree_of_notMem_open List.not_mem_nil
  have hopened := hnil.append_cons (hvalue.append_cons hrest hquote) hquote
  simpa [quoted] using hopened

theorem isFree_quotedList {values : List String} (h : ∀ value ∈ values, IsFree name value.toList)
    (hname : name ∈ placeholderNames) : IsFree name (quotedList values).toList := by
  rw [toList_quotedList]
  induction values with
  | nil => exact isFree_of_notMem_open List.not_mem_nil
  | cons value rest ih =>
    obtain ⟨hvalue, hrest⟩ := List.forall_mem_cons.mp h
    cases rest with
    | nil =>
      have hnil : IsFree name [] := isFree_of_notMem_open List.not_mem_nil
      simpa using isFree_quoted_append hvalue hnil hname
    | cons next rest =>
      rw [List.map_cons, List.map_cons, List.intercalate_cons_cons, List.append_assoc]
      exact isFree_quoted_append hvalue ((ih hrest).append_left (by decide)) hname

end HybridBuild.Scripts
