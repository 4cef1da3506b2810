import HybridBuild.Proofs.Shell.Grammar
import HybridBuild.Proofs.Text.Exchange
import HybridBuild.Proofs.Traverse
import HybridBuild.Shell
import Mathlib.Data.List.Basic

/-!
# Written words are read

A text that was written as a word is read as one word that stands for it, whatever its characters
are, and texts that were written as the words of a command come back one by one. A text of literal
characters is read as it stands.
-/
namespace HybridBuild.Shell

variable {ended : List (List Word)} {before : List Word} {read : Word}

theorem run_append (s : Reader) (a b : List Char) :
    run s (a ++ b) = (run s a).bind fun s => run s b := List.foldlM_append

theorem run_cons (s : Reader) (c : Char) (text : List Char) :
    run s (c :: text) = (step s c).bind fun s => run s text := rfl

theorem run_append_eq_some_iff {s t : Reader} {a b : List Char} :
    run s (a ++ b) = some t ↔ ∃ s', run s a = some s' ∧ run s' b = some t := by
  rw [run_append, Option.bind_eq_some_iff]

theorem run_cons_eq_some_iff {s t : Reader} {c : Char} {text : List Char} :
    run s (c :: text) = some t ↔ ∃ s', step s c = some s' ∧ run s' text = some t := by
  rw [run_cons, Option.bind_eq_some_iff]

section Literal

variable {c : Char}

theorem ne_of_isLiteral {d : Char} (h : isLiteral c) (hd : d ∈ signs) : c ≠ d := by
  rintro rfl
  simp [isLiteral, hd] at h

theorem step_literal (h : isLiteral c) (hopen : opensWord c ∨ read ≠ []) :
    step ⟨ended, before, .outside read⟩ c =
      some ⟨ended, before, .outside (read ++ [.bare c])⟩ := by
  have hblank : c ≠ ' ' ∧ c ≠ '\t' :=
    ⟨ne_of_isLiteral h (by decide), ne_of_isLiteral h (by decide)⟩
  have hquote : c ≠ '\'' ∧ c ≠ '\\' ∧ c ≠ '&' :=
    ⟨ne_of_isLiteral h (by decide), ne_of_isLiteral h (by decide), ne_of_isLiteral h (by decide)⟩
  have hkept : (opensWord c || (isLiteral c && !read.isEmpty)) = true := by
    rcases hopen with hopen | hne
    · simp [hopen]
    · simp [h, hne]
  simp [step, stepOutside, hblank, hquote, hkept]

/-- A text that the shell reads as it stands, at the start of a word and inside of it. -/
structure IsVerbatim (text : List Char) : Prop where
  literal : ∀ c ∈ text, isLiteral c
  opens : ∀ c ∈ text.head?, opensWord c

theorem IsVerbatim.append {a b : List Char} (ha : IsVerbatim a) (hb : IsVerbatim b) :
    IsVerbatim (a ++ b) where
  literal := List.forall_mem_append.mpr ⟨ha.literal, hb.literal⟩
  opens := by
    cases a with
    | nil => exact hb.opens
    | cons c a => exact ha.opens

theorem isVerbatim_append_iff {a b : List Char} (hb : IsVerbatim b) :
    IsVerbatim (a ++ b) ↔ IsVerbatim a := by
  refine ⟨fun h => ⟨(List.forall_mem_append.mp h.literal).1, ?_⟩, fun ha => ha.append hb⟩
  cases a with
  | nil => simp
  | cons c a => exact h.opens

/-- A text that is read as it stands joins the word that has begun, or is one. -/
theorem run_verbatim {text : List Char} (h : IsVerbatim text) :
    run ⟨ended, before, .outside read⟩ text =
      some ⟨ended, before, .outside (read ++ bareWord text)⟩ := by
  have hinside : ∀ {read : Word} {text : List Char}, read ≠ [] → (∀ c ∈ text, isLiteral c) →
      run ⟨ended, before, .outside read⟩ text =
        some ⟨ended, before, .outside (read ++ bareWord text)⟩ := by
    intro read text hread hliteral
    induction text generalizing read with
    | nil => simp [run, bareWord]
    | cons c text ih =>
      rw [List.forall_mem_cons] at hliteral
      rw [run_cons, step_literal hliteral.1 (.inr hread), Option.bind_some,
        ih (by simp) hliteral.2]
      simp [bareWord]
  cases text with
  | nil => simp [run, bareWord]
  | cons c text =>
    obtain ⟨hc, htext⟩ := List.forall_mem_cons.mp h.literal
    rw [run_cons, step_literal hc (.inl (h.opens c rfl)), Option.bind_some,
      hinside (by simp) htext]
    simp [bareWord]

/-- A plain character stands for itself everywhere in a word. -/
theorem opensWord_of_isPlain (h : isPlain c) : opensWord c := by
  have hquoted : ('#' :: '~' :: signs).all fun d => !isPlain d := by decide
  have hne : ∀ d ∈ '#' :: '~' :: signs, c ≠ d := by
    rintro d hd rfl
    simpa [h] using List.all_eq_true.mp hquoted c hd
  have hsign : c ∉ signs := fun hmem => hne c (by simp [hmem]) rfl
  simp [opensWord, isLiteral, hsign, hne '#' (by simp), hne '~' (by simp)]

theorem isLiteral_of_opensWord (h : opensWord c) : isLiteral c := by
  simp only [opensWord, Bool.and_eq_true] at h
  exact h.1.1

theorem IsVerbatim.of_all_isPlain {text : List Char} (h : text.all isPlain) : IsVerbatim text := by
  rw [List.all_eq_true] at h
  exact ⟨fun c hc => isLiteral_of_opensWord (opensWord_of_isPlain (h c hc)),
    fun c hc => opensWord_of_isPlain (h c (List.mem_of_mem_head? hc))⟩

theorem all_isPlain_of_isName {name : List Char} (h : isName name) : name.all isPlain := by
  rw [List.all_eq_true]
  intro c hc
  simp only [isName, Bool.and_eq_true, List.all_eq_true, Bool.or_eq_true, decide_eq_true_eq] at h
  rcases h.1.2 c hc with hletter | rfl
  · simp [isPlain, hletter]
  · decide

end Literal

/-- The parts of a text that stands between quotes, where some characters have been read since the
last of them. -/
def quotedParts (read : List Char) : List Char → Word
  | [] => [.quoted read]
  | c :: text =>
    if c = '\'' ∨ c = '!' then .quoted read :: .quoted [c] :: quotedParts [] text
    else quotedParts (read ++ [c]) text

def wordParts (text : List Char) : Word :=
  if !text.isEmpty && text.all isPlain then bareWord text else quotedParts [] text

theorem exists_quotedParts_eq (read text : List Char) :
    ∃ first rest, quotedParts read text = .quoted first :: rest := by
  induction text generalizing read with
  | nil => exact ⟨read, [], rfl⟩
  | cons c text ih =>
    rw [quotedParts]
    split
    · exact ⟨_, _, rfl⟩
    · exact ih _

theorem wordParts_ne_nil (text : List Char) : wordParts text ≠ [] := by
  unfold wordParts
  split
  next h => simp_all [bareWord]
  next =>
    obtain ⟨first, rest, h⟩ := exists_quotedParts_eq [] text
    simp [h]

theorem flatMap_text_bareWord (text : List Char) : (bareWord text).flatMap Part.text = text := by
  simp [bareWord, List.flatMap_map, Part.text]

theorem flatMap_text_quotedParts (read text : List Char) :
    (quotedParts read text).flatMap Part.text = read ++ text := by
  induction text generalizing read with
  | nil => simp [quotedParts, Part.text]
  | cons c text ih =>
    rw [quotedParts]
    split
    · simp [Part.text, ih]
    · simp [ih]

theorem flatMap_text_wordParts (text : List Char) : (wordParts text).flatMap Part.text = text := by
  unfold wordParts
  split
  · exact flatMap_text_bareWord text
  · exact flatMap_text_quotedParts [] text

@[simp] theorem wordText_append (v w : Word) : wordText (v ++ w) = wordText v ++ wordText w := by
  simp [wordText]

@[simp] theorem wordText_bareWord (text : String) : wordText (bareWord text.toList) = text := by
  rw [wordText, flatMap_text_bareWord, String.ofList_toList]

@[simp] theorem wordText_wordParts (text : String) : wordText (wordParts text.toList) = text := by
  rw [wordText, flatMap_text_wordParts, String.ofList_toList]

/-- A quote and an exclamation mark leave the quotes and come back into them, behind a part for
themselves. -/
theorem run_quoted (chars text : List Char) :
    run ⟨ended, before, .quoted read chars⟩ (text.flatMap quoteChar ++ ['\'']) =
      some ⟨ended, before, .outside (read ++ quotedParts chars text)⟩ := by
  induction text generalizing read chars with
  | nil => rfl
  | cons c text ih =>
    rw [List.flatMap_cons, List.append_assoc, quotedParts]
    by_cases hescaped : c = '\'' ∨ c = '!'
    · have hchar : run ⟨ended, before, .quoted read chars⟩ (quoteChar c) =
          some ⟨ended, before, .quoted (read ++ [.quoted chars] ++ [.quoted [c]]) []⟩ := by
        rcases hescaped with rfl | rfl <;> rfl
      rw [run_append, hchar, Option.bind_some, ih, if_pos hescaped]
      simp
    · have hchar : run ⟨ended, before, .quoted read chars⟩ (quoteChar c) =
          some ⟨ended, before, .quoted read (chars ++ [c])⟩ := by
        rw [quoteChar, if_neg hescaped]
        simp [run, step, (not_or.mp hescaped).1]
      rw [run_append, hchar, Option.bind_some, ih, if_neg hescaped]

/-- A text written as a word joins the word that has begun, or is one. -/
theorem run_word (text : List Char) :
    run ⟨ended, before, .outside read⟩ (word text) =
      some ⟨ended, before, .outside (read ++ wordParts text)⟩ := by
  unfold word wordParts
  split
  next h =>
    rw [Bool.and_eq_true] at h
    exact run_verbatim (.of_all_isPlain h.2)
  next => exact run_quoted [] text

/-- A text stands for some words in a command, of which the last is still open at its end. -/
def Spells (text : List Char) (words : List Word) : Prop :=
  ∃ init last, words = init ++ [last] ∧ last ≠ [] ∧ ∀ ended before,
    run ⟨ended, before, .outside []⟩ text = some ⟨ended, before ++ init, .outside last⟩

namespace Spells

variable {a b : List Char} {words words' : List Word}

theorem verbatim (h : IsVerbatim a) (hne : a ≠ []) : Spells a [bareWord a] := by
  refine ⟨[], bareWord a, rfl, by simpa [bareWord] using hne, fun ended before => ?_⟩
  rw [List.append_nil]
  exact run_verbatim h

/-- What stands in front of a written word without a blank belongs to it. -/
theorem verbatim_append_word (h : IsVerbatim a) (text : List Char) :
    Spells (a ++ Shell.word text) [bareWord a ++ wordParts text] := by
  refine ⟨[], bareWord a ++ wordParts text, rfl, by simp [wordParts_ne_nil], fun ended before => ?_⟩
  rw [run_append, run_verbatim h, Option.bind_some, run_word]
  simp

theorem word (text : List Char) : Spells (word text) [wordParts text] :=
  verbatim_append_word (a := []) (.of_all_isPlain rfl) text

/-- Blanks separate words. -/
theorem append (ha : Spells a words) (hb : Spells b words') :
    Spells (a ++ ' ' :: b) (words ++ words') := by
  obtain ⟨init, last, rfl, hlast, hrun⟩ := ha
  obtain ⟨init', last', rfl, hlast', hrun'⟩ := hb
  refine ⟨init ++ [last] ++ init', last', by simp, hlast', fun ended before => ?_⟩
  have hblank : step ⟨ended, before ++ init, .outside last⟩ ' ' =
      some ⟨ended, before ++ (init ++ [last]), .outside []⟩ := by
    simp [step, stepOutside, endWord, hlast]
  rw [run_append, hrun, Option.bind_some, run_cons, hblank, Option.bind_some, hrun']
  simp

theorem run_and (h : Spells a words) (rest : List Char) :
    run ⟨ended, [], .outside []⟩ (a ++ " && ".toList ++ rest) =
      run ⟨ended ++ [words], [], .outside []⟩ rest := by
  obtain ⟨init, last, rfl, hlast, hrun⟩ := h
  have hand : run ⟨ended, init, .outside last⟩ " && ".toList =
      some ⟨ended ++ [init ++ [last]], [], .outside []⟩ := by
    simp [run, step, stepOutside, endWord, hlast]
  rw [run_append, run_append, hrun, Option.bind_some, List.nil_append, hand, Option.bind_some]

/-- Commands with an operator behind each of them. -/
theorem run_flatMap_and {α : Type} {l : List α} {text : α → List Char} {say : α → List Word}
    (h : ∀ x ∈ l, Spells (text x) (say x)) (rest : List Char) :
    run ⟨ended, [], .outside []⟩ ((l.flatMap fun x => text x ++ " && ".toList) ++ rest) =
      run ⟨ended ++ l.map say, [], .outside []⟩ rest := by
  induction l generalizing ended with
  | nil => simp
  | cons x l ih =>
    rw [List.forall_mem_cons] at h
    rw [List.flatMap_cons, List.append_assoc, h.1.run_and, ih h.2, List.map_cons,
      List.append_assoc, List.singleton_append]

/-- A text is read when it ends with a command that follows the operators in it. -/
theorem read?_eq {text : String} (h : Spells a words)
    (hrun : run .start text.toList = run ⟨ended, [], .outside []⟩ a) :
    read? text = some (ended ++ [words]) := by
  obtain ⟨init, last, rfl, hlast, hlastRun⟩ := h
  rw [read?, hrun, hlastRun]
  simp [endWord, hlast]

end Spells

theorem spells_shellWords {texts : List String} (h : texts ≠ []) :
    Spells (shellWords texts).toList (texts.map fun text => wordParts text.toList) := by
  have hsep : " ".toList = [' '] := rfl
  rw [shellWords, String.toList_intercalate, hsep]
  induction texts with
  | nil => exact absurd rfl h
  | cons text texts ih =>
    have hword : Spells (shellWord text).toList [wordParts text.toList] := by
      rw [shellWord, String.toList_ofList]
      exact .word text.toList
    cases texts with
    | nil => simpa using hword
    | cons next texts =>
      have happend := hword.append (ih (List.cons_ne_nil next texts))
      simpa [List.intercalate_cons_cons] using happend

theorem words?_shellWords {texts : List String} (h : texts ≠ []) :
    words? (shellWords texts) = some texts := by
  have hread : read? (shellWords texts) = some [texts.map fun text => wordParts text.toList] :=
    (spells_shellWords h).read?_eq rfl
  rw [words?, hread]
  simp [Function.comp_def]

section Commands

/-- Whether a text, written as a word, can be the name of a command: unless it has to be quoted, it
is not reserved and is no assignment. -/
def IsCommandName (name : String) : Prop :=
  name.toList.all isPlain → headsCommand (bareWord name.toList)

instance (name : String) : Decidable (IsCommandName name) := inferInstanceAs (Decidable (_ → _))

theorem headsCommand_quotedParts (read text : List Char) :
    headsCommand (quotedParts read text) := by
  obtain ⟨first, rest, h⟩ := exists_quotedParts_eq read text
  have hreserved : ∀ name ∈ reservedWords, bareWord name.toList ≠ .quoted first :: rest := by
    intro name _ heq
    cases hname : name.toList <;> simp [hname, bareWord] at heq
  have hassigns : isAssignment (.quoted first :: rest) = false := by
    simp [isAssignment, Part.isBare]
  simpa [headsCommand, isReserved, h, hassigns] using hreserved

theorem headsCommand_wordParts_iff {name : String} :
    headsCommand (wordParts name.toList) ↔ IsCommandName name := by
  unfold IsCommandName wordParts
  split
  next h =>
    rw [Bool.and_eq_true] at h
    simp [h.2]
  next h =>
    refine iff_of_true (headsCommand_quotedParts [] _) fun hall => ?_
    have hnil : name.toList = [] := by simpa [hall] using h
    rw [hnil]
    decide

/-- A simple command has all of its words and no assignments when the first word can start it. -/
theorem SimpleCommand.ofWords?_eq_some_iff {first : Word} {rest : List Word} {texts : List String} :
    ofWords? (first :: rest) = some ⟨[], texts⟩ ↔
      headsCommand first ∧ (first :: rest).map wordText = texts := by
  unfold ofWords?
  cases hassigns : isAssignment first <;> cases hreserved : isReserved first <;>
    simp [headsCommand, hassigns, hreserved]

/-- Texts written as the words of a command are the command with these words, when the first of
them can be the name of a command. -/
theorem SimpleCommand.ofWords?_wordParts_iff {texts : List String} (h : texts ≠ []) :
    ofWords? (texts.map fun text => wordParts text.toList) = some ⟨[], texts⟩ ↔
      ∀ name ∈ texts.head?, IsCommandName name := by
  obtain ⟨name, rest, rfl⟩ := List.exists_cons_of_ne_nil h
  rw [List.map_cons, ofWords?_eq_some_iff, headsCommand_wordParts_iff]
  simp [Function.comp_def]

/-- Commands with operators between them are read one by one. -/
theorem read?_intercalate_shellWords {commands : List (List String)} (h : commands ≠ [])
    (hwords : ∀ texts ∈ commands, texts ≠ []) :
    read? (" && ".intercalate (commands.map shellWords)) =
      some (commands.map fun texts => texts.map fun text => wordParts text.toList) := by
  obtain rfl | ⟨init, last, rfl⟩ := commands.eq_nil_or_concat'
  · exact absurd rfl h
  have hsplit : (" && ".intercalate ((init ++ [last]).map shellWords)).toList =
      (init.flatMap fun texts => (shellWords texts).toList ++ " && ".toList) ++
        (shellWords last).toList := by
    rw [String.toList_intercalate, List.map_append, List.map_append, List.map_singleton,
      List.map_singleton, Text.intercalate_concat, List.flatMap_map, List.flatMap_map]
  have hinit : ∀ texts ∈ init, Spells (shellWords texts).toList
      (texts.map fun text => wordParts text.toList) :=
    fun texts htexts => spells_shellWords (hwords texts (List.mem_append_left _ htexts))
  have hlast : Spells (shellWords last).toList (last.map fun text => wordParts text.toList) :=
    spells_shellWords (hwords last (List.mem_append_right _ List.mem_cons_self))
  rw [hlast.read?_eq ((congrArg _ hsplit).trans (Spells.run_flatMap_and hinit _)), List.nil_append,
    List.map_append, List.map_singleton]

/-- Commands that are written with operators between them run one by one with their words. -/
theorem commands?_intercalate_shellWords {commands : List (List String)} (h : commands ≠ [])
    (hwords : ∀ texts ∈ commands, texts ≠ [])
    (hnames : ∀ texts ∈ commands, ∀ name ∈ texts.head?, IsCommandName name) :
    commands? (" && ".intercalate (commands.map shellWords)) =
      some (commands.map fun texts => { words := texts }) := by
  rw [commands?, read?_intercalate_shellWords h hwords, Option.bind_some, mapM_eq_some_iff,
    List.map_map, List.map_map]
  exact List.map_congr_left fun texts htexts =>
    (SimpleCommand.ofWords?_wordParts_iff (hwords texts htexts)).mpr (hnames texts htexts)

end Commands

end HybridBuild.Shell
