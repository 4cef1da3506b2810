import HybridBuild.Proofs.Ninja.Grammar
import HybridBuild.Proofs.Text.Exchange
import Mathlib.Data.List.Basic

/-!
# Lines that are written are read

Escaping is undone by reading: a value comes back whole, and a path ends where the text
after it starts. So every line that is written comes back as it was, if its names are names,
its paths are not empty and hold no bar, and none of its values starts with a space, which
would count as one of the spaces in front of the value.
-/
namespace HybridBuild.Ninja

theorem readValue?_flatMap (value : List Char) :
    readValue? (value.flatMap valueChar) = some value := by
  induction value with
  | nil => rfl
  | cons c rest ih =>
    rw [List.flatMap_cons]
    by_cases hc : c = '$'
    · subst hc
      have hwritten : valueChar '$' = ['$', '$'] := rfl
      rw [hwritten, List.cons_append, List.singleton_append, readValue?_dollar rfl, ih]
      rfl
    · have hwritten : valueChar c = [c] := by simp [valueChar, hc]
      rw [hwritten, List.singleton_append, readValue?_plain hc, ih]
      rfl

/-- A text that can stand within a line. -/
def IsPlain (text : List Char) : Prop := ∀ c ∈ text, c ≠ '\n' ∧ ¬ isForeign c

instance (text : List Char) : Decidable (IsPlain text) :=
  List.decidableBAll (fun c => c ≠ '\n' ∧ ¬ isForeign c) text

/-- A path that can be written: it is not empty, and neither a bar nor the end of a line
stands in it. -/
def IsPath (path : String) : Prop := path ≠ "" ∧ '|' ∉ path.toList ∧ IsPlain path.toList

instance (path : String) : Decidable (IsPath path) :=
  inferInstanceAs (Decidable (path ≠ "" ∧ '|' ∉ path.toList ∧ IsPlain path.toList))

/-- The characters of a path are read one by one. -/
theorem readPaths?_flatMap {path : List Char} (hbar : '|' ∉ path) (hplain : IsPlain path)
    (done : List String) (before text : List Char) :
    readPaths? done before (path.flatMap pathChar ++ text) =
      readPaths? done (path.reverse ++ before) text := by
  induction path generalizing before with
  | nil => rfl
  | cons c rest ih =>
    rw [List.mem_cons, not_or] at hbar
    obtain ⟨hc, hplain⟩ := List.forall_mem_cons.mp hplain
    have hrest := ih hbar.2 hplain (c :: before)
    rw [List.flatMap_cons, List.append_assoc, List.reverse_cons, List.append_assoc,
      List.singleton_append, ← hrest]
    by_cases hescapable : isEscapable c
    · have hwritten : pathChar c = ['$', c] := by
        simp only [isEscapable, Bool.or_eq_true, decide_eq_true_eq] at hescapable
        rcases hescapable with (rfl | rfl) | rfl <;> rfl
      rw [hwritten, List.cons_append, List.singleton_append, readPaths?_dollar hescapable]
    · have hwritten : pathChar c = [c] := by
        simp only [isEscapable, Bool.or_eq_true, decide_eq_true_eq, not_or] at hescapable
        simp [pathChar, hescapable, hc.1]
      rw [hwritten, List.singleton_append, readPaths?_plain hescapable (Ne.symm hbar.1)]

/-- A text at whose start every path ends. -/
def EndsPath (text : List Char) : Prop := ∀ c, text.head? = some c → c = ' ' ∨ c = '|' ∨ c = ':'

theorem readPaths?_of_endsPath {text : List Char} (h : EndsPath text) (done : List String)
    (path : List Char) : readPaths? done path text = readPaths? (endPath done path) [] text := by
  cases text with
  | nil => simp [readPaths?, endPath]
  | cons c rest =>
    rcases h c rfl with rfl | hc
    · rw [readPaths?_space, readPaths?_space]
      rfl
    · rw [readPaths?_stop hc, readPaths?_stop hc]
      rfl

/-- Spaces in front of paths do not matter. -/
theorem readPaths?_skipSpaces (done : List String) (text : List Char) :
    readPaths? done [] (skipSpaces text) = readPaths? done [] text := by
  induction text with
  | nil => rfl
  | cons c rest ih =>
    by_cases hc : c = ' '
    · subst hc
      have hskip : skipSpaces (' ' :: rest) = skipSpaces rest := rfl
      rw [hskip, ih, readPaths?_space]
      rfl
    · simp [skipSpaces, hc]

def spacedPaths (paths : List String) : List Char :=
  paths.flatMap fun path => ' ' :: path.toList.flatMap pathChar

/-- Paths after a bar, or nothing if there are none. -/
def barredPaths (paths : List String) : List Char :=
  if paths.isEmpty then [] else ' ' :: '|' :: spacedPaths paths

theorem toList_pathGroup (paths : List String) :
    (pathGroup " " paths).toList = spacedPaths paths := by
  cases paths with
  | nil => rfl
  | cons first rest =>
    have hgroup := Text.intercalate_cons [' '] (escapePath first).toList
      (rest.map fun path => (escapePath path).toList)
    simpa [pathGroup, spacedPaths, escapePath, List.flatMap_map, Function.comp_def] using hgroup

theorem toList_pathGroup_bar (paths : List String) :
    (pathGroup " | " paths).toList = barredPaths paths := by
  cases paths with
  | nil => rfl
  | cons first rest =>
    have hspaced := toList_pathGroup (first :: rest)
    simp only [pathGroup, List.isEmpty_cons, Bool.false_eq_true, if_false,
      String.toList_append, barredPaths] at hspaced ⊢
    rw [← hspaced]
    rfl

theorem endsPath_spacedPaths {text : List Char} (h : EndsPath text) (paths : List String) :
    EndsPath (spacedPaths paths ++ text) := by
  cases paths with
  | nil => exact h
  | cons path rest => simp [EndsPath, spacedPaths]

theorem endsPath_barredPaths {text : List Char} (h : EndsPath text) (paths : List String) :
    EndsPath (barredPaths paths ++ text) := by
  unfold barredPaths
  split
  · exact h
  · simp [EndsPath]

/-- Paths that are written are read, by induction on the paths. -/
theorem readPaths?_spacedPaths {paths : List String} (hpaths : ∀ path ∈ paths, IsPath path)
    {text : List Char} (h : EndsPath text) (done : List String) :
    readPaths? done [] (spacedPaths paths ++ text) = readPaths? (paths.reverse ++ done) [] text := by
  induction paths generalizing done with
  | nil => rfl
  | cons path rest ih =>
    obtain ⟨hpath, hrest⟩ := List.forall_mem_cons.mp hpaths
    obtain ⟨hne, hbar, hplain⟩ := hpath
    have hend : endPath done (path.toList.reverse ++ []) = path :: done := by
      simp [endPath, hne]
    calc readPaths? done [] (spacedPaths (path :: rest) ++ text)
        = readPaths? done [] (path.toList.flatMap pathChar ++ (spacedPaths rest ++ text)) := by
          simp [spacedPaths, readPaths?_space, endPath]
      _ = readPaths? (path :: done) [] (spacedPaths rest ++ text) := by
          rw [readPaths?_flatMap hbar hplain, readPaths?_of_endsPath (endsPath_spacedPaths h rest),
            hend]
      _ = readPaths? ((path :: rest).reverse ++ done) [] text := by
          rw [ih hrest]
          simp

/-- A text at whose start a list of paths ends: there is none, or a colon. -/
def EndsList (text : List Char) : Prop := text = [] ∨ text.head? = some ':'

theorem EndsList.endsPath {text : List Char} (h : EndsList text) : EndsPath text := by
  rcases h with rfl | hhead
  · simp [EndsPath]
  · intro c hc
    rw [hhead] at hc
    exact .inr (.inr (Option.some.inj hc).symm)

theorem EndsList.read {text : List Char} (h : EndsList text) (done : List String) :
    readPaths? done [] text = some (done.reverse, text) := by
  cases text with
  | nil => simp [readPaths?, endPath]
  | cons c rest =>
    have hc : c = ':' := by simpa [EndsList] using h
    rw [readPaths?_stop (.inr hc)]
    rfl

/-- A list of paths and the implicit paths after it. -/
def pathLists (paths implicit : List String) : List Char :=
  spacedPaths paths ++ barredPaths implicit

/-- A list of paths and the implicit paths after it are read one after the other. -/
theorem readPaths?_pathLists {paths implicit : List String} (hpaths : ∀ path ∈ paths, IsPath path)
    (himplicit : ∀ path ∈ implicit, IsPath path) {text : List Char} (h : EndsList text) :
    ∃ barred, readPaths? [] [] (pathLists paths implicit ++ text) = some (paths, barred) ∧
      readBarred? barred = some (implicit, text) := by
  rw [pathLists, List.append_assoc, readPaths?_spacedPaths hpaths (endsPath_barredPaths h.endsPath implicit)]
  cases implicit with
  | nil =>
    refine ⟨text, by rw [barredPaths]; simpa using h.read paths.reverse, ?_⟩
    cases text with
    | nil => rfl
    | cons c rest =>
      have hc : c = ':' := by simpa [EndsList] using h
      subst hc
      rfl
  | cons first rest =>
    refine ⟨'|' :: spacedPaths (first :: rest) ++ text, by
      simp [barredPaths, readPaths?_space, readPaths?_stop, endPath], ?_⟩
    have hread : readPaths? [] [] (spacedPaths (first :: rest) ++ text) =
        some (first :: rest, text) := by
      rw [readPaths?_spacedPaths himplicit h.endsPath, h.read]
      simp
    rw [List.cons_append, readBarred?, hread]
    simp [spacedPaths]

theorem skipSpaces_of_head?_ne {text : List Char} (h : text.head? ≠ some ' ') :
    skipSpaces text = text := by
  cases text with
  | nil => rfl
  | cons c rest =>
    have hc : c ≠ ' ' := by simpa using h
    simp [skipSpaces, hc]

/-- A name: some of the characters that names are made of. -/
def IsName (name : String) : Prop := name ≠ "" ∧ ∀ c ∈ name.toList, isNameChar c

instance (name : String) : Decidable (IsName name) :=
  have : Decidable (∀ c ∈ name.toList, isNameChar c) :=
    List.decidableBAll (fun c => isNameChar c) name.toList
  inferInstanceAs (Decidable (name ≠ "" ∧ ∀ c ∈ name.toList, isNameChar c))

/-- A text at whose start every name ends. -/
def EndsName (text : List Char) : Prop := ∀ c, text.head? = some c → ¬ isNameChar c

theorem endsName_nil : EndsName [] := by simp [EndsName]

theorem endsName_cons {c : Char} (hc : ¬ isNameChar c) (text : List Char) : EndsName (c :: text) := by
  rintro _ ⟨⟩
  exact hc

/-- A name is read up to the first character that is not part of one. -/
theorem readName_append {name : String} (hname : IsName name) {text : List Char}
    (hend : EndsName text) :
    readName (name.toList ++ text) = (name, skipSpaces text) := by
  have htake : text.takeWhile isNameChar = [] := by
    cases text with
    | nil => rfl
    | cons c rest => exact List.takeWhile_cons_of_neg (hend c rfl)
  have hdrop : text.dropWhile isNameChar = text := by
    cases text with
    | nil => rfl
    | cons c rest => exact List.dropWhile_cons_of_neg (hend c rfl)
  rw [readName, List.takeWhile_append_of_pos hname.2, List.dropWhile_append_of_pos hname.2,
    htake, hdrop, List.append_nil, String.ofList_toList]

/-- No sign, space or comment starts with a character of a name. -/
theorem IsName.exists_cons {name : String} (h : IsName name) (text : List Char) :
    ∃ c rest, name.toList ++ text = c :: rest ∧ isNameChar c := by
  cases hname : name.toList with
  | nil => exact absurd (String.toList_eq_nil_iff.mp hname) h.1
  | cons c rest => exact ⟨c, rest ++ text, rfl, h.2 c (hname ▸ List.mem_cons_self)⟩

theorem IsName.skipSpaces_append {name : String} (h : IsName name) (text : List Char) :
    skipSpaces (name.toList ++ text) = name.toList ++ text := by
  obtain ⟨c, rest, htext, hc⟩ := h.exists_cons text
  rw [htext]
  refine skipSpaces_of_head?_ne ?_
  rintro ⟨⟩
  cases hc

def IsValue (value : String) : Prop := IsPlain value.toList ∧ value.toList.head? ≠ some ' '

instance (value : String) : Decidable (IsValue value) :=
  inferInstanceAs (Decidable (IsPlain value.toList ∧ value.toList.head? ≠ some ' '))

def bindingText (key value : String) : List Char :=
  key.toList ++ ' ' :: '=' :: ' ' :: value.toList.flatMap valueChar

theorem head?_flatMap_valueChar {value : List Char} (h : value.head? ≠ some ' ') :
    (value.flatMap valueChar).head? ≠ some ' ' := by
  cases value with
  | nil => simp
  | cons c rest =>
    have hc : c ≠ ' ' := by simpa using h
    by_cases hdollar : c = '$'
    · simp [valueChar, hdollar]
    · simp [valueChar, hdollar, hc]

theorem readBinding?_bindingText {key value : String} (hkey : IsName key) (hvalue : IsValue value) :
    readBinding? (bindingText key value) = some (key, value) := by
  have hname : readName (bindingText key value) =
      (key, '=' :: ' ' :: value.toList.flatMap valueChar) := by
    rw [bindingText, readName_append hkey (endsName_cons (by decide) _)]
    rfl
  have hsign : readSign? '=' ('=' :: ' ' :: value.toList.flatMap valueChar) =
      some (value.toList.flatMap valueChar) :=
    congrArg some (skipSpaces_of_head?_ne (head?_flatMap_valueChar hvalue.2))
  simp [readBinding?, hname, hsign, readValue?_flatMap, hkey.1]

namespace Edge

/-- The name under which an edge mentions its rule. -/
def ruleName (e : Edge) : String := e.rule.getD groupRule

/-- An edge as it is written. -/
def text (e : Edge) : List Char :=
  pathLists e.outputs e.implicitOutputs ++
    ':' :: ' ' :: (e.ruleName.toList ++ pathLists e.inputs e.implicitInputs)

/-- An edge that can be written. -/
structure IsReadable (e : Edge) : Prop where
  rule : ∀ name ∈ e.rule, IsName name ∧ name ≠ groupRule
  outputs_ne : e.outputs ++ e.implicitOutputs ≠ []
  outputs : ∀ path ∈ e.outputs, IsPath path
  implicitOutputs : ∀ path ∈ e.implicitOutputs, IsPath path
  inputs : ∀ path ∈ e.inputs, IsPath path
  implicitInputs : ∀ path ∈ e.implicitInputs, IsPath path

end Edge

theorem isName_groupRule : IsName groupRule := by decide

theorem Edge.IsReadable.isName_ruleName {e : Edge} (h : e.IsReadable) : IsName e.ruleName := by
  unfold Edge.ruleName
  cases hrule : e.rule with
  | none => exact isName_groupRule
  | some name => exact (h.rule name hrule).1

theorem EndsName.pathLists_append {text : List Char} (h : EndsName text)
    (paths implicit : List String) : EndsName (pathLists paths implicit ++ text) := by
  cases paths with
  | cons path rest => exact endsName_cons (by decide) _
  | nil =>
    cases implicit with
    | cons path rest => exact endsName_cons (by decide) _
    | nil => exact h

theorem readEdge?_text {e : Edge} (h : e.IsReadable) :
    readEdge? (skipSpaces e.text) = some e := by
  have hname := h.isName_ruleName
  obtain ⟨barred, hout, hbarred⟩ := readPaths?_pathLists h.outputs h.implicitOutputs
    (.inr rfl : EndsList (':' :: ' ' :: (e.ruleName.toList ++ pathLists e.inputs e.implicitInputs)))
  obtain ⟨barred', hin, hbarred'⟩ := readPaths?_pathLists h.inputs h.implicitInputs
    (.inl rfl : EndsList [])
  have hsign : readSign? ':' (':' :: ' ' :: (e.ruleName.toList ++ pathLists e.inputs e.implicitInputs)) =
      some (e.ruleName.toList ++ pathLists e.inputs e.implicitInputs) :=
    congrArg some (hname.skipSpaces_append _)
  have hrule : (if e.ruleName = groupRule then none else some e.ruleName) = e.rule := by
    unfold Edge.ruleName
    cases hrule : e.rule with
    | none => rfl
    | some name => exact if_neg (h.rule name hrule).2
  have hne : (e.outputs ++ e.implicitOutputs).isEmpty = false :=
    List.isEmpty_eq_false_iff.mpr h.outputs_ne
  have hnameEmpty : e.ruleName.isEmpty = false := by simpa using hname.1
  have hend := endsName_nil.pathLists_append e.inputs e.implicitInputs
  rw [← Edge.text] at hout
  rw [List.append_nil] at hin hend
  unfold readEdge?
  rw [readPaths?_skipSpaces, hout, Option.bind_eq_bind, Option.bind_some]
  simp only [hbarred, hsign, Option.bind_eq_bind, Option.bind_some,
    readName_append hname hend, readPaths?_skipSpaces, hin, hbarred', hrule,
    hne, hnameEmpty]
  rfl

theorem readRuleName?_toList {name : String} (hname : IsName name) (hne : name ≠ groupRule) :
    readRuleName? name.toList = some name := by
  have hread : readName name.toList = (name, []) := by
    rw [← List.append_nil name.toList, readName_append hname endsName_nil]
    rfl
  simp [readRuleName?, hread, hname.1, hne]

def wordLine (word : String) (rest : List Char) : List Char := word.toList ++ rest

namespace Line

/-- A line as it is written. -/
def text : Line → List Char
  | .blank => []
  | .comment text => '#' :: text.toList
  | .binding key value => bindingText key value
  | .indented key value => ' ' :: ' ' :: bindingText key value
  | .rule name => wordLine "rule" (' ' :: name.toList)
  | .edge e => wordLine "build" e.text

/-- A line that can be written. -/
def IsReadable : Line → Prop
  | .blank => True
  | .comment text => IsPlain text.toList
  | .binding key value => (IsName key ∧ key ∉ "rule" :: "build" :: otherWords) ∧ IsValue value
  | .indented key value => IsName key ∧ IsValue value
  | .rule name => IsName name ∧ name ≠ groupRule
  | .edge e => e.IsReadable

end Line

/-- The first word of a line decides how the line is read. -/
theorem readLine?_append {word : String} (hword : IsName word) {text : List Char}
    (hend : EndsName text) :
    readLine? (word.toList ++ text) =
      if word = "rule" then (readRuleName? (skipSpaces text)).map .rule
      else if word = "build" then (readEdge? (skipSpaces text)).map .edge
      else if otherWords.contains word then none
      else (readBinding? (word.toList ++ text)).map fun (key, value) => .binding key value := by
  obtain ⟨c, rest, htext, hc⟩ := hword.exists_cons text
  have hcomment : c ≠ '#' := by rintro rfl; cases hc
  have hspace : c ≠ ' ' := by rintro rfl; cases hc
  rw [readLine?, hword.skipSpaces_append, readName_append hword hend]
  simp only [htext, List.isEmpty_cons, List.head?_cons, Option.some.injEq, hcomment, hspace,
    Bool.false_eq_true, if_false]

theorem readLine?_text {line : Line} (h : line.IsReadable) : readLine? line.text = some line := by
  cases line with
  | blank => rfl
  | comment text =>
    have hskip : skipSpaces ('#' :: text.toList) = '#' :: text.toList := rfl
    rw [Line.text, readLine?, hskip, List.isEmpty_cons, if_neg Bool.false_ne_true,
      List.head?_cons, if_pos (Eq.refl (some '#')), List.tail_cons, String.ofList_toList]
  | binding key value =>
    obtain ⟨⟨hkey, hwords⟩, hvalue⟩ := h
    simp only [List.mem_cons, not_or] at hwords
    obtain ⟨hrule, hbuild, hother⟩ := hwords
    have hcontains : otherWords.contains key = false := by simpa using hother
    have hline := readLine?_append hkey (endsName_cons (c := ' ') (by decide)
      ('=' :: ' ' :: value.toList.flatMap valueChar))
    rw [← bindingText, if_neg hrule, if_neg hbuild, hcontains, if_neg Bool.false_ne_true,
      readBinding?_bindingText hkey hvalue] at hline
    exact hline
  | indented key value =>
    obtain ⟨hkey, hvalue⟩ := h
    have hskip : skipSpaces (' ' :: ' ' :: bindingText key value) = bindingText key value :=
      hkey.skipSpaces_append _
    obtain ⟨c, rest, htext, hc⟩ := hkey.exists_cons (' ' :: '=' :: ' ' :: value.toList.flatMap valueChar)
    rw [← bindingText] at htext
    have hcomment : c ≠ '#' := by rintro rfl; cases hc
    have hhead : (bindingText key value).head? ≠ some '#' := by simpa [htext] using hcomment
    have hempty : (bindingText key value).isEmpty = false := by rw [htext]; rfl
    rw [Line.text, readLine?, hskip, hempty, if_neg Bool.false_ne_true, if_neg hhead, List.head?_cons,
      if_pos (Eq.refl (some ' ')), readBinding?_bindingText hkey hvalue]
    rfl
  | rule name =>
    obtain ⟨hname, hne⟩ := h
    have hword : IsName "rule" := by decide
    have hskip : skipSpaces (' ' :: name.toList) = name.toList := by
      have hname := hname.skipSpaces_append []
      rwa [List.append_nil] at hname
    rw [Line.text, wordLine, readLine?_append hword (endsName_cons (by decide) _), if_pos rfl, hskip,
      readRuleName?_toList hname hne]
    rfl
  | edge e =>
    have hword : IsName "build" := by decide
    have hend : EndsName e.text := (endsName_cons (by decide) _).pathLists_append _ _
    rw [Line.text, wordLine, readLine?_append hword hend, if_neg (by decide), if_pos rfl, readEdge?_text h]
    rfl

section IsPlain

variable {a b text : List Char}

theorem isPlain_append (ha : IsPlain a) (hb : IsPlain b) : IsPlain (a ++ b) :=
  List.forall_mem_append.mpr ⟨ha, hb⟩

theorem isPlain_flatMap {α : Type} {write : α → List Char} {items : List α}
    (h : ∀ item ∈ items, IsPlain (write item)) : IsPlain (items.flatMap write) := by
  intro c hc
  obtain ⟨item, hitem, hmem⟩ := List.mem_flatMap.mp hc
  exact h item hitem c hmem

theorem IsName.isPlain {name : String} (h : IsName name) : IsPlain name.toList := by
  intro c hc
  have hname := h.2 c hc
  constructor
  · rintro rfl
    cases hname
  · intro hforeign
    simp only [isForeign, Bool.or_eq_true, decide_eq_true_eq] at hforeign
    rcases hforeign with rfl | rfl <;> cases hname

theorem IsPlain.valueChars (h : IsPlain text) : IsPlain (text.flatMap valueChar) := by
  refine isPlain_flatMap fun c hc => ?_
  unfold valueChar
  split
  · decide
  · simpa [IsPlain] using h c hc

theorem IsPlain.pathChars (h : IsPlain text) : IsPlain (text.flatMap pathChar) := by
  refine isPlain_flatMap fun c hc => ?_
  have hdollar : '$' ≠ '\n' ∧ ¬ isForeign '$' := by decide
  unfold pathChar
  split <;> simpa [IsPlain, hdollar] using h c hc

theorem isPlain_pathLists {paths implicit : List String} (hpaths : ∀ path ∈ paths, IsPath path)
    (himplicit : ∀ path ∈ implicit, IsPath path) : IsPlain (pathLists paths implicit) := by
  have hspaced : ∀ {paths : List String}, (∀ path ∈ paths, IsPath path) →
      IsPlain (spacedPaths paths) := fun hpaths => isPlain_flatMap fun path hpath =>
    isPlain_append (a := [' ']) (by decide) (hpaths path hpath).2.2.pathChars
  refine isPlain_append (hspaced hpaths) ?_
  unfold barredPaths
  split
  · decide
  · exact isPlain_append (a := [' ', '|']) (by decide) (hspaced himplicit)

theorem isPlain_bindingText {key value : String} (hkey : IsName key) (hvalue : IsValue value) :
    IsPlain (bindingText key value) :=
  isPlain_append hkey.isPlain
    (isPlain_append (a := [' ', '=', ' ']) (by decide) hvalue.1.valueChars)

theorem Edge.IsReadable.isPlain {e : Edge} (h : e.IsReadable) : IsPlain e.text :=
  isPlain_append (isPlain_pathLists h.outputs h.implicitOutputs)
    (isPlain_append (a := [':', ' ']) (by decide)
      (isPlain_append h.isName_ruleName.isPlain (isPlain_pathLists h.inputs h.implicitInputs)))

theorem Line.IsReadable.isPlain {line : Line} (h : line.IsReadable) : IsPlain line.text := by
  cases line with
  | blank => decide
  | comment text => exact isPlain_append (a := ['#']) (by decide) h
  | binding key value => exact isPlain_bindingText h.1.1 h.2
  | indented key value =>
    exact isPlain_append (a := [' ', ' ']) (by decide) (isPlain_bindingText h.1 h.2)
  | rule name => exact isPlain_append (a := "rule ".toList) (by decide) h.1.isPlain
  | edge e => exact isPlain_append (a := "build".toList) (by decide) (Edge.IsReadable.isPlain h)

end IsPlain

end HybridBuild.Ninja
