import HybridBuild.Proofs.Scripts.Starlark
import HybridBuild.Proofs.Traverse
import Mathlib.Data.List.Basic

/-!
# Scripts are read part by part

The reader goes through a text character by character, so parts of a script that each end a
line can be read one after the other. A name, a text between quotes and a list of such texts
are read as they are written, wherever they stand.
-/
namespace HybridBuild.Starlark

variable {s s' s'' : Reader} {a b : List Char} {lines lines' : List Line}

/-- A text is read after another one by going on where that one ends, by induction on it. -/
theorem run_append_eq (s : Reader) (a b : List Char) :
    run s (a ++ b) = (run s a).bind fun (s', lines) =>
      (run s' b).map fun (s'', rest) => (s'', lines ++ rest) := by
  induction a generalizing s with
  | nil => simp [run]
  | cons c a ih =>
    rw [List.cons_append, run, run]
    cases step s c with
    | none => rfl
    | some found =>
      obtain ⟨s', ended⟩ := found
      cases hrun : run s' a with
      | none => simp [ih, hrun]
      | some found =>
        obtain ⟨s'', lines⟩ := found
        cases hrest : run s'' b <;> simp [ih, hrun, hrest]

theorem run_append (ha : run s a = some (s', lines)) (hb : run s' b = some (s'', lines')) :
    run s (a ++ b) = some (s'', lines ++ lines') := by
  simp [run_append_eq, ha, hb]

/-- A part of a script says some statements; `below` and `above` tell whether indented lines
stand after it and in front of its first statement. -/
def Says (text : List Char) (below above : Bool) (statements : List Statement) : Prop :=
  readPart? below text = some (above, statements)

theorem says_iff {text : List Char} {below above : Bool} {statements : List Statement} :
    Says text below above statements ↔
      ∃ lines, run .start text = some (.start, lines) ∧
        lines.foldr addLine (some (below, [])) = some (above, statements) := by
  unfold Says readPart?
  constructor
  · intro h
    split at h
    next lines hrun => exact ⟨lines, hrun, h⟩
    next => cases h
  · rintro ⟨lines, hrun, h⟩
    rw [hrun]
    exact h

/-- The statements after some lines stay behind those of the lines. -/
theorem foldr_addLine (lines : List Line) (below : Bool) (tail : List Statement) :
    lines.foldr addLine (some (below, tail)) =
      (lines.foldr addLine (some (below, []))).map fun (above, statements) =>
        (above, statements ++ tail) := by
  induction lines with
  | nil => rfl
  | cons line lines ih =>
    rw [List.foldr_cons, List.foldr_cons, ih]
    cases lines.foldr addLine (some (below, [])) with
    | none => rfl
    | some found =>
      obtain ⟨body, statements⟩ := found
      simp only [Option.map_some, addLine]
      split
      · rfl
      · cases readStatement? line.trees with
        | none => rfl
        | some statement =>
          dsimp only
          split <;> rfl

theorem says_nil (below : Bool) : Says [] below below [] := rfl

theorem Says.append {below between above : Bool} {first second : List Statement}
    (ha : Says a between above first) (hb : Says b below between second) :
    Says (a ++ b) below above (first ++ second) := by
  obtain ⟨lines, hrun, hlines⟩ := says_iff.mp ha
  obtain ⟨lines', hrun', hlines'⟩ := says_iff.mp hb
  refine says_iff.mpr ⟨lines ++ lines', run_append hrun hrun', ?_⟩
  rw [List.foldr_append, hlines', foldr_addLine, hlines]
  rfl

theorem Says.lineFeed {below above : Bool} {statements : List Statement}
    (h : Says a below above statements) : Says ('\n' :: a) below above statements := by
  have hempty : Says ['\n'] above above [] := by cases above <;> rfl
  exact hempty.append h

theorem Says.flatMap {α : Type} {write : α → List Char} {say : α → List Statement} {below : Bool}
    {l : List α} (h : ∀ a ∈ l, Says (write a) below below (say a)) :
    Says (l.flatMap write) below below (l.flatMap say) := by
  induction l with
  | nil => exact says_nil below
  | cons a l ih =>
    obtain ⟨ha, hl⟩ := List.forall_mem_cons.mp h
    exact ha.append (ih hl)

theorem read?_of_says {script : String} {statements : List Statement}
    (h : Says script.toList false false statements) : read? script = some statements := by
  rw [read?, h]

/-- A script is not read if a beginning of it is not. -/
theorem read?_eq_none {script : String} (hbegin : a <+: script.toList) (h : run .start a = none) :
    read? script = none := by
  obtain ⟨b, hb⟩ := hbegin
  rw [read?, readPart?, ← hb, run_append_eq, h, Option.bind_none]

/-- An indented line belongs to the body of the function above it. -/
theorem says_of_run_indented {text : List Char} {line : Line}
    (hrun : run .start text = some (.start, [line])) (hindent : 0 < line.indent) (below : Bool) :
    Says text below true [] :=
  says_iff.mpr ⟨_, hrun, by simp [addLine, hindent]⟩

/-- A single line that is not indented says its statement. -/
theorem says_of_run {text : List Char} {trees : List Tree} {statement : Statement}
    (hrun : run .start text = some (.start, [⟨0, trees⟩]))
    (hread : readStatement? trees = some statement) {below : Bool}
    (hbody : statement.needsBody = below) : Says text below false [statement] :=
  says_iff.mpr ⟨_, hrun, by simp [addLine, hread, hbody]⟩

section Trees

variable {indent : Nat} {level : List Tree} {outer : List (Char × List Tree)}

/-- Characters that stand for themselves between double quotes. -/
def IsVerbatim (text : List Char) : Prop := ∀ c ∈ text, c ≠ '"' ∧ c ≠ '\\' ∧ c ≠ '\n'

instance (text : List Char) : Decidable (IsVerbatim text) := List.decidableBAll _ _

theorem IsVerbatim.append {first second : List Char} (hfirst : IsVerbatim first)
    (hsecond : IsVerbatim second) : IsVerbatim (first ++ second) :=
  List.forall_mem_append.mpr ⟨hfirst, hsecond⟩

/-- A text that stands for itself between double quotes. -/
def IsQuotable (text : String) : Prop := text ≠ "" ∧ IsVerbatim text.toList

/-- A name that can be bound: its characters may stand in a name, and the first is no digit. -/
def IsName (name : String) : Prop :=
  name.toList.head?.any (fun c => !c.isDigit) = true ∧ name.toList.all isNameChar = true

instance (name : String) : Decidable (IsName name) := inferInstanceAs (Decidable (_ ∧ _))

theorem IsName.exists_cons {name : String} (h : IsName name) :
    ∃ c rest, name.toList = c :: rest ∧ c.isDigit = false ∧ isNameChar c ∧
      ∀ d ∈ rest, isNameChar d := by
  obtain ⟨hhead, hchars⟩ := h
  cases hname : name.toList with
  | nil => simp [hname] at hhead
  | cons c rest =>
    rw [hname, List.all_eq_true] at hchars
    obtain ⟨hfirst, hrest⟩ := List.forall_mem_cons.mp hchars
    exact ⟨c, rest, rfl, by simpa [hname] using hhead, hfirst, hrest⟩

theorem IsName.append {name : String} (h : IsName name) (rest : String)
    (hrest : rest.toList.all isNameChar = true) : IsName (name ++ rest) := by
  obtain ⟨c, others, hname, hdigit, -⟩ := h.exists_cons
  unfold IsName
  rw [String.toList_append, List.all_append, h.2, hrest, hname]
  simp [hdigit]

theorem IsName.notMem {name : String} {c : Char} (h : IsName name) (hc : isNameChar c = false) :
    c ∉ name.toList := by
  intro hmem
  rw [List.all_eq_true.mp h.2 c hmem] at hc
  cases hc

theorem IsName.isVerbatim {name : String} (h : IsName name) : IsVerbatim name.toList := by
  intro c hc
  have hchar := List.all_eq_true.mp h.2 c hc
  refine ⟨?_, ?_, ?_⟩ <;> rintro rfl <;> cases hchar

theorem run_quoted {text : List Char} (h : IsVerbatim text) (read : List Char) :
    run ⟨.quoted '"' read, indent, level, outer⟩ text =
      some (⟨.quoted '"' (text.reverse ++ read), indent, level, outer⟩, []) := by
  induction text generalizing read with
  | nil => rfl
  | cons c text ih =>
    obtain ⟨⟨hquote, hslash, hline⟩, htext⟩ := List.forall_mem_cons.mp h
    simp [run, step, hquote, hslash, hline, ih htext]

def quoted (text : String) : List Char := '"' :: (text.toList ++ ['"'])

theorem run_quoted_text {text : String} (h : IsQuotable text) :
    run ⟨.code, indent, level, outer⟩ (quoted text) =
      some (⟨.code, indent, .text text :: level, outer⟩, []) := by
  have hopen : run ⟨.code, indent, level, outer⟩ ['"'] =
      some (⟨.quoted '"' [], indent, level, outer⟩, []) := rfl
  have hclose : run ⟨.quoted '"' (text.toList.reverse ++ []), indent, level, outer⟩ ['"'] =
      some (⟨.code, indent, .text text :: level, outer⟩, []) := by
    simp [run, step, Reader.push, h.1]
  exact run_append hopen (run_append (run_quoted h.2 []) hclose)

theorem run_nameChars {text : List Char} (h : ∀ c ∈ text, isNameChar c) (read : List Char) :
    run ⟨.name read, indent, level, outer⟩ text =
      some (⟨.name (text.reverse ++ read), indent, level, outer⟩, []) := by
  induction text generalizing read with
  | nil => rfl
  | cons c text ih =>
    obtain ⟨hc, htext⟩ := List.forall_mem_cons.mp h
    simp [run, step, hc, ih htext]

theorem stepEnd_nameChar {c : Char} (hname : isNameChar c) (hdigit : c.isDigit = false) :
    stepEnd s c = some ({ s with mode := .name [c] }, []) := by
  have hline : c ≠ '\n' := by rintro rfl; cases hname
  have hspace : c ≠ ' ' := by rintro rfl; cases hname
  have hcomment : c ≠ '#' := by rintro rfl; cases hname
  simp [stepEnd, stepCode, hline, hspace, hcomment, hdigit, hname]

/-- A name is read between trees. -/
theorem run_name {name : String} (h : IsName name) :
    run ⟨.code, indent, level, outer⟩ name.toList =
      some (⟨.name name.toList.reverse, indent, level, outer⟩, []) := by
  obtain ⟨c, rest, hname, hdigit, hfirst, hrest⟩ := h.exists_cons
  rw [hname]
  simp [run, step, stepEnd_nameChar hfirst hdigit, run_nameChars hrest]

/-- A name is read at the start of a line. -/
theorem run_start_name {name : String} (h : IsName name) :
    run .start name.toList = some (⟨.name name.toList.reverse, 0, [], []⟩, []) := by
  obtain ⟨c, rest, hname, hdigit, hfirst, hrest⟩ := h.exists_cons
  rw [hname]
  have hspace : c ≠ ' ' := by rintro rfl; cases hfirst
  simp [run, step, Reader.start, hspace, stepEnd_nameChar hfirst hdigit, run_nameChars hrest]

def listTrees (values : List String) : List Tree :=
  [Tree.sign ','].intercalate (values.map fun value => [.text value])

theorem toList_quotedList (values : List String) :
    (Scripts.quotedList values).toList = [',', ' '].intercalate (values.map quoted) := by
  have hquoted : (String.toList ∘ fun item => "\"" ++ item ++ "\"") = quoted := by
    funext item
    simp [quoted]
  rw [Scripts.quotedList, String.toList_intercalate, List.map_map, hquoted]
  rfl

/-- A list of texts is read between its brackets, by induction on the texts. -/
theorem run_quotedList {values : List String} (h : ∀ value ∈ values, IsQuotable value) :
    run ⟨.code, indent, level, outer⟩ (Scripts.quotedList values).toList =
      some (⟨.code, indent, (listTrees values).reverse ++ level, outer⟩, []) := by
  rw [toList_quotedList]
  induction values generalizing level with
  | nil => rfl
  | cons value rest ih =>
    obtain ⟨hvalue, hrest⟩ := List.forall_mem_cons.mp h
    cases rest with
    | nil =>
      rw [List.map_singleton, List.intercalate_singleton, run_quoted_text hvalue]
      rfl
    | cons next rest =>
      have hcomma : run ⟨.code, indent, .text value :: level, outer⟩ [',', ' '] =
          some (⟨.code, indent, .sign ',' :: .text value :: level, outer⟩, []) := rfl
      have htrees : (listTrees (value :: next :: rest)).reverse ++ level =
          (listTrees (next :: rest)).reverse ++ .sign ',' :: .text value :: level := by
        simp [listTrees, List.intercalate_cons_cons]
      rw [List.map_cons, List.map_cons, List.intercalate_cons_cons, htrees, List.append_assoc]
      exact run_append (run_quoted_text hvalue) (run_append hcomma (ih hrest))

theorem items_listTrees (values : List String) :
    items (listTrees values) = values.map fun value => [.text value] := by
  induction values with
  | nil => rfl
  | cons value rest ih =>
    cases rest with
    | nil => rfl
    | cons next rest =>
      have htrees : listTrees (value :: next :: rest) =
          .text value :: .sign ',' :: listTrees (next :: rest) := by
        simp [listTrees, List.intercalate_cons_cons]
      rw [htrees, items, items, ih]
      rfl

theorem mapM_map_eq_some {α β : Type} {read? : List Tree → Option β} {item : α → List Tree}
    {result : α → β} (h : ∀ a, read? (item a) = some (result a)) (l : List α) :
    (l.map item).mapM read? = some (l.map result) := by
  rw [mapM_eq_some_iff, List.map_map, List.map_map]
  exact List.map_congr_left fun a _ => h a

theorem readValue?_list (values : List String) :
    readValue? [.group '[' (listTrees values)] = some (.list values) := by
  have hread : ∀ value : String, readText? [.text value] = some value := fun _ => rfl
  rw [readValue?, items_listTrees, mapM_map_eq_some hread, List.map_id']
  rfl

theorem readArgument?_list (name : String) (values : List String) :
    readArgument? [.name name, .sign '=', .group '[' (listTrees values)] =
      some ⟨some name, .list values⟩ := by
  rw [readArgument?, readValue?_list]
  rfl

/-- A call whose last argument is a list of texts, once its other arguments are read. -/
theorem says_callWithList {head : List Char} {function key : String} {values : List String}
    {listed : List Tree} {before : List (List Tree)} {arguments : List Argument}
    (hhead : run .start head =
      some (⟨.code, 0, [], [('[', listed), ('(', [.name function])]⟩, []))
    (hitems : items (Tree.sign ',' :: .group '[' (listTrees values) :: listed).reverse =
      before ++ [[.name key, .sign '=', .group '[' (listTrees values)]])
    (hbefore : before.mapM readArgument? = some arguments)
    (h : ∀ value ∈ values, IsQuotable value) :
    Says (head ++ ((Scripts.quotedList values).toList ++ "],\n)\n".toList)) false false
      [.call function (arguments ++ [⟨some key, .list values⟩])] := by
  have hend : ∀ level, run ⟨.code, 0, level, [('[', listed), ('(', [.name function])]⟩
      "],\n)\n".toList = some (.start, [⟨0, [.name function,
        .group '(' (Tree.sign ',' :: .group '[' level.reverse :: listed).reverse]⟩]) := fun _ => rfl
  refine says_of_run (run_append hhead (run_append (run_quotedList h) (hend _))) ?_ rfl
  rw [List.append_nil, List.reverse_reverse, readStatement?, hitems, List.mapM_append, hbefore,
    List.mapM_cons, List.mapM_nil, readArgument?_list]
  rfl

def entryText (key : String) : List Char := "  ".toList ++ (quoted key ++ ": True,\n".toList)

def entryTrees (keys : List String) : List Tree :=
  keys.flatMap fun key => [.text key, .sign ':', .name "True", .sign ',']

/-- The entries of a table are read between its brackets, by induction on the keys. -/
theorem run_entries {keys : List String} (h : ∀ key ∈ keys, IsQuotable key) (before : List Tree) :
    run ⟨.code, indent, level, ('\x7b', before) :: outer⟩ (keys.flatMap entryText) =
      some (⟨.code, indent, (entryTrees keys).reverse ++ level, ('\x7b', before) :: outer⟩,
        []) := by
  induction keys generalizing level with
  | nil => rfl
  | cons key rest ih =>
    obtain ⟨hkey, hrest⟩ := List.forall_mem_cons.mp h
    have hindent : run ⟨.code, indent, level, ('\x7b', before) :: outer⟩ "  ".toList =
        some (⟨.code, indent, level, ('\x7b', before) :: outer⟩, []) := rfl
    have hvalue : run ⟨.code, indent, .text key :: level, ('\x7b', before) :: outer⟩
        ": True,\n".toList =
        some (⟨.code, indent, .sign ',' :: .name "True" :: .sign ':' :: .text key :: level,
          ('\x7b', before) :: outer⟩, []) := rfl
    have htrees : (entryTrees (key :: rest)).reverse ++ level = (entryTrees rest).reverse ++
        .sign ',' :: .name "True" :: .sign ':' :: .text key :: level := by
      simp [entryTrees]
    rw [List.flatMap_cons, entryText, htrees]
    exact run_append (run_append hindent (run_append (run_quoted_text hkey) hvalue)) (ih hrest)

theorem items_entryTrees (keys : List String) :
    items (entryTrees keys) = keys.map fun key => [.text key, .sign ':', .name "True"] := by
  induction keys with
  | nil => rfl
  | cons key rest ih =>
    have htrees : entryTrees (key :: rest) =
        .text key :: .sign ':' :: .name "True" :: .sign ',' :: entryTrees rest := rfl
    rw [htrees, items, items, items, items, ih]
    rfl

/-- A table that maps every key to the same name. -/
def tableOf (name : String) (keys : List String) : Statement :=
  .table name (keys.map fun key => (key, "True"))

theorem readStatement?_table (name : String) (keys : List String) :
    readStatement? [.name name, .sign '=', .group '\x7b' (entryTrees keys)] =
      some (tableOf name keys) := by
  have hread : ∀ key : String,
      readEntry? [.text key, .sign ':', .name "True"] = some (key, "True") := fun _ => rfl
  rw [readStatement?, items_entryTrees, mapM_map_eq_some hread]
  rfl

/-- A table is read under its name, between its brackets. -/
theorem says_table {table : String} {keys : List String} (htable : IsName table)
    (h : ∀ key ∈ keys, IsQuotable key) :
    Says (table.toList ++ (" = \x7b\n".toList ++ (keys.flatMap entryText ++ "\x7d\n".toList))) false
      false [tableOf table keys] := by
  have hopen : ∀ read, run ⟨.name read, 0, [], []⟩ " = \x7b\n".toList =
      some (⟨.code, 0, [], [('\x7b', [.sign '=', .name (String.ofList read.reverse)])]⟩, []) :=
    fun _ => rfl
  have hclose : ∀ level before, run ⟨.code, 0, level, [('\x7b', before)]⟩ "\x7d\n".toList =
      some (.start, [⟨0, (.group '\x7b' level.reverse :: before).reverse⟩]) := fun _ _ => rfl
  refine says_of_run (run_append (run_start_name htable) (run_append (hopen _)
    (run_append (run_entries h _) (hclose _ _)))) ?_ rfl
  simpa using readStatement?_table table keys

/-- The head of a function is read with its name. -/
theorem says_functionHead {function : String} (h : IsName function) :
    Says ("def ".toList ++ (function.toList ++ "(target):\n".toList)) true false
      [.function function] := by
  have hdef : run .start "def ".toList = some (⟨.code, 0, [.name "def"], []⟩, []) := rfl
  have harguments : ∀ read, run ⟨.name read, 0, [.name "def"], []⟩ "(target):\n".toList =
      some (.start, [⟨0, [.name "def", .name (String.ofList read.reverse),
        .group '(' [.name "target"], .sign ':']⟩]) := fun _ => rfl
  refine says_of_run (run_append hdef (run_append (run_name h) (harguments _))) ?_ rfl
  simp [readStatement?]

end Trees

end HybridBuild.Starlark
