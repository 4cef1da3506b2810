import HybridBuild.Proofs.Scripts.Fill

/-!
# What the query script says

Each kind that is asked for gives a table of its ids and a function, and two lines in the
function that formats an answer. If no id and no body holds a placeholder that is filled
later, then the script is read as these tables and functions, followed by the two functions that
every query script has.
-/
namespace HybridBuild.Scripts

open Starlark

/-- A query kind whose table and function can be named, and whose body is read as the body of a
function and stays as it is when the script is filled. -/
structure IsFunction (kind : QueryKind) : Prop where
  isName : IsName kind.name
  isBody : Says ((indent kind.body).toList ++ ['\n']) false true []
  isFree : ∀ name ∈ ["kind", "dispatch"], IsFree name (indent kind.body).toList

def kindStatements (kind : String) (ids : List String) : List Statement :=
  [tableOf (kind ++ "_Labels") ids, .function (kind ++ "_Fn")]

section Kind

variable {kind : QueryKind} {ids : Std.TreeSet String} {name : String}

theorem toList_idEntries (ids : Std.TreeSet String) :
    (idEntries ids).toList = ids.toList.flatMap entryText := by
  unfold idEntries
  rw [String.toList_join, List.flatMap_map]
  refine List.flatMap_congr fun id _ => ?_
  simp [entryText, quoted]

/-- The entries of a table are free of a placeholder if their keys are, by induction on the keys. -/
theorem isFree_entries_append {keys : List String} {rest : List Char}
    (h : ∀ key ∈ keys, IsFree name key.toList) (hrest : IsFree name rest)
    (hname : name ∈ placeholderNames) : IsFree name (keys.flatMap entryText ++ rest) := by
  induction keys with
  | nil => exact hrest
  | cons key keys ih =>
    obtain ⟨hkey, hkeys⟩ := List.forall_mem_cons.mp h
    have hbehind := (ih hkeys).append_left (a := ": True,\n".toList) (by decide)
    have hentry := (isFree_quoted_append hkey hbehind hname).append_left (a := "  ".toList)
      (by decide)
    simpa only [List.flatMap_cons, entryText, List.append_assoc] using hentry

/-- A table is free of a placeholder if its keys and what stands around it are. -/
theorem isFree_table {lead behind : List Char} (hlead : IsFree name lead)
    (hids : ∀ id ∈ ids.toList, IsFree name id.toList) (hbehind : IsFree name behind)
    (hname : name ∈ placeholderNames) :
    IsFree name (lead ++ ("_Labels = \x7b\n".toList ++ ((idEntries ids).toList ++ behind))) := by
  have hentries := isFree_entries_append hids hbehind hname
  have hopened := hlead.append_right (b := "_Labels = \x7b".toList) (by decide)
  rw [← toList_idEntries] at hentries
  simpa using hopened.append_cons hentries (notMem_placeholder hname).2

/-- The end of a table and the head of the function, with a place for the name. -/
def functionHead : List Char :=
  "\x7d\n\ndef ".toList ++ ((placeholder "kind").toList ++ "_Fn(target):".toList)

theorem toList_queryKindTemplate : queryKindTemplate.toList =
    ((placeholder "kind").toList ++ "_Labels = \x7b\n".toList) ++ ((placeholder "ids").toList ++
      ((functionHead ++ ['\n']) ++ ((placeholder "body").toList ++ ['\n']))) := by
  unfold queryKindTemplate functionHead placeholder
  simp only [toList_unlines, List.flatMap_cons, List.flatMap_nil, String.toList_append]
  repeat rw [String.toList_ofList]
  rfl

theorem isFree_functionHead (hname : name ∈ placeholderNames) (hne : name ≠ "kind") :
    IsFree name functionHead := by
  have hkind : IsFree name (placeholder "kind").toList :=
    isFree_placeholder hname (by decide) hne
  have hbehind := hkind.append_right (b := "_Fn(target):".toList)
    (by rw [String.toList_ofList]; decide)
  exact hbehind.append_left (by decide)

/-- The text of a kind around the places of its name. -/
def kindParts (entries body : List Char) : List (List Char) :=
  [[], "_Labels = \x7b\n".toList ++ (entries ++ "\x7d\n\ndef ".toList),
    "_Fn(target):\n".toList ++ (body ++ ['\n'])]

theorem toList_filledKind (hids : ∀ id ∈ ids.toList, IsFree "body" id.toList) (body : String) :
    (fill (fill queryKindTemplate "ids" (idEntries ids)) "body" body).toList =
      (placeholder "kind").toList.intercalate (kindParts (idEntries ids).toList body.toList) := by
  have hkind : ∀ name ∈ placeholderNames, name ≠ "kind" →
      IsFree name ((placeholder "kind").toList ++ "_Labels = \x7b\n".toList) := fun _ hname hne =>
    (isFree_placeholder hname (by decide) hne).append_right (by rw [String.toList_ofList]; decide)
  have hbody : IsFree "ids" ((placeholder "body").toList ++ ['\n']) :=
    (isFree_placeholder (by decide) (by decide) (by decide)).append_right (by decide)
  have hbehind : IsFree "ids"
      ((functionHead ++ ['\n']) ++ ((placeholder "body").toList ++ ['\n'])) := by
    rw [List.append_assoc]
    exact (isFree_functionHead (by decide) (by decide)).append_cons hbody
      (notMem_placeholder (by decide)).2
  have hhead : IsFree "body" (functionHead ++ ['\n']) :=
    (isFree_functionHead (by decide) (by decide)).append_right (by decide)
  have hfront : IsFree "body" (((placeholder "kind").toList ++ "_Labels = \x7b\n".toList) ++
      ((idEntries ids).toList ++ (functionHead ++ ['\n']))) := by
    rw [List.append_assoc]
    exact isFree_table (isFree_placeholder (by decide) (by decide) (by decide)) hids hhead
      (by decide)
  rw [toList_fill_fill toList_queryKindTemplate (by decide) (by decide)
    (hkind _ (by decide) (by decide)) hbehind hfront (isFree_of_notMem_open (by decide))]
  unfold functionHead kindParts
  simp [List.intercalate_cons_cons]

/-- The table and the function of a kind, without the blank line behind them. -/
def kindLines (kind : String) (ids : Std.TreeSet String) (body : List Char) : List Char :=
  kind.toList.intercalate (kindParts (idEntries ids).toList body)

theorem toList_kindSection
    (hids : ∀ id ∈ ids.toList, IsFree "body" id.toList ∧ IsFree "kind" id.toList)
    (hbody : IsFree "kind" (indent kind.body).toList) :
    (kindSection kind ids).toList =
      kindLines kind.name ids (indent kind.body).toList ++ ['\n'] := by
  have hempty : IsFree "kind" [] := isFree_of_notMem_open List.not_mem_nil
  have htable := isFree_table hempty (fun id hid => (hids id hid).2)
    (isFree_of_notMem_open (a := "\x7d\n\ndef ".toList) (by decide)) (by decide)
  rw [List.nil_append] at htable
  have hfunction : IsFree "kind"
      ("_Fn(target):\n".toList ++ ((indent kind.body).toList ++ ['\n'])) :=
    (hbody.append_right (by decide)).append_left (by rw [String.toList_ofList]; decide)
  have hparts : ∀ part ∈ kindParts (idEntries ids).toList (indent kind.body).toList,
      IsFree "kind" part := by
    simp only [kindParts, List.forall_mem_cons]
    exact ⟨hempty, htable, hfunction, List.forall_mem_nil _⟩
  rw [kindSection, String.toList_append, kindLines,
    toList_fill_parts (toList_filledKind (fun id hid => (hids id hid).1) _) (by decide) hparts]
  rfl

/-- A kind is read as a table of its ids and a function. -/
theorem says_kindLines (hkind : IsFunction kind) (h : ∀ id ∈ ids.toList, IsQuotable id) :
    Says (kindLines kind.name ids (indent kind.body).toList) false false
      (kindStatements kind.name ids.toList) := by
  have htable := says_table (hkind.isName.append "_Labels" (by decide)) h
  have hhead := says_functionHead (hkind.isName.append "_Fn" (by decide))
  have hsays := htable.append (hhead.append hkind.isBody).lineFeed
  rw [← toList_idEntries] at hsays
  simpa [kindLines, kindParts, kindStatements, List.intercalate_cons_cons] using hsays

theorem isFree_kindLines (hkind : IsFunction kind)
    (h : ∀ id ∈ ids.toList, IsFree "dispatch" id.toList) :
    IsFree "dispatch" (kindLines kind.name ids (indent kind.body).toList) := by
  have hopen : '\x7b' ∉ kind.name.toList := hkind.isName.notMem (by decide)
  have hbody : IsFree "dispatch" ((indent kind.body).toList ++ ['\n']) :=
    (hkind.isFree "dispatch" (by simp)).append_right (by decide)
  have hbehind := hbody.append_left (by simp [hopen])
    (a := "\x7d\n\ndef ".toList ++ (kind.name.toList ++ "_Fn(target):\n".toList))
  have htable := isFree_table (isFree_of_notMem_open hopen) h hbehind (by decide)
  simpa [kindLines, kindParts, List.intercalate_cons_cons] using htable

/-- The use of a kind around the places of its name. -/
def dispatchParts : List (List Char) :=
  ["  if id_string in ".toList, "_Labels:\n    results.append(id_string + \">>".toList,
    ">>\" + ".toList, "_Fn(target))\n".toList]

theorem toList_queryDispatchTemplate :
    queryDispatchTemplate.toList = (placeholder "kind").toList.intercalate dispatchParts := by
  unfold dispatchParts queryDispatchTemplate
  simp only [toList_unlines, List.flatMap_cons, List.flatMap_nil]
  repeat rw [String.toList_ofList]
  rfl

theorem isFree_dispatchParts : ∀ part ∈ dispatchParts, IsFree "kind" part := by
  unfold dispatchParts
  simp only [List.forall_mem_cons]
  refine ⟨isFree_of_notMem_open ?_, isFree_of_notMem_open ?_, isFree_of_notMem_open ?_,
    isFree_of_notMem_open ?_, List.forall_mem_nil _⟩ <;> (rw [String.toList_ofList]; decide)

theorem toList_kindDispatch (kind : QueryKind) :
    (kindDispatch kind).toList = kind.name.toList.intercalate dispatchParts :=
  toList_fill_parts toList_queryDispatchTemplate (by decide) isFree_dispatchParts

/-- The use of a kind is read as two lines of the function around it. -/
theorem says_kindDispatch (h : IsName kind.name) :
    Says (kindDispatch kind).toList true true [] := by
  have hmark : IsQuotable (">>" ++ kind.name ++ ">>") := by
    have hmarks : IsVerbatim ">>".toList := by decide
    refine ⟨by simp, ?_⟩
    rw [String.toList_append, String.toList_append]
    exact (hmarks.append h.isVerbatim).append hmarks
  have hif : run .start "  if id_string in ".toList =
      some (⟨.code, 2, [.name "in", .name "id_string", .name "if"], []⟩, []) := rfl
  have hcolon : ∀ read level, run ⟨.name read, 2, level, []⟩ ":\n".toList =
      some (.start, [⟨2, (.sign ':' :: .name (String.ofList read.reverse) :: level).reverse⟩]) :=
    fun _ _ => rfl
  have hcondition := says_of_run_indented (run_append hif (run_append
    (run_name (h.append "_Labels" (by decide))) (hcolon _ _))) (Nat.zero_lt_succ _) true
  let appended : List Tree := [.sign '+', .name "id_string"]
  let outer : List (Char × List Tree) := [('(', [.name "append", .sign '.', .name "results"])]
  have happend : run .start "    results.append(id_string + ".toList =
      some (⟨.code, 4, appended, outer⟩, []) := rfl
  have hplus : ∀ level, run ⟨.code, 4, level, outer⟩ " + ".toList =
      some (⟨.code, 4, .sign '+' :: level, outer⟩, []) := fun _ => rfl
  have hclose : ∀ read level, run ⟨.name read, 4, level, outer⟩ "(target))\n".toList =
      some (.start, [⟨4, [.name "results", .sign '.', .name "append", .group '('
        (.group '(' [.name "target"] :: .name (String.ofList read.reverse) :: level).reverse]⟩]) :=
    fun _ _ => rfl
  have haction := says_of_run_indented (run_append happend (run_append (run_quoted_text hmark)
    (run_append (hplus _) (run_append (run_name (h.append "_Fn" (by decide)))
      (hclose _ _))))) (Nat.zero_lt_succ _) true
  have hsays := hcondition.append haction
  rw [toList_kindDispatch]
  simpa [dispatchParts, quoted, List.intercalate_cons_cons] using hsays

end Kind

/-- The functions of every query script, up to the use of the kinds. -/
def sharedLines : List String := [
  "def get_arch(target):",
  "  platforms = build_options(target)[\"//command_line_option:platforms\"]",
  "  if len(platforms) != 1:",
  "    # Each configured target has exactly one platform; the same label under",
  "    # another architecture is a separate configured target.",
  "    fail(\"expected exactly 1 platform for \" + str(target.label) + " ++
    "\" but got \" + str(platforms))",
  "  platform_name = platforms[0].name",
  "  if platform_name == \"host\":",
  "    return \"HOST\"",
  "  elif not platform_name.startswith(\"android_\"):",
  "    fail(\"expected platform name of the form 'android_<arch>', but was \" + " ++
    "str(platforms))",
  "    return \"UNKNOWN\"",
  "  return platform_name[len(\"android_\"):]",
  "",
  "def format(target):",
  "  id_string = str(target.label) + \"|\" + get_arch(target)",
  "  results = []"]

/-- The rest of the query script behind the use of the kinds. -/
def resultLines : List String := [
  "  if not results:",
  "    return id_string + \">>NONE\"",
  "  return \"\\n\".join(results)"]

theorem toList_cqueryTemplate : cqueryTemplate.toList = (placeholder "kinds").toList ++
    ('\n' :: (unlines sharedLines).toList ++
      ((placeholder "dispatch").toList ++ '\n' :: (unlines resultLines).toList)) := by
  have htemplate : cqueryTemplate =
      unlines ("\x7bkinds\x7d" :: (sharedLines ++ "\x7bdispatch\x7d" :: resultLines)) := rfl
  have hkinds : "\x7bkinds\x7d".toList = (placeholder "kinds").toList := by
    simp [toList_placeholder]
  have hdispatch : "\x7bdispatch\x7d".toList = (placeholder "dispatch").toList := by
    simp [toList_placeholder]
  rw [htemplate, toList_unlines, toList_unlines, toList_unlines, List.flatMap_cons,
    List.flatMap_append, List.flatMap_cons, hkinds, hdispatch]
  simp only [List.append_assoc, List.cons_append, List.nil_append]

theorem says_sharedLines :
    Says (unlines sharedLines).toList true false [.function "get_arch", .function "format"] := by
  unfold Says
  simp only [toList_unlines, sharedLines, List.flatMap_cons, List.flatMap_nil, String.toList_append]
  repeat rw [String.toList_ofList]
  decide +kernel

theorem says_resultLines : Says (unlines resultLines).toList false true [] := by
  unfold Says
  simp only [toList_unlines, resultLines, List.flatMap_cons, List.flatMap_nil]
  repeat rw [String.toList_ofList]
  decide +kernel

theorem notMem_sharedLines : '\x7b' ∉ (unlines sharedLines).toList := by
  simp only [toList_unlines, sharedLines, List.flatMap_cons, List.flatMap_nil, String.toList_append]
  repeat rw [String.toList_ofList]
  decide +kernel

theorem notMem_resultLines : '\x7b' ∉ (unlines resultLines).toList := by
  simp only [toList_unlines, resultLines, List.flatMap_cons, List.flatMap_nil]
  repeat rw [String.toList_ofList]
  decide +kernel

section File

variable {requests : List Request} {registry : QueryRegistry}

/-- The kinds that are asked for, with the ids asked of each. -/
def askedKinds (requests : List Request) (registry : QueryRegistry) :
    List (QueryKind × Std.TreeSet String) :=
  registry.kinds.filterMap fun kind => (idsByKind requests)[kind.name]?.map fun ids => (kind, ids)

def kindsText (kinds : List (QueryKind × Std.TreeSet String)) : String :=
  String.join (kinds.map fun (kind, ids) => kindSection kind ids)

def dispatchText (kinds : List (QueryKind × Std.TreeSet String)) : String :=
  String.join (kinds.map fun (kind, _) => kindDispatch kind)

def queryStatements (tables : List (String × List String)) : List Statement :=
  (tables.flatMap fun (kind, ids) => kindStatements kind ids) ++
    [.function "get_arch", .function "format"]

/-- Kinds that are functions, with ids that stand for themselves wherever the script is filled. -/
def AreFunctions (kinds : List (QueryKind × Std.TreeSet String)) : Prop :=
  ∀ asked ∈ kinds, IsFunction asked.1 ∧ ∀ id ∈ asked.2.toList,
    IsQuotable id ∧ ∀ name ∈ ["body", "kind", "dispatch"], IsFree name id.toList

variable {kinds : List (QueryKind × Std.TreeSet String)}

theorem toList_kindsText (h : AreFunctions kinds) :
    (kindsText kinds).toList = kinds.flatMap fun asked =>
      kindLines asked.1.name asked.2 (indent asked.1.body).toList ++ ['\n'] := by
  unfold kindsText
  rw [String.toList_join, List.flatMap_map]
  refine List.flatMap_congr fun asked hasked => ?_
  obtain ⟨hkind, hids⟩ := h asked hasked
  exact toList_kindSection
    (fun id hid => ⟨(hids id hid).2 "body" (by simp), (hids id hid).2 "kind" (by simp)⟩)
    (hkind.isFree "kind" (by simp))

theorem says_kindsText (h : AreFunctions kinds) : Says (kindsText kinds).toList false false
    (kinds.flatMap fun asked => kindStatements asked.1.name asked.2.toList) := by
  rw [toList_kindsText h]
  refine Says.flatMap fun asked hasked => ?_
  obtain ⟨hkind, hids⟩ := h asked hasked
  exact (says_kindLines hkind fun id hid => (hids id hid).1).append (says_nil false).lineFeed

theorem isFree_kindsText (h : AreFunctions kinds) : IsFree "dispatch" (kindsText kinds).toList := by
  rw [toList_kindsText h]
  refine isFree_flatMap_lines (fun asked hasked => ?_) (by decide)
  obtain ⟨hkind, hids⟩ := h asked hasked
  exact isFree_kindLines hkind fun id hid => (hids id hid).2 "dispatch" (by simp)

theorem says_dispatchText (h : AreFunctions kinds) :
    Says (dispatchText kinds).toList true true [] := by
  unfold dispatchText
  rw [String.toList_join, List.flatMap_map]
  have hsays : Says (kinds.flatMap fun asked => (kindDispatch asked.1).toList) true true
      (kinds.flatMap fun _ => []) :=
    Says.flatMap fun asked hasked => says_kindDispatch (h asked hasked).1.isName
  have hnothing : kinds.flatMap (fun _ => ([] : List Statement)) = [] :=
    List.flatMap_eq_nil_iff.mpr fun _ _ => rfl
  rwa [hnothing] at hsays

theorem toList_filledQuery (h : AreFunctions kinds) :
    (fill (fill cqueryTemplate "kinds" (kindsText kinds)) "dispatch" (dispatchText kinds)).toList =
      (kindsText kinds).toList ++ ('\n' :: (unlines sharedLines).toList ++
        ((dispatchText kinds).toList ++ '\n' :: (unlines resultLines).toList)) := by
  have hshared : ∀ name, IsFree name (unlines sharedLines).toList := fun _ =>
    isFree_of_notMem_open notMem_sharedLines
  have hresult : ∀ name, IsFree name (unlines resultLines).toList := fun _ =>
    isFree_of_notMem_open notMem_resultLines
  have hdispatch : IsFree "kinds" ((placeholder "dispatch").toList ++
      '\n' :: (unlines resultLines).toList) :=
    (isFree_placeholder (by decide) (by decide) (by decide)).append_cons (hresult _)
      (notMem_placeholder (by decide)).2
  have hbehind := hdispatch.append_left (a := '\n' :: (unlines sharedLines).toList)
    (by simp [notMem_sharedLines])
  have hfront : IsFree "dispatch" ([] ++ ((kindsText kinds).toList ++
      '\n' :: (unlines sharedLines).toList)) := by
    rw [List.nil_append]
    exact (isFree_kindsText h).append_cons (hshared _) (notMem_placeholder (by decide)).2
  have hend : IsFree "dispatch" ('\n' :: (unlines resultLines).toList) :=
    isFree_of_notMem_open (by simp [notMem_resultLines])
  have htemplate := toList_cqueryTemplate
  rw [← List.nil_append ((placeholder "kinds").toList ++ _)] at htemplate
  rw [toList_fill_fill htemplate (by decide) (by decide) (isFree_of_notMem_open List.not_mem_nil)
    hbehind hfront hend, List.nil_append]

/-- The query script says the table and the function of each kind, and the functions of every
query script. -/
theorem says_cqueryFile (h : AreFunctions (askedKinds requests registry)) :
    Says (cqueryFile requests registry).toList false false (queryStatements
      ((askedKinds requests registry).map fun (kind, ids) => (kind.name, ids.toList))) := by
  have hfile : cqueryFile requests registry = fill (fill cqueryTemplate "kinds"
      (kindsText (askedKinds requests registry))) "dispatch"
        (dispatchText (askedKinds requests registry)) := rfl
  have hend := (says_dispatchText h).append says_resultLines.lineFeed
  have hsays := (says_kindsText h).append (says_sharedLines.lineFeed.append hend)
  have hstatements : queryStatements
      ((askedKinds requests registry).map fun (kind, ids) => (kind.name, ids.toList)) =
      ((askedKinds requests registry).flatMap fun asked =>
        kindStatements asked.1.name asked.2.toList) ++
        ([.function "get_arch", .function "format"] ++ ([] ++ [])) := by
    simp [queryStatements, List.flatMap_map]
  rw [hfile, toList_filledQuery h, hstatements]
  exact hsays

end File

end HybridBuild.Scripts
