import HybridBuild.Proofs.Build.Acceptance
import HybridBuild.Proofs.Path
import HybridBuild.Proofs.Shell.Verbatim

/-!
# The commands of an action's rule

The command of a rule changes into the execution root, exports the environment of the action and
runs its arguments. Values and arguments were written as words; the path of the execution root and
the names of variables stand there as they are, and a word that needs no quotes has none. So the
shell reads what is meant exactly when each character of the output base stands for itself, and
the first argument can be the name of a command.
-/
namespace HybridBuild

open Shell

/-- The commands that the rule of an action is meant to run below an execution root. -/
def anchoredCommands (root : Path) (env : List EnvEntry) (arguments : List String) :
    List SimpleCommand :=
  { words := ["cd", root.text] } ::
    env.map (fun entry => { words := ["export", entry.key ++ "=" ++ entry.value] }) ++
    [{ words := arguments }]

section Root

/-- The path of an execution root is that of the output base with some literal characters behind
it. -/
theorem exists_text_execroot (base : Path) : ∃ below, IsVerbatim below ∧
    (execroot base).text.toList = base.text.toList ++ below ++ ['_'] := by
  have hplain : "execroot".toList.all isPlain ∧ "__main_".toList.all isPlain := by decide
  have hrelative : (Path.mk "execroot").isAbsolute = false ∧
      (Path.mk "__main__").isAbsolute = false := by decide
  have hseparator : ∀ separator ∈ ["", "/"], IsVerbatim separator.toList := by
    intro separator hmem
    refine .of_all_isPlain ?_
    rcases List.mem_pair.mp hmem with rfl | rfl <;> decide
  obtain ⟨first, hfirst, htext⟩ := base.exists_separator_of_join hrelative.1
  obtain ⟨second, hsecond, htext'⟩ := (base.join "execroot").exists_separator_of_join hrelative.2
  have hbelow : IsVerbatim
      (first.toList ++ "execroot".toList ++ second.toList ++ "__main_".toList) :=
    (((hseparator first hfirst).append (.of_all_isPlain hplain.1)).append
      (hseparator second hsecond)).append (.of_all_isPlain hplain.2)
  refine ⟨_, hbelow, ?_⟩
  rw [execroot, htext', htext]
  simp

theorem isVerbatim_execroot_iff {base : Path} :
    IsVerbatim (execroot base).text.toList ↔ IsVerbatim base.text.toList := by
  obtain ⟨below, hbelow, htext⟩ := exists_text_execroot base
  have hlast : IsVerbatim ['_'] := .of_all_isPlain (by decide)
  rw [htext, isVerbatim_append_iff hlast, isVerbatim_append_iff hbelow]

end Root

section Reading

variable {s : Statement} {root : Path} {arguments : List String}

/-- The words of the command that changes the directory. -/
def directoryWords (root : Path) : List Word :=
  [bareWord "cd".toList, bareWord root.text.toList]

/-- The words of the command that exports a variable. -/
def exportWords (entry : EnvEntry) : List Word :=
  [bareWord "export".toList,
    bareWord (entry.key ++ "=").toList ++ wordParts entry.value.toList]

def exportText (entry : EnvEntry) : String :=
  "export " ++ entry.key ++ "=" ++ shellWord entry.value

theorem exportCommand_eq (entry : EnvEntry) :
    exportCommand entry = exportText entry ++ " && " := rfl

theorem spells_exportText {entry : EnvEntry} (h : isName entry.key.toList) :
    Spells (exportText entry).toList (exportWords entry) := by
  have hname : IsVerbatim "export".toList := .of_all_isPlain (by decide)
  have hkey : IsVerbatim (entry.key ++ "=").toList :=
    .of_all_isPlain (by simp [all_isPlain_of_isName h, isPlain])
  have htext : (exportText entry).toList =
      "export".toList ++ ' ' :: ((entry.key ++ "=").toList ++ word entry.value.toList) := by
    simp [exportText, shellWord]
  rw [htext]
  exact (Spells.verbatim hname (by decide)).append (.verbatim_append_word hkey _)

theorem toList_anchoredCommand (s : Statement) (root : Path) :
    (s.anchoredCommand root).toList = "cd".toList ++ ' ' :: root.text.toList ++ " && ".toList ++
      ((s.env.flatMap fun entry => (exportText entry).toList ++ " && ".toList) ++
        s.command.toList) := by
  simp [Statement.anchoredCommand, exportCommand_eq, String.toList_join, List.flatMap_map]

/-- The words of a rule below a path that is read as it stands. -/
theorem read?_anchoredCommand (hroot : IsVerbatim root.text.toList) (hne : root.text.toList ≠ [])
    (hkeys : ∀ entry ∈ s.env, isName entry.key.toList) (hcommand : s.command = shellWords arguments)
    (harguments : arguments ≠ []) :
    read? (s.anchoredCommand root) =
      some (directoryWords root :: s.env.map exportWords ++
        [arguments.map fun argument => wordParts argument.toList]) := by
  have hcd : Spells ("cd".toList ++ ' ' :: root.text.toList) (directoryWords root) :=
    (Spells.verbatim (.of_all_isPlain (by decide)) (by decide)).append
      (.verbatim hroot hne)
  refine (spells_shellWords harguments).read?_eq ?_
  rw [toList_anchoredCommand, Reader.start, hcd.run_and,
    Spells.run_flatMap_and fun entry hentry => spells_exportText (hkeys entry hentry), hcommand]
  rfl

/-- Below a path that is read as it stands, all depends on the first argument. -/
theorem commands?_anchoredCommand_iff (hroot : IsVerbatim root.text.toList)
    (hne : root.text.toList ≠ []) (hkeys : ∀ entry ∈ s.env, isName entry.key.toList)
    (hcommand : s.command = shellWords arguments) (harguments : arguments ≠ []) :
    commands? (s.anchoredCommand root) = some (anchoredCommands root s.env arguments) ↔
      ∀ name ∈ arguments.head?, IsCommandName name := by
  have hcd : SimpleCommand.ofWords? (directoryWords root) =
      some { words := ["cd", root.text] } := by
    refine SimpleCommand.ofWords?_eq_some_iff.mpr ⟨by decide, ?_⟩
    simp only [List.map_cons, List.map_nil, wordText_bareWord]
  have hexport : ∀ entry, SimpleCommand.ofWords? (exportWords entry) =
      some { words := ["export", entry.key ++ "=" ++ entry.value] } := by
    intro entry
    refine SimpleCommand.ofWords?_eq_some_iff.mpr ⟨by decide, ?_⟩
    simp only [List.map_cons, List.map_nil, wordText_append, wordText_bareWord, wordText_wordParts]
  rw [commands?, read?_anchoredCommand hroot hne hkeys hcommand harguments, Option.bind_some,
    mapM_eq_some_iff, ← SimpleCommand.ofWords?_wordParts_iff harguments]
  simp [anchoredCommands, hcd, hexport, Function.comp_def]

/-- Where the path comes back as the argument of the first command, it is read as it stands. -/
theorem isVerbatim_of_commands? {env : List EnvEntry} {init : List Char}
    (hroot : root.text.toList = init ++ ['_'])
    (h : commands? (s.anchoredCommand root) = some (anchoredCommands root env arguments)) :
    IsVerbatim root.text.toList := by
  rw [commands?, Option.bind_eq_some_iff] at h
  obtain ⟨commands, hread, hcommands⟩ := h
  rw [mapM_eq_some_iff, anchoredCommands, List.cons_append, List.map_cons] at hcommands
  obtain ⟨command, more, rfl, hfirst, hothers⟩ := List.map_eq_cons_iff.mp hcommands
  have hmore : more ≠ [] := by
    rintro rfl
    simp at hothers
  obtain ⟨t, others, hrun, hended⟩ := exists_run_of_read? hread hmore
  cases command with
  | nil => cases hfirst
  | cons first words =>
    obtain ⟨-, htexts⟩ := SimpleCommand.ofWords?_eq_some_iff.mp hfirst
    obtain ⟨w, rfl, hw⟩ := List.map_eq_singleton_iff.mp (List.cons.inj htexts).2
    have hchars : w.flatMap Part.text = init ++ ['_'] := by
      rw [← hroot, ← hw, wordText, String.toList_ofList]
    have hstart : run .start ("cd".toList ++ [' ']) =
        some ⟨[], [bareWord "cd".toList], .outside []⟩ := by decide
    have htext : (s.anchoredCommand root).toList = "cd".toList ++ [' '] ++ (init ++ ['_'] ++ ' ' ::
        ("&& ".toList ++ ((s.env.flatMap fun entry => (exportText entry).toList ++ " && ".toList) ++
          s.command.toList))) := by
      rw [toList_anchoredCommand, hroot]
      simp
    rw [htext, run_append, hstart, Option.bind_some] at hrun
    rw [hroot]
    exact isVerbatim_of_run (by decide) hrun hended hchars

end Reading

/-- Whatever a document reports: below any output base, a statement whose variables have names of
the shell has a rule. The shell reads its command as a change into the execution root, an export of
each variable of the action in their order, and the arguments of the action, each text exactly as it
is, just when two things hold: every character of the output base stands for itself in the shell,
and the first argument can be the name of a command. -/
theorem commands_of_rules {bytes : List UInt8} {statements : List Statement}
    (hdocument : Statement.listOfDocument bytes = .ok statements) {i : Nat} {s : Statement}
    (hs : statements[i]? = some s) (hkeys : ∀ entry ∈ s.env, isName entry.key.toList)
    (base : Path) (index : Nat) :
    ∃ tables action rule, (Json.parse? bytes >>= ActionTables.ofJson?) = some tables ∧
      tables.actions[i]? = some action ∧ s.rule index (execroot base) = .ok rule ∧
      (commands? rule.command =
          some (anchoredCommands (execroot base) action.environment action.arguments) ↔
        IsVerbatim base.text.toList ∧ ∀ name ∈ action.arguments.head?, IsCommandName name) := by
  obtain ⟨tables, action, htables, haction, hstates⟩ := exists_states_of_listOfDocument hdocument hs
  obtain ⟨rule, hrule⟩ := hstates.exists_rule index (execroot base)
  obtain ⟨below, -, htext⟩ := exists_text_execroot base
  obtain ⟨argument, hargument, -⟩ := hstates.arguments
  have harguments : action.arguments ≠ [] := List.ne_nil_of_mem hargument
  have hne : (execroot base).text.toList ≠ [] := by simp [htext]
  refine ⟨tables, action, rule, htables, haction, hrule, ?_⟩
  rw [(Statement.command_of_rule_eq_ok hrule).1, ← hstates.env, ← isVerbatim_execroot_iff]
  constructor
  · intro hcommands
    have hroot := isVerbatim_of_commands? htext hcommands
    exact ⟨hroot, (commands?_anchoredCommand_iff hroot hne hkeys hstates.command harguments).mp
      hcommands⟩
  · rintro ⟨hroot, hfirst⟩
    exact (commands?_anchoredCommand_iff hroot hne hkeys hstates.command harguments).mpr hfirst

/-- A first argument with an equals sign needs no quotes, and assigns a variable. -/
example : commands? ("cd /ob && " ++ shellWords ["A=b", "c"]) =
    some [⟨[], ["cd", "/ob"]⟩, ⟨["A=b"], ["c"]⟩] := by decide

/-- The script with a variable is run as it is meant. -/
theorem commands_of_rules_scripts :
    Statement.listOfDocument scriptReport.toUTF8.toList = .ok scripts ∧
      (∀ entry ∈ scripts[0].env, isName entry.key.toList) ∧
      ∃ rule, scripts[0].rule 0 (execroot ⟨"/ob"⟩) = .ok rule ∧
        commands? rule.command = some [{ words := ["cd", "/ob/execroot/__main__"] },
          { words := ["export", "A=a b"] }, { words := ["sh", "-c", "echo $A"] }] := by
  have hfirst : scripts[0]? = some scripts[0] := rfl
  have hkeys : ∀ entry ∈ scripts[0].env, isName entry.key.toList := by
    intro entry hentry
    obtain rfl : entry = ⟨"A", "a b"⟩ := by simpa [scripts] using hentry
    decide +kernel
  have haction : ((Json.parse? scriptReport.toUTF8.toList >>= ActionTables.ofJson?).bind
      fun tables => tables.actions[0]?).map (fun action => (action.environment, action.arguments)) =
        some ([⟨"A", "a b"⟩], ["sh", "-c", "echo $A"]) := by decide +kernel
  have hbase : IsVerbatim (Path.mk "/ob").text.toList := .of_all_isPlain (by decide)
  obtain ⟨tables, action, rule, htables, hfound, hrule, hiff⟩ :=
    commands_of_rules listOfDocument_scriptReport hfirst hkeys ⟨"/ob"⟩ 0
  rw [htables, Option.bind_some, hfound, Option.map_some, Option.some.injEq,
    Prod.mk.injEq] at haction
  rw [haction.1, haction.2] at hiff
  refine ⟨listOfDocument_scriptReport, hkeys, rule, hrule, hiff.mpr ⟨hbase, ?_⟩⟩
  decide +kernel

/-- Below a directory with a blank in its name, the first command has two arguments. -/
theorem directory_split_at_blank :
    Statement.listOfDocument scriptReport.toUTF8.toList = .ok scripts ∧
      ∃ rule, scripts[0].rule 0 (execroot ⟨"/o b"⟩) = .ok rule ∧
        commands? rule.command = some [{ words := ["cd", "/o", "b/execroot/__main__"] },
          { words := ["export", "A=a b"] }, { words := ["sh", "-c", "echo $A"] }] ∧
        commands? rule.command ≠
          some (anchoredCommands (execroot ⟨"/o b"⟩) scripts[0].env ["sh", "-c", "echo $A"]) := by
  refine ⟨listOfDocument_scriptReport, _, rfl, ?_⟩
  decide +kernel

end HybridBuild
