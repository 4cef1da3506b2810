import HybridBuild.Proofs.Action.Statement
import HybridBuild.Proofs.Build.Splice
import HybridBuild.Proofs.Ninja.Lines
import HybridBuild.Proofs.Ninja.Order
import HybridBuild.Proofs.Text.Exchange
import Mathlib.Data.List.Permutation
import Mathlib.Data.List.TakeWhile

/-!
# The commands of actions in the manifest

The command of an action passes three stages: its arguments become words of the shell, the
directory and the variables that it needs go in front of them, and in the manifest its dollar
signs are doubled. No stage takes a line feed away, and in the manifest a value ends at the
first one. So what is read there is the first line of the command, which is the whole command
exactly when no argument and no variable holds a line feed.
-/
namespace HybridBuild

section Words

variable {c : Char}

/-- Quoting takes no character away and adds only quotes and backslashes. -/
theorem mem_word_iff {text : List Char} (hquote : c ≠ '\'') (hslash : c ≠ '\\') :
    c ∈ Shell.word text ↔ c ∈ text := by
  have hchar : ∀ d, c ∈ Shell.quoteChar d ↔ c = d := by
    intro d
    unfold Shell.quoteChar
    split <;> simp [hquote, hslash]
  unfold Shell.word
  split
  · rfl
  · simp [hquote, hchar]

/-- A line feed stands in a command exactly when it stands in one of its words. -/
theorem lineFeed_mem_shellWords_iff {words : List String} :
    '\n' ∈ (shellWords words).toList ↔ ∃ word ∈ words, '\n' ∈ word.toList := by
  rw [shellWords, String.toList_intercalate]
  have hsep : " ".toList = [' '] := rfl
  rw [hsep, Text.mem_intercalate_iff (by decide)]
  simp [shellWord, mem_word_iff]

end Words

/-- No variable of an environment holds a line feed. -/
def OneLine (env : List EnvEntry) : Prop :=
  ∀ entry ∈ env, '\n' ∉ entry.key.toList ∧ '\n' ∉ entry.value.toList

theorem lineFeed_notMem_join {base : Path} {part : String} (hbase : '\n' ∉ base.text.toList)
    (hpart : '\n' ∉ part.toList) : '\n' ∉ (base.join part).text.toList := by
  unfold Path.join
  split
  · exact hpart
  · split <;> simp [hbase, hpart]

theorem lineFeed_notMem_execroot {base : Path} (h : '\n' ∉ base.text.toList) :
    '\n' ∉ (execroot base).text.toList :=
  lineFeed_notMem_join (lineFeed_notMem_join h (by decide)) (by decide)

/-- A command below a directory without line feeds holds the line feeds of its words and of
its variables. -/
theorem lineFeed_notMem_anchoredCommand_iff {s : Statement} {execroot : Path}
    (h : '\n' ∉ execroot.text.toList) :
    '\n' ∉ (s.anchoredCommand execroot).toList ↔ '\n' ∉ s.command.toList ∧ OneLine s.env := by
  have hexport : ∀ entry : EnvEntry, '\n' ∉ (exportCommand entry).toList ↔
      '\n' ∉ entry.key.toList ∧ '\n' ∉ entry.value.toList := by
    intro entry
    simp [exportCommand, shellWord, mem_word_iff]
  simp only [Statement.anchoredCommand, String.toList_append, List.mem_append]
  simp [h, hexport, OneLine, and_comm]

/-- The statements of a document have the arguments and the environments of its actions. -/
theorem exists_action_of_listOfDocument {bytes : List UInt8} {statements : List Statement}
    (h : Statement.listOfDocument bytes = .ok statements) {i : Nat} {s : Statement}
    (hs : statements[i]? = some s) :
    ∃ tables action, (Json.parse? bytes >>= ActionTables.ofJson?) = some tables ∧
      tables.actions[i]? = some action ∧
      s.command = shellWords action.arguments ∧ s.env = action.environment := by
  obtain ⟨tables, action, htables, haction, hstates⟩ := exists_states_of_listOfDocument h hs
  exact ⟨tables, action, htables, haction, hstates.command, hstates.env⟩

namespace Ninja

/-- The command at the start of a text: the value up to the end of the line. -/
def readCommand? (text : List Char) : Option (List Char) :=
  readValue? (skipSpaces (text.takeWhile (· ≠ '\n')))

/-- Escaping keeps line feeds, so a value is read up to its first one. -/
theorem takeWhile_flatMap_valueChar (value rest : List Char) :
    (value.flatMap valueChar ++ '\n' :: rest).takeWhile (· ≠ '\n') =
      (value.takeWhile (· ≠ '\n')).flatMap valueChar := by
  induction value with
  | nil => rfl
  | cons c value ih =>
    by_cases hfeed : c = '\n'
    · subst hfeed
      rfl
    · have hwritten : ∀ d ∈ valueChar c, d ≠ '\n' := by
        unfold valueChar
        split <;> simp [hfeed]
      rw [List.flatMap_cons, List.append_assoc,
        List.takeWhile_append_of_pos fun d hd => decide_eq_true (hwritten d hd), ih,
        List.takeWhile_cons_of_pos (by simpa using hfeed), List.flatMap_cons]

/-- The text of a manifest up to the command of a rule after some other rules. -/
def textToCommand (before : List Rule) (r : Rule) : String :=
  header ++ String.join (before.map paragraph) ++ ("\nrule " ++ r.id ++ "\n  command = ")

/-- The command of a rule that is not phony is written after the paragraphs of the rules
before it, and its line ends behind it. -/
theorem exists_text_of_command (before after : List Rule) {r : Rule} (h : r.isPhony = false) :
    ∃ rest, header ++ String.join ((before ++ r :: after).map paragraph) =
      textToCommand before r ++ (escapeValue r.command ++ ("\n" ++ rest)) := by
  have hparagraph : ∃ rest, paragraph r =
      "\nrule " ++ r.id ++ "\n  command = " ++ (escapeValue r.command ++ ("\n" ++ rest)) := by
    simp only [paragraph, h, bindings, binding, String.append_assoc, Bool.false_eq_true, if_false]
    exact ⟨_, rfl⟩
  obtain ⟨rest, hrest⟩ := hparagraph
  refine ⟨rest ++ String.join (after.map paragraph), ?_⟩
  simp only [List.map_append, List.map_cons, String.join_append, String.join_cons, hrest,
    textToCommand, String.append_assoc]

/-- A command that does not start with a space is read up to its first line feed. -/
theorem readCommand?_escapeValue {command : String} (h : command.toList.head? ≠ some ' ')
    (rest : String) :
    readCommand? (escapeValue command ++ ("\n" ++ rest)).toList =
      some (command.toList.takeWhile (· ≠ '\n')) := by
  have htext : (escapeValue command ++ ("\n" ++ rest)).toList =
      command.toList.flatMap valueChar ++ '\n' :: rest.toList := by
    simp [escapeValue]
  have hhead : (command.toList.takeWhile (· ≠ '\n')).head? ≠ some ' ' := by
    rw [List.head?_takeWhile]
    intro hspace
    exact h (Option.filter_eq_some_iff.mp hspace).1
  rw [readCommand?, htext, takeWhile_flatMap_valueChar,
    skipSpaces_of_head?_ne (head?_flatMap_valueChar hhead), readValue?_flatMap]

end Ninja

theorem Statement.command_of_rule_eq_ok {s : Statement} {index : Nat} {execroot : Path} {rule : Rule}
    (h : s.rule index execroot = .ok rule) :
    rule.command = s.anchoredCommand execroot ∧ rule.isPhony = false := by
  unfold Statement.rule at h
  split at h
  · cases h
  · cases h
    exact ⟨rfl, rfl⟩

theorem head?_anchoredCommand (s : Statement) (execroot : Path) :
    (s.anchoredCommand execroot).toList.head? ≠ some ' ' := by
  simp [Statement.anchoredCommand]

/-- Whatever a document reports: once its statements are spliced, every one of them has its
rule in the manifest, and what is read there as the command of the rule is the first line of
its command. That is the whole command exactly when no argument and no variable of the action
holds a line feed. -/
theorem spliced_command_read {bytes : List UInt8} {statements : List Statement} {src : FactSource}
    {base : Path} {g g' : ActionGraph} {count : Nat} {text : String}
    (hdocument : Statement.listOfDocument bytes = .ok statements) (henabled : src.enabled)
    (hsource : src.statements = statements) (hbase : src.facts.outputBase = some base)
    (hline : '\n' ∉ base.text.toList) (hsplice : g.splice src = (.ok count, g'))
    (hrender : Ninja.render g' = .ok text) {i : Nat} {s : Statement} (hs : statements[i]? = some s) :
    ∃ tables action rule before after rest,
      (Json.parse? bytes >>= ActionTables.ofJson?) = some tables ∧
      tables.actions[i]? = some action ∧
      s.rule i (execroot base) = .ok rule ∧ g'.ordered = .ok (before ++ rule :: after) ∧
      text = Ninja.textToCommand before rule ++ rest ∧
      Ninja.readCommand? rest.toList = some (rule.command.toList.takeWhile (· ≠ '\n')) ∧
      (Ninja.readCommand? rest.toList = some rule.command.toList ↔
        (∀ argument ∈ action.arguments, '\n' ∉ argument.toList) ∧ OneLine action.environment) := by
  obtain ⟨tables, action, htables, haction, hcommand, henv⟩ :=
    exists_action_of_listOfDocument hdocument hs
  obtain ⟨base', rules, hbase', hrules, hadd⟩ := ActionGraph.of_splice_eq_ok henabled hsplice
  obtain rfl : base' = base := Option.some.inj (hbase'.symm.trans hbase)
  rw [hsource] at hrules
  obtain ⟨rule, hmem, hrule⟩ := ActionGraph.exists_rule_of_statementRules hrules hs
  obtain ⟨order, horder, rfl⟩ := except_map_eq_ok_iff.mp hrender
  have hplaced : rule ∈ order := by
    rw [(ActionGraph.ordered_perm horder).mem_iff, ActionGraph.rules_addRules hadd]
    exact List.mem_append_right _ hmem
  obtain ⟨before, after, rfl⟩ := List.append_of_mem hplaced
  obtain ⟨hbuilt, hphony⟩ := Statement.command_of_rule_eq_ok hrule
  obtain ⟨rest, htext⟩ := Ninja.exists_text_of_command before after hphony
  have hhead : rule.command.toList.head? ≠ some ' ' :=
    hbuilt ▸ head?_anchoredCommand s (execroot base')
  have hread := Ninja.readCommand?_escapeValue hhead rest
  have hfeeds : '\n' ∉ rule.command.toList ↔
      (∀ argument ∈ action.arguments, '\n' ∉ argument.toList) ∧ OneLine action.environment := by
    rw [hbuilt, lineFeed_notMem_anchoredCommand_iff (lineFeed_notMem_execroot hline), hcommand, henv,
      lineFeed_mem_shellWords_iff]
    simp
  refine ⟨tables, action, rule, before, after, _, htables, haction, hrule, horder, htext, hread, ?_⟩
  rw [hread, ← hfeeds, Option.some.injEq, List.takeWhile_eq_self_iff]
  constructor
  · intro hall hfeed
    simpa using hall '\n' hfeed
  · intro hnone c hc
    exact decide_eq_true fun heq => hnone (heq ▸ hc)

/-- Two scripts in one line and in two, as a report of two actions without names. -/
def scriptReport : String :=
  "[[[1, 1], [2, 2]], " ++
  "[[\"\", \"Genrule\", [\"sh\", \"-c\", \"echo $A\"], [[\"A\", \"a b\"]], [], [1]], " ++
  "[\"\", \"Genrule\", [\"sh\", \"-c\", \"a\\nb\"], [], [], [2]]], [], " ++
  "[[1, \"one\"], [2, \"two\"]]]"

def scripts : List Statement :=
  [{ mnemonic := "Genrule", command := "sh -c 'echo $A'", inputs := [], outputs := ["one"],
     depfile := none, env := [⟨"A", "a b"⟩] },
   { mnemonic := "Genrule", command := "sh -c 'a\nb'", inputs := [], outputs := ["two"],
     depfile := none, env := [] }]

def scriptSource : FactSource :=
  .fixed ((CannedFacts.empty ⟨"/ob"⟩).withStatements scripts).toFixed

def scriptRules : List Rule :=
  [{ name := "bazel 0", description := "Genrule", restat := true,
     command := "cd /ob/execroot/__main__ && export A='a b' && sh -c 'echo $A'",
     implicitOutputs := ["/ob/execroot/__main__/one"] },
   { name := "bazel 1", description := "Genrule", restat := true,
     command := "cd /ob/execroot/__main__ && sh -c 'a\nb'",
     implicitOutputs := ["/ob/execroot/__main__/two"] }]

theorem listOfDocument_scriptReport :
    Statement.listOfDocument scriptReport.toUTF8.toList = .ok scripts := by
  decide +kernel

theorem splice_scripts : ActionGraph.empty.splice scriptSource = (.ok 2, ⟨scriptRules, ∅⟩) := by
  rfl

theorem ordered_scriptRules : ActionGraph.ordered ⟨scriptRules, ∅⟩ = .ok scriptRules.reverse := by
  cbv

theorem render_scriptRules : Ninja.render ⟨scriptRules, ∅⟩ =
    .ok (Ninja.header ++ String.join (scriptRules.reverse.map Ninja.paragraph)) := by
  rw [Ninja.render, ordered_scriptRules]
  rfl

/-- The script in one line comes back whole. -/
theorem spliced_command_read_scripts : ∃ before rest,
    Ninja.render ⟨scriptRules, ∅⟩ = .ok (Ninja.textToCommand before scriptRules[0] ++ rest) ∧
      Ninja.readCommand? rest.toList = some scriptRules[0].command.toList := by
  have hbase : scriptSource.facts.outputBase = some ⟨"/ob"⟩ := rfl
  have hfirst : scripts[0]? = some scripts[0] := rfl
  have hline : '\n' ∉ (Path.mk "/ob").text.toList := by decide +kernel
  have hrule : scripts[0].rule 0 (execroot ⟨"/ob"⟩) = .ok scriptRules[0] := rfl
  have hwhole : scriptRules[0].command.toList.takeWhile (· ≠ '\n') =
      scriptRules[0].command.toList := by decide +kernel
  obtain ⟨_, _, rule, before, _, rest, -, -, hrule', -, htext, hread, -⟩ :=
    spliced_command_read listOfDocument_scriptReport rfl rfl hbase hline splice_scripts
      render_scriptRules hfirst
  obtain rfl : rule = scriptRules[0] := Except.ok.inj (hrule'.symm.trans hrule)
  rw [hwhole] at hread
  exact ⟨before, rest, render_scriptRules.trans (congrArg Except.ok htext), hread⟩

/-- The script in two lines is cut after the first one, in front of its closing quote. -/
theorem script_cut_at_lineFeed : ∃ rest,
    Ninja.render ⟨scriptRules, ∅⟩ = .ok (Ninja.textToCommand [] scriptRules[1] ++ rest) ∧
      scripts[1].rule 1 (execroot ⟨"/ob"⟩) = .ok scriptRules[1] ∧
      Ninja.readCommand? rest.toList = some "cd /ob/execroot/__main__ && sh -c 'a".toList ∧
      Ninja.readCommand? rest.toList ≠ some scriptRules[1].command.toList := by
  have hphony : scriptRules[1].isPhony = false := rfl
  have hhead : scriptRules[1].command.toList.head? ≠ some ' ' := by decide +kernel
  have horder : scriptRules.reverse = [] ++ scriptRules[1] :: [scriptRules[0]] := rfl
  obtain ⟨rest, htext⟩ := Ninja.exists_text_of_command [] [scriptRules[0]] hphony
  rw [← horder] at htext
  refine ⟨_, render_scriptRules.trans (congrArg Except.ok htext), rfl, ?_⟩
  rw [Ninja.readCommand?_escapeValue hhead]
  decide +kernel

end HybridBuild
