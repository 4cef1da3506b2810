import HybridBuild.Proofs.Action.Statement
import HybridBuild.Proofs.Shell.Words

/-!
# The words of an action's command

The command of a statement is one command of the shell, without anything that the shell would
replace, and its words are the arguments of the action: as many, in their order, and with their
texts, whatever these are.
-/
namespace HybridBuild

theorem ActionTables.States.words? {t : ActionTables} {action : Action} {s : Statement}
    (h : t.States action s) : Shell.words? s.command = some action.arguments := by
  obtain ⟨argument, hargument, -⟩ := h.arguments
  rw [h.command]
  exact Shell.words?_shellWords (List.ne_nil_of_mem hargument)

/-- Whatever a document reports: it is blank, or its statements are those of its actions, one for
each in their order, and the words that the shell reads in the command of a statement are exactly
the arguments of its action. -/
theorem words_of_commands {bytes : List UInt8} {statements : List Statement}
    (h : Statement.listOfDocument bytes = .ok statements) :
    (bytes.all isAsciiBlank ∧ statements = []) ∨
    ∃ tables, (Json.parse? bytes >>= ActionTables.ofJson?) = some tables ∧
      statements.map (fun s => Shell.words? s.command) =
        tables.actions.map fun action => some action.arguments := by
  unfold Statement.listOfDocument at h
  split at h
  next hblank => exact .inl ⟨hblank, (Except.ok.inj h).symm⟩
  next =>
    split at h
    · cases h
    next tables htables =>
      rw [ActionTables.statements_eq_mapM] at h
      exact .inr ⟨tables, htables, map_of_mapM_eq_ok h fun action s hs =>
        (ActionTables.states_of_plainStatement hs).words?⟩

/-- An action whose arguments are empty, quoted, or of two lines. -/
def quotedReport : String :=
  "[[], [[\"\", \"Genrule\", [\"sh\", \"\", \"it's $1!\", \"a\\nb\"], [], [], []]], [], []]"

def quotedStatements : List Statement :=
  [{ mnemonic := "Genrule", command := "sh '' 'it'\\''s $1'\\!'' 'a\nb'", inputs := [],
     outputs := [], depfile := none, env := [] }]

/-- The four arguments are four words again. -/
theorem words_of_commands_quoted :
    Statement.listOfDocument quotedReport.toUTF8.toList = .ok quotedStatements ∧
      ∃ tables, (Json.parse? quotedReport.toUTF8.toList >>= ActionTables.ofJson?) = some tables ∧
        tables.actions.map (fun action => some action.arguments) =
          [some ["sh", "", "it's $1!", "a\nb"]] := by
  have hdocument : Statement.listOfDocument quotedReport.toUTF8.toList = .ok quotedStatements := by
    decide +kernel
  have hread : quotedStatements.map (fun s => Shell.words? s.command) =
      [some ["sh", "", "it's $1!", "a\nb"]] := by decide +kernel
  refine ⟨hdocument, ?_⟩
  rcases words_of_commands hdocument with ⟨-, hnone⟩ | ⟨tables, htables, hwords⟩
  · exact absurd hnone (by decide)
  · exact ⟨tables, htables, hwords.symm.trans hread⟩

end HybridBuild
