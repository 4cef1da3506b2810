import HybridBuild.Action.Resolve
import HybridBuild.Shell
/-!
# Build statements

A build statement is an action with every reference resolved. An action needs a
command: some argument that is not empty. The outputs whose paths end in `.d`
are depfiles, of which there may be at most one. The statements of a report stand
in the order of its actions, and one faulty action spoils them all.
-/
namespace HybridBuild

/-- One action that Bazel would run, with its command and its files' paths. -/
structure Statement where
  mnemonic : String
  command : String
  inputs : List String
  outputs : List String
  depfile : Option String
  env : List EnvEntry
  deriving DecidableEq, Repr

/-- Whether a path is that of a depfile. -/
def isDepfile (path : String) : Bool := ".d".toList.isSuffixOf path.toList

namespace ActionIndex

/-- The statement of one action. -/
def statement (ix : ActionIndex) (resolved : Resolved) (action : Action) :
    Except ActionError (Statement × Resolved) :=
  if action.arguments.all String.isEmpty then
    .error (.emptyCommand action.mnemonic action.key)
  else
    match ix.setPaths resolved [] action.inputSets with
    | .error e => .error e
    | .ok (inputs, resolved) =>
      match ix.artifactPaths resolved.paths action.outputs with
      | .error e => .error e
      | .ok (paths, known) =>
        let (depfiles, outputs) := paths.partition isDepfile
        if 1 < depfiles.length then
          .error (.multipleDepfiles action.mnemonic action.key depfiles)
        else
          .ok ({
            mnemonic := action.mnemonic
            command := shellWords action.arguments
            inputs
            outputs
            depfile := depfiles.head?
            env := action.environment }, { resolved with paths := known })

def statements (ix : ActionIndex) (resolved : Resolved) :
    List Action → Except ActionError (List Statement)
  | [] => .ok []
  | action :: rest =>
    match ix.statement resolved action with
    | .error e => .error e
    | .ok (statement, resolved) =>
      match ix.statements resolved rest with
      | .error e => .error e
      | .ok more => .ok (statement :: more)

end ActionIndex

def ActionTables.statements (t : ActionTables) : Except ActionError (List Statement) :=
  t.index.statements .empty t.actions

/-- Whether a byte is a blank of ASCII: space, tab, line feed, form feed or
carriage return. -/
def isAsciiBlank (b : UInt8) : Bool := [0x20, 0x09, 0x0A, 0x0C, 0x0D].contains b

/-- The statements that a document reports; a document of blanks reports none. -/
def Statement.listOfDocument (bytes : List UInt8) : Except ActionError (List Statement) :=
  if bytes.all isAsciiBlank then .ok []
  else
    match Json.parse? bytes >>= ActionTables.ofJson? with
    | none => .error .malformed
    | some tables => tables.statements

end HybridBuild
