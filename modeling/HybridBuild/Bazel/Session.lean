import HybridBuild.Action.Statement
import HybridBuild.Bazel.Runner
import HybridBuild.Scripts.Write
/-!
# Bazel sessions

A session collects requests, then invokes Bazel once to settle them all, and ends
settled or failed. The invocation writes the scripts, also when nothing waits; then
it queries the targets, records every answer or none, takes in the report of
actions, and has Bazel lay out the directories in which the actions will run. Each
step that fails ends the invocation, and what the steps before it did stays.
-/
namespace HybridBuild

/-- The life of a session. -/
inductive Phase where
  | collecting
  | invoking
  | settled
  | failed
  deriving DecidableEq, Repr

def Phase.label : Phase → String
  | collecting => "collecting"
  | invoking => "invoking"
  | settled => "settled"
  | failed => "failed"

instance : ToString Phase := ⟨Phase.label⟩

/-- Why an invocation fails. -/
inductive InvokeError where
  | alreadyInvoked (phase : Phase)
  | scripts (e : ScriptError)
  | runner (e : RunnerError)
  | unanswered (u : Unanswered)
  | actions (e : ActionError)
  | writeFile (path : Path)
  deriving DecidableEq, Repr

def InvokeError.message : InvokeError → String
  | alreadyInvoked phase => s!"bazel has already been invoked (context is {phase})"
  | scripts e => e.message
  | runner e => e.message
  | unanswered u => u.message
  | actions e => e.message
  | writeFile path => s!"failed to write file {path}"

structure Session where
  paths : BazelPaths
  registry : QueryRegistry
  ledger : Ledger
  runner : Runner
  phase : Phase
  statements : List Statement
  /-- The runs so far, the oldest first. -/
  issued : List Invocation

namespace Session

/-- A session that collects requests of the built-in kinds. -/
def start (paths : BazelPaths) (runner : Runner) : Session where
  paths
  registry := .builtin
  ledger := ∅
  runner
  phase := .collecting
  statements := []
  issued := []

/-- A session that knows the query kinds of a registry instead. -/
def withRegistry (s : Session) (registry : QueryRegistry) : Session := { s with registry }

def askAll (s : Session) (requests : List Request) : Session :=
  { s with ledger := s.ledger.askAll requests }

def scripts (s : Session) : Except ScriptError ScriptSet :=
  ScriptSet.synthesize s.paths.workspaceDir s.ledger.pending s.registry

/-- Writes the scripts for the waiting requests, and tells their paths. -/
def writeScripts (s : Session) (files : FileTree) :
    Except ScriptError (List Path) × FileTree :=
  match s.scripts with
  | .error e => (.error e, files)
  | .ok scripts => scripts.write s.paths.absoluteIntermediatesDir files

def generatedFiles (s : Session) : List Path :=
  ScriptSet.paths s.paths.absoluteIntermediatesDir

def issue (s : Session) (files : FileTree) (i : Invocation) :
    Except RunnerError CommandOutput × Session × FileTree :=
  let (result, files) := s.runner.answer files s.issued s.paths i
  (result, { s with issued := s.issued ++ [i] }, files)

/-- The target that depends on every requested target. -/
def buildrootLabel : String := "//:buildroot"

/-- The target that builds nothing. -/
def phonyrootLabel : String := "//:phonyroot"

/-- The run that asks the query script about all requested targets. -/
def cquery (paths : BazelPaths) : Invocation where
  run := .cqueryBuildroot
  command := ⟨"cquery", s!"kind(rule, deps({buildrootLabel}))"⟩
  extraFlags := ["--output=starlark",
    "--starlark:file=" ++ (paths.intermediatesDir.join ScriptSet.cqueryName).text]

/-- The run that reports the actions of all requested targets. -/
def aquery : Invocation where
  run := .aqueryBuildroot
  command := ⟨"aquery", s!"deps({buildrootLabel})"⟩
  extraFlags := ["--output=jsonproto"]

/-- The run that lays out the directories in which actions run. -/
def phonyBuild : Invocation where
  run := .buildPhonyRoot
  command := ⟨"build", phonyrootLabel⟩
  extraFlags := []

def cqueryOutput (s : Session) : Path := s.paths.absoluteIntermediatesDir.join "cquery.out"

/-- Takes in the report of actions and lays out their directories, once the
requests are answered. -/
def takeActions (s : Session) (files : FileTree) :
    Except InvokeError Unit × Session × FileTree :=
  match s.issue files aquery with
  | (.error e, s, files) => (.error (.runner e), s, files)
  | (.ok report, s, files) =>
    match Statement.listOfDocument (Utf8.encode report.stdout) with
    | .error e => (.error (.actions e), s, files)
    | .ok statements =>
      match { s with statements }.issue files phonyBuild with
      | (.error e, s, files) => (.error (.runner e), s, files)
      | (.ok _, s, files) => (.ok (), { s with ledger := s.ledger.clearPending }, files)

/-- Asks Bazel about the waiting requests. -/
def askBazel (s : Session) (files : FileTree) :
    Except InvokeError Unit × Session × FileTree :=
  match s.issue files (cquery s.paths) with
  | (.error e, s, files) => (.error (.runner e), s, files)
  | (.ok output, s, files) =>
    match files.writeText? s.cqueryOutput output.stdout with
    | none => (.error (.writeFile s.cqueryOutput), s, files)
    | some files =>
      match s.ledger.settle output with
      | .error u => (.error (.unanswered u), s, files)
      | .ok (_, ledger) => { s with ledger }.takeActions files

/-- Writes the scripts and settles the waiting requests, if there are any. -/
def pipeline (s : Session) (files : FileTree) :
    Except InvokeError Unit × Session × FileTree :=
  match s.writeScripts files with
  | (.error e, files) => (.error (.scripts e), s, files)
  | (.ok _, files) =>
    if s.ledger.pending.isEmpty then (.ok (), s, files) else s.askBazel files

/-- Invokes Bazel, which a session does only once. -/
def invoke (s : Session) (files : FileTree) :
    Except InvokeError Unit × Session × FileTree :=
  if s.phase ≠ .collecting then (.error (.alreadyInvoked s.phase), s, files)
  else
    match { s with phase := .invoking }.pipeline files with
    | (.ok (), s, files) => (.ok (), { s with phase := .settled }, files)
    | (.error e, s, files) => (.error e, { s with phase := .failed }, files)

end Session

end HybridBuild
