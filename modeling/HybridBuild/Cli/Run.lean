import HybridBuild.Build.Basic
import HybridBuild.Cli.Command
import HybridBuild.Json.Pretty
import HybridBuild.Module.Decode
/-!
# Running a command

A command reads files and the environment, and ends with a report or an error; in
both cases it may have written files and run Bazel. An error is told by what was
being done, followed by its cause.
-/
namespace HybridBuild.Cli

/-- Why a command fails. -/
inductive CliError where
  | modules (path : Path) (e : ModuleError)
  | moduleListNotFound (path : Path)
  | config (e : ConfigError)
  | disabled
  | analysis (e : BuildError)
  | manifest (e : BuildError)
  | scripts (e : ScriptError)
  | unreadable (path : Path)
  | actions (e : ActionError)
  deriving DecidableEq, Repr

def CliError.message : CliError → String
  | modules path _ => s!"Failed to load modules: {path}"
  | moduleListNotFound path => s!"Module list not found: {path}"
  | config _ => "Failed to configure Bazel"
  | disabled => s!"Mixed builds are disabled; set {mixedBuildVariable}=1"
  | analysis _ => "Build analysis failed"
  | manifest _ => "Failed to write ninja file"
  | scripts _ => "Failed to write Bazel scripts"
  | unreadable path => s!"Failed to read {path}"
  | actions _ => "Failed to parse action graph"

/-- The text of the cause, if it is known. -/
def CliError.cause? : CliError → Option String
  | modules _ e => some e.message
  | config e => some e.message
  | analysis e | manifest e => some e.message
  | scripts e => some e.message
  | actions e => some e.message
  | moduleListNotFound _ | disabled | unreadable _ => none

/-- What a command leaves behind: its report or error, the files, and the runs of
Bazel, the oldest first. -/
structure Ending where
  result : Except CliError String
  files : FileTree
  issued : List Invocation

/-- The runs of Bazel that a source has issued. -/
def issuedBy : FactSource → List Invocation
  | .session s => s.issued
  | .disabled | .fixed _ => []

def report (lines : List String) : String := String.join (lines.map (· ++ "\n"))

def loadModules (files : FileTree) (path : Path) : Except ModuleError ModuleGraph :=
  match files.readText? path with
  | none => .error (.unreadable path)
  | some text => ModuleGraph.ofDocument (Utf8.encode text)

/-- The absolute path of the module list, if one is given and exists. -/
def locateModuleList (files : FileTree) : Option Path → Except CliError (Option Path)
  | none => .ok none
  | some path =>
    match files.find? path with
    | none => .error (.moduleListNotFound path)
    | some loc => .ok (some (FileTree.absolute loc))

def buildReport (modules : ModuleGraph) (g : ActionGraph) (src : FactSource) (manifest : Path) :
    String :=
  report ([s!"Modules: {modules.size}", s!"Rules: {g.size}"] ++
    (if src.enabled then [s!"Bazel actions: {src.statements.length}"] else []) ++
    [s!"Path: {manifest}"])

/-- What a build needs before it starts: its modules, its options and its source of
facts. -/
def prepareBuild (modules out : Path) (moduleList : Option Path) (env : Environment)
    (runner : Runner) (files : FileTree) :
    Except CliError (ModuleGraph × BuildOptions × FactSource) :=
  match loadModules files modules with
  | .error e => .error (.modules modules e)
  | .ok g =>
    match locateModuleList files moduleList with
    | .error e => .error e
    | .ok moduleList =>
      match FactSource.ofEnvironment env out runner with
      | .error e => .error (.config e)
      | .ok src => .ok (g, ⟨out, moduleList⟩, src)

def runBuild (modules out : Path) (moduleList : Option Path) (env : Environment)
    (runner : Runner) (files : FileTree) : Ending :=
  match prepareBuild modules out moduleList env runner files with
  | .error e => ⟨.error e, files, []⟩
  | .ok (g, options, src) =>
    match Build.run g options src files with
    | (.error e, src, files) => ⟨.error (.analysis e), files, issuedBy src⟩
    | (.ok graph, src, files) =>
      match Build.writeManifest graph out files with
      | (.error e, files) => ⟨.error (.manifest e), files, issuedBy src⟩
      | (.ok (manifest, _), files) =>
        ⟨.ok (buildReport g graph src manifest), files, issuedBy src⟩

/-- The session of a module list after its first planning pass. -/
def prepareScripts (modules out : Path) (env : Environment) (runner : Runner)
    (files : FileTree) : Except CliError Session :=
  if !env.asksForMixedBuild then .error .disabled
  else
    match loadModules files modules with
    | .error e => .error (.modules modules e)
    | .ok g =>
      match BazelPaths.ofEnvironment env out with
      | .error e => .error (.config e)
      | .ok paths =>
        let s := Session.start paths runner
        let pass := Pass.ofGraph (FactSource.session s).facts out g
        match pass.result with
        | .error e => .error (.analysis (.plan e))
        | .ok _ => .ok { s with ledger := pass.asked.foldl Ledger.ask s.ledger }

/-- Writes the scripts that would ask Bazel about a module list. -/
def runScripts (modules out : Path) (env : Environment) (runner : Runner)
    (files : FileTree) : Ending :=
  match prepareScripts modules out env runner files with
  | .error e => ⟨.error e, files, []⟩
  | .ok s =>
    match s.writeScripts files with
    | (.error e, files) => ⟨.error (.scripts e), files, []⟩
    | (.ok written, files) =>
      ⟨.ok (report (s!"Requests: {s.ledger.pending.length}" ::
        written.map fun path => s!"  {path}")), files, []⟩

def statementJson (s : Statement) : Json.Printer :=
  Json.printObject [
    ("mnemonic", Json.printText s.mnemonic),
    ("command", Json.printText s.command),
    ("input_paths", Json.printArray (s.inputs.map Json.printText)),
    ("output_paths", Json.printArray (s.outputs.map Json.printText)),
    ("depfile", Json.printText? s.depfile),
    ("env", Json.printArray (s.env.map fun entry =>
      Json.printObject [("key", Json.printText entry.key), ("value", Json.printText entry.value)]))]

def statementLines (s : Statement) : List String :=
  (s.mnemonic ++ ": " ++ " ".intercalate s.outputs) ::
    (s.depfile.map fun path => "  depfile: " ++ path).toList

def statementsReport (json : Bool) (statements : List Statement) : String :=
  if json then Json.printArray (statements.map statementJson) 0 ++ "\n"
  else report (s!"Actions: {statements.length}" :: statements.flatMap statementLines)

/-- Prints the build statements of a saved report. -/
def runActions (file : Path) (json : Bool) (files : FileTree) : Except CliError String :=
  match files.read? file with
  | none => .error (.unreadable file)
  | some bytes =>
    match Statement.listOfDocument bytes with
    | .error e => .error (.actions e)
    | .ok statements => .ok (statementsReport json statements)

def run (c : Command) (env : Environment) (runner : Runner) (files : FileTree) : Ending :=
  match c with
  | .build modules out moduleList => runBuild modules out moduleList env runner files
  | .scripts modules out => runScripts modules out env runner files
  | .actions file json => ⟨runActions file json files, files, []⟩

/-- The files that a command may read. -/
def reads : Command → List Path
  | .build modules _ moduleList =>
    modules :: (moduleList.toList.flatMap fun path => [path, bazelListOf path])
  | .scripts modules _ => [modules]
  | .actions file _ => [file]

end HybridBuild.Cli
