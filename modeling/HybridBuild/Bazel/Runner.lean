import HybridBuild.Bazel.Paths
import HybridBuild.Files.Tree
import HybridBuild.Query.Answers
/-!
# Running Bazel

Every run of Bazel carries the same flags, so that the query, the report of
actions and the final build see one configuration. What a run answers is left to a
runner, which may look at the files and at the runs before, and may change files;
one runner has its answers prepared, another starts a program.
-/
namespace HybridBuild

/-- The occasion of a run, which also names its profile. -/
inductive RunName where
  | cqueryBuildroot
  | aqueryBuildroot
  | buildPhonyRoot
  deriving DecidableEq, Repr

namespace RunName

def label : RunName → String
  | cqueryBuildroot => "cquery-buildroot"
  | aqueryBuildroot => "aquery-buildroot"
  | buildPhonyRoot => "bazel-build-phony-root"

instance : ToString RunName := ⟨label⟩

/-- The profile that a run leaves behind. -/
def profile (run : RunName) (paths : BazelPaths) : Path :=
  paths.metricsDir.join (run.label ++ "_bazel_profile.gz")

end RunName

structure BazelCommand where
  verb : String
  expression : String
  deriving DecidableEq, Repr

instance : ToString BazelCommand := ⟨fun c => c.verb ++ " " ++ c.expression⟩

structure Invocation where
  run : RunName
  command : BazelCommand
  extraFlags : List String
  deriving DecidableEq, Repr

/-- The flags that every run ends with, before its own. -/
def commonFlags : List String :=
  ["--platforms=@sourceroot//build/bazel/platforms:android_x86_64",
   "--extra_toolchains=@sourceroot//prebuilts/clang/host/linux-x86:all",
   "--host_platform=@sourceroot//build/bazel/platforms:linux_x86_64",
   "--experimental_repository_disable_download"]

def Invocation.arguments (i : Invocation) (paths : BazelPaths) : List String :=
  ["--output_base=" ++ paths.outputBase.text,
   i.command.verb,
   i.command.expression,
   "--package_path=%workspace%/" ++ paths.intermediatesDir.text,
   "--profile=" ++ (i.run.profile paths).text] ++ commonFlags ++ i.extraFlags

/-- The variables that a run adds to the environment. -/
def BazelPaths.environment (paths : BazelPaths) : List (String × String) :=
  [("HOME", paths.homeDir.text), ("PWD", "/proc/self/cwd"),
   ("BAZEL_DO_NOT_DETECT_CPP_TOOLCHAIN", "1")]

/-- Why a run has no answer. -/
inductive RunnerError where
  | notStarted (command : String)
  | failed (command : String) (env : List (String × String)) (code : Option Int)
      (stderr : String)
  deriving DecidableEq, Repr

def RunnerError.message : RunnerError → String
  | notStarted command => s!"failed to spawn bazel `{command}`"
  | failed command env code stderr =>
    let code := match code with
      | some n => s!"Some({n})"
      | none => "None"
    let env := " ".intercalate (env.map fun (name, value) => name ++ "=" ++ value)
    s!"bazel command failed with exit code {code}: `{command}` (env: {env}): {stderr}"

/-- Answers runs, given the files and the runs before, the oldest first, and tells
the files that a run leaves. -/
structure Runner where
  answer : FileTree → List Invocation → BazelPaths → Invocation →
    Except RunnerError CommandOutput × FileTree

namespace Runner

/-- The entry for a command that was added last. -/
def lastFor? {α : Type} (entries : List (BazelCommand × α)) (command : BazelCommand) : Option α :=
  entries.reverse.lookup command

/-- Answers commands with prepared outputs and failures, of which the failures win.
Any other command succeeds and writes nothing. No file is touched. -/
def prepared (outputs : List (BazelCommand × CommandOutput))
    (failures : List (BazelCommand × (Int × String))) : Runner where
  answer files _ paths i :=
    match lastFor? failures i.command with
    | some (code, stderr) =>
      let command := " ".intercalate (i.arguments paths)
      (.error (.failed command paths.environment (some code) stderr), files)
    | none => (.ok ((lastFor? outputs i.command).getD ⟨"", ""⟩), files)

structure Launch where
  program : Path
  arguments : List String
  /-- The directory it runs in, from which a relative program is looked up. -/
  dir : Path
  /-- The variables added to the environment. -/
  env : List (String × String)
  deriving DecidableEq, Repr

/-- How a program ended: its code, unless it was killed, and what it wrote. -/
structure Exit where
  code : Option Int
  stdout : List UInt8
  stderr : List UInt8
  deriving DecidableEq, Repr

/-- The program that a run starts. -/
def launchOf (paths : BazelPaths) (i : Invocation) : Launch where
  program := paths.program
  arguments := i.arguments paths
  dir := paths.workspaceDir
  env := paths.environment

/-- Starts the Bazel program for each run. What it writes is read as UTF-8, with
replacement characters where it is not. -/
def ofProgram (start : FileTree → Launch → Option Exit × FileTree) : Runner where
  answer files _ paths i :=
    let command := " ".intercalate (paths.program.text :: i.arguments paths)
    match start files (launchOf paths i) with
    | (none, files) => (.error (.notStarted command), files)
    | (some e, files) =>
      let stdout := Utf8.decodeLossy e.stdout
      let stderr := Utf8.decodeLossy e.stderr
      if e.code = some 0 then (.ok ⟨stdout, stderr⟩, files)
      else (.error (.failed command paths.environment e.code stderr), files)

end Runner

end HybridBuild
