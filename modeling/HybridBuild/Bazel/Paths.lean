import HybridBuild.Path
/-!
# Paths of a mixed build

A mixed build is asked for by the environment, which must then name every path
that Bazel needs; a value of less than two bytes counts as missing. The generated
files lie in a directory of their own below the build directory.
-/
namespace HybridBuild

/-- The values of environment variables. -/
abbrev Environment := String → Option String

/-- The variable that asks for a mixed build when it is `1`. -/
def mixedBuildVariable : String := "USE_BAZEL_ANALYSIS"

def Environment.asksForMixedBuild (env : Environment) : Bool :=
  env mixedBuildVariable = some "1"

/-- Why a mixed build cannot be set up: variables are missing. -/
inductive ConfigError where
  | missingVariables (names : List String)
  deriving DecidableEq, Repr

def ConfigError.message : ConfigError → String
  | missingVariables names =>
    let names := ", ".intercalate names
    s!"missing required env vars to use bazel: [{names}]"

/-- The execution root below an output base, in which Bazel's actions run. -/
def execroot (outputBase : Path) : Path := (outputBase.join "execroot").join "__main__"

structure BazelPaths where
  /-- The home directory that Bazel is given. -/
  homeDir : Path
  /-- The Bazel program. -/
  program : Path
  outputBase : Path
  /-- The root of the source tree, in which Bazel runs. -/
  workspaceDir : Path
  /-- The native build directory, relative to the workspace unless absolute. -/
  buildDir : Path
  /-- The directory that receives the profile of each run. -/
  metricsDir : Path
  deriving DecidableEq, Repr

namespace BazelPaths

/-- The variables that name the paths, in order. -/
def requiredVariables : List String :=
  ["BAZEL_HOME", "BAZEL_PATH", "BAZEL_OUTPUT_BASE", "BAZEL_WORKSPACE", "BAZEL_METRICS_DIR"]

/-- The value of a variable, if it is long enough to be a path. -/
def setting? (env : Environment) (name : String) : Option String :=
  (env name).filter fun value => 1 < value.utf8ByteSize

def ofEnvironment (env : Environment) (buildDir : Path) : Except ConfigError BazelPaths :=
  match requiredVariables.map (setting? env) with
  | [some home, some program, some outputBase, some workspace, some metrics] =>
    .ok {
      homeDir := ⟨home⟩
      program := ⟨program⟩
      outputBase := ⟨outputBase⟩
      workspaceDir := ⟨workspace⟩
      buildDir
      metricsDir := ⟨metrics⟩ }
  | _ => .error (.missingVariables (requiredVariables.filter fun name => (setting? env name).isNone))

/-- The directory of the generated files, relative to the workspace unless the
build directory is absolute. -/
def intermediatesDir (p : BazelPaths) : Path := p.buildDir.join "bazel"

/-- The directory of the generated files, seen from where the build runs. -/
def absoluteIntermediatesDir (p : BazelPaths) : Path :=
  p.workspaceDir.join p.intermediatesDir.text

/-- Where Bazel's actions run. -/
def execroot (p : BazelPaths) : Path := HybridBuild.execroot p.outputBase

end BazelPaths

end HybridBuild
