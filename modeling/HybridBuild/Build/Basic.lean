import HybridBuild.Build.Splice
import HybridBuild.Ninja.Manifest
import HybridBuild.Variant.Plan
/-!
# Mixed builds

A build plans its modules, and where facts may be used does so twice: the first
pass queues the requests, Bazel is invoked once to answer them, and the second pass
finds every answer. The rules of the second pass, followed by those of Bazel's
actions, make the graph, which must have an order before anything is written.
-/
namespace HybridBuild

inductive BuildError where
  | plan (e : PlanError)
  | source (e : SourceError)
  | splice (e : SpliceError)
  | graph (e : GraphError)
  | unsettledRequests (requests : List Request)
  | createDir (path : Path)
  | writeFile (path : Path)
  deriving DecidableEq, Repr

def BuildError.message : BuildError → String
  | plan e => e.message
  | source e => e.message
  | splice e => e.message
  | graph e => e.message
  | unsettledRequests requests =>
    let requests := ", ".intercalate (requests.map toString)
    s!"second analysis pass made requests nobody will answer: {requests}"
  | createDir path => s!"failed to create directory {path}"
  | writeFile path => s!"failed to write file {path}"

/-- Where a build puts its outputs, and the file that its modules were listed
from. -/
structure BuildOptions where
  outDir : Path
  moduleList : Option Path
  deriving DecidableEq, Repr

namespace Build

/-- Plans a module graph with what a source knows, and queues the requests that
this makes. -/
def plan (g : ModuleGraph) (outDir : Path) (src : FactSource) :
    Except PlanError Plan × FactSource :=
  let pass := Pass.ofGraph src.facts outDir g
  (pass.result, src.note pass.asked)

/-- The action graph of a plan, once nothing waits for an answer. -/
def assemble (p : Plan) (src : FactSource) (files : FileTree) (moduleList : Option Path) :
    Except BuildError ActionGraph :=
  match ActionGraph.empty.addRules p.rules with
  | .error e => .error (.graph e)
  | .ok g =>
    match g.splice src with
    | (.error e, _) => .error (.splice e)
    | (.ok _, g) =>
      match src.manifestDeps files moduleList with
      | .error e => .error (.splice e)
      | .ok deps =>
        let g := g.addManifestDeps (deps ++ (moduleList.map Path.text).toList)
        match g.ordered with
        | .error e => .error (.graph e)
        | .ok _ => .ok g

/-- The second half of a build: a pass that must find every answer. -/
def finish (g : ModuleGraph) (options : BuildOptions) (src : FactSource) (files : FileTree) :
    Except BuildError ActionGraph × FactSource :=
  match plan g options.outDir src with
  | (.error e, src) => (.error (.plan e), src)
  | (.ok p, src) =>
    match src.pending with
    | [] => (assemble p src files options.moduleList, src)
    | requests => (.error (.unsettledRequests requests), src)

/-- Builds the action graph of a module graph. -/
def run (g : ModuleGraph) (options : BuildOptions) (src : FactSource) (files : FileTree) :
    Except BuildError ActionGraph × FactSource × FileTree :=
  if src.enabled then
    match plan g options.outDir src with
    | (.error e, src) => (.error (.plan e), src, files)
    | (.ok _, src) =>
      match src.invoke files with
      | (.error e, src, files) => (.error (.source e), src, files)
      | (.ok (), src, files) =>
        let (result, src) := finish g options src files
        (result, src, files)
  else
    let (result, src) := finish g options src files
    (result, src, files)

def manifestName : String := "build.ninja"

/-- The name of the manifest's dependency list. -/
def depfileName : String := "build.ninja.d"

/-- Writes the manifest of a graph and its dependency list into a directory, and
tells their paths. -/
def writeManifest (g : ActionGraph) (dir : Path) (files : FileTree) :
    Except BuildError (Path × Path) × FileTree :=
  match files.makeDirs dir with
  | (files, false) => (.error (.createDir dir), files)
  | (files, true) =>
    match Ninja.render g with
    | .error e => (.error (.graph e), files)
    | .ok text =>
      let manifest := dir.join manifestName
      match files.writeText? manifest text with
      | none => (.error (.writeFile manifest), files)
      | some files =>
        let depfile := dir.join depfileName
        match files.writeText? depfile
            (Ninja.renderDepfile manifest.text g.manifestDeps.toList) with
        | none => (.error (.writeFile depfile), files)
        | some files => (.ok (manifest, depfile), files)

end Build

end HybridBuild
