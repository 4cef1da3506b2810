import HybridBuild.Facts.Source
import HybridBuild.Ninja.Graph
/-!
# Splicing Bazel's actions into the graph

Bazel's actions run in its execution root, so the rule of an action changes into
that directory first, and every path that the rule names is anchored there. The
rules are restat rules: when their outputs come out unchanged, nothing that reads
them is built again. The manifest depends on the generated scripts, and on the
files that Bazel read, if a list of them lies next to the module list.
-/
namespace HybridBuild

inductive SpliceError where
  | emptyCommand (index : Nat) (mnemonic : String)
  | noOutputBase
  | graph (e : GraphError)
  | unreadableManifest (path : Path)
  deriving DecidableEq, Repr

def SpliceError.message : SpliceError → String
  | emptyCommand index mnemonic => s!"bazel action {index} ({mnemonic}) has an empty command"
  | noOutputBase => "enabled context has no output base"
  | graph e => e.message
  | unreadableManifest path => s!"failed to read {path}"

/-- The part of a command that sets a variable for what follows. -/
def exportCommand (entry : EnvEntry) : String :=
  "export " ++ entry.key ++ "=" ++ shellWord entry.value ++ " && "

/-- A statement's command, run in the execution root with the statement's
environment. -/
def Statement.anchoredCommand (s : Statement) (execroot : Path) : String :=
  "cd " ++ execroot.text ++ " && " ++ String.join (s.env.map exportCommand) ++ s.command

/-- The rule of the statement with a given number. -/
def Statement.rule (s : Statement) (index : Nat) (execroot : Path) : Except SpliceError Rule :=
  if (trimText s.command).isEmpty then .error (.emptyCommand index s.mnemonic)
  else
    let anchor (path : String) : String := (execroot.join path).text
    .ok {
      name := s!"bazel {index}"
      description := s.mnemonic
      command := s.anchoredCommand execroot
      implicitOutputs := s.outputs.map anchor
      implicitInputs := s.inputs.map anchor
      depfile := s.depfile.map anchor
      restat := true }

namespace ActionGraph

/-- Adds the rules of statements, which are numbered from `index` on. The first
that fails ends it; the rules before stay. -/
def addStatements (g : ActionGraph) (execroot : Path) (index : Nat) :
    List Statement → Except SpliceError Unit × ActionGraph
  | [] => (.ok (), g)
  | s :: rest =>
    match s.rule index execroot with
    | .error e => (.error e, g)
    | .ok rule =>
      match g.addRule rule with
      | .error e => (.error (.graph e), g)
      | .ok g => g.addStatements execroot (index + 1) rest

/-- Adds the rules of all statements that a source knows, and counts them; a
disabled source adds none. -/
def splice (g : ActionGraph) (src : FactSource) : Except SpliceError Nat × ActionGraph :=
  if !src.enabled then (.ok 0, g)
  else
    match src.facts.outputBase with
    | none => (.error .noOutputBase, g)
    | some outputBase =>
      let (added, g) := g.addStatements (execroot outputBase) 0 src.statements
      (added.map fun _ => src.statements.length, g)

end ActionGraph

/-- The list of the files that Bazel read, next to a module list. -/
def bazelListOf (moduleList : Path) : Path :=
  (moduleList.parent?.getD ⟨""⟩).join "bazel.list"

/-- The files that a list names, one on each line that is not blank. -/
def listedFiles (text : String) : List String :=
  ((textLines text).map trimText).filter fun line => !line.isEmpty

/-- The files whose change makes the manifest out of date because of Bazel. -/
def FactSource.manifestDeps (src : FactSource) (files : FileTree) (moduleList : Option Path) :
    Except SpliceError (List String) :=
  if !src.enabled then .ok []
  else
    let generated := src.generatedFiles.map Path.text
    match moduleList.map bazelListOf with
    | none => .ok generated
    | some list =>
      if !files.isFile list then .ok generated
      else
        match files.readText? list with
        | none => .error (.unreadableManifest list)
        | some text => .ok (generated ++ list.text :: listedFiles text)

end HybridBuild
