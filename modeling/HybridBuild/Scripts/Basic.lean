import HybridBuild.Path
import HybridBuild.Query.Kind
import HybridBuild.Scripts.Template
import HybridBuild.Text.Lines
/-!
# Generated scripts

The scripts are a Bazel workspace that evaluates every waiting request: one node
for each architecture tag that depends on the labels requested under it, and a
query script that maps the ids of each kind to its function. Labels and ids are
grouped in sorted sets, so the scripts depend only on what is asked. A label that
would be misread in the query's output and a kind that nobody registered are
refused before anything is made.
-/
namespace HybridBuild

/-- Why scripts cannot be made or written. -/
inductive ScriptError where
  | invalidLabels (labels : List String)
  | unknownKind (kind : String)
  | createDir (path : Path)
  | writeFile (path : Path)
  deriving DecidableEq, Repr

def ScriptError.message : ScriptError → String
  | invalidLabels labels =>
    let labels := ", ".intercalate labels
    s!"labels cannot be expressed in query output (contain '>>' or '|'): {labels}"
  | unknownKind kind => s!"request for unregistered query kind {quoteText kind}"
  | createDir path => s!"failed to create directory {path}"
  | writeFile path => s!"failed to write file {path}"

structure ScriptSet where
  workspace : String
  buildFile : String
  mainBzl : String
  cquery : String
  deriving DecidableEq, Repr

namespace Scripts

/-- Replaces a placeholder of a template. -/
def fill (template name text : String) : String :=
  replaceText template (placeholder name) text

/-- Texts between double quotes, as Starlark writes them in a list. -/
def quotedList (items : List String) : String :=
  ", ".intercalate (items.map fun item => "\"" ++ item ++ "\"")

/-- Texts in sorted groups, each group under its name. -/
abbrev Groups := Std.TreeMap String (Std.TreeSet String)

/-- Puts a text into the group with a given name. -/
def addToGroup (groups : Groups) (name text : String) : Groups :=
  groups.insert name ((groups.getD name ∅).insert text)

/-- Requests in groups; `name` and `text` tell where each goes. -/
def groupBy (name text : Request → String) (requests : List Request) : Groups :=
  requests.foldl (fun groups r => addToGroup groups (name r) (text r)) ∅

/-- The labels requested under each architecture tag. -/
def labelsByTag (requests : List Request) : Groups :=
  groupBy (fun r => r.arch.requestTag) Request.canonical requests

/-- The ids requested of each query kind. -/
def idsByKind (requests : List Request) : Groups :=
  groupBy Request.kind Request.id requests

/-- The node of one architecture tag. -/
def configNode (tag : String) (labels : Std.TreeSet String) : String :=
  fill (fill configNodeTemplate "arch" tag) "labels" (quotedList labels.toList)

def buildFile (requests : List Request) : String :=
  let groups := labelsByTag requests
  let nodes := String.join (groups.toList.map fun (tag, labels) => configNode tag labels ++ "\n")
  let names := quotedList (groups.keys.map fun tag => ":" ++ tag)
  fill (fill buildTemplate "config_nodes" nodes) "config_node_labels" names

/-- A function body, every line of which that is not empty moved to the right. -/
def indent (body : String) : String :=
  "\n".intercalate ((textLines body).map fun line => if line.isEmpty then "" else "  " ++ line)

/-- The entries of the table of ids. -/
def idEntries (ids : Std.TreeSet String) : String :=
  String.join (ids.toList.map fun id => "  \"" ++ id ++ "\": True,\n")

/-- The table and the function of a query kind. -/
def kindSection (kind : QueryKind) (ids : Std.TreeSet String) : String :=
  fill (fill (fill queryKindTemplate "ids" (idEntries ids)) "body" (indent kind.body))
    "kind" kind.name ++ "\n"

/-- The use of a query kind. -/
def kindDispatch (kind : QueryKind) : String := fill queryDispatchTemplate "kind" kind.name

def cqueryFile (requests : List Request) (registry : QueryRegistry) : String :=
  let groups := idsByKind requests
  let asked := registry.kinds.filterMap fun kind => groups[kind.name]?.map fun ids => (kind, ids)
  let kinds := String.join (asked.map fun (kind, ids) => kindSection kind ids)
  let dispatch := String.join (asked.map fun (kind, _) => kindDispatch kind)
  fill (fill cqueryTemplate "kinds" kinds) "dispatch" dispatch

/-- Whether a label would be misread in the query's output. -/
def isAmbiguous (label : String) : Bool :=
  textContains label answerSeparator || textContains label idSeparator

end Scripts

namespace ScriptSet

open Scripts

/-- The scripts for some requests. -/
def synthesize (workspaceDir : Path) (requests : List Request) (registry : QueryRegistry) :
    Except ScriptError ScriptSet :=
  match (requests.map Request.label).filter isAmbiguous with
  | [] =>
    match requests.find? fun r => (registry.get? r.kind).isNone with
    | some r => .error (.unknownKind r.kind)
    | none =>
      .ok {
        workspace := fill workspaceTemplate "workspace" workspaceDir.text
        buildFile := Scripts.buildFile requests
        mainBzl := Scripts.mainBzl
        cquery := cqueryFile requests registry }
  | labels => .error (.invalidLabels (Std.TreeSet.ofList labels).toList)

def cqueryName : String := "buildroot.cquery"

/-- The names of the generated files, in the order in which they are written. -/
def fileNames : List String := ["main.bzl", "BUILD.bazel", cqueryName, "WORKSPACE.bazel"]

/-- The generated files with their names, in the order in which they are written. -/
def files (s : ScriptSet) : List (String × String) :=
  fileNames.zip [s.mainBzl, s.buildFile, s.cquery, s.workspace]

/-- The paths of the generated files in a directory. -/
def paths (dir : Path) : List Path := fileNames.map dir.join

end ScriptSet

end HybridBuild
