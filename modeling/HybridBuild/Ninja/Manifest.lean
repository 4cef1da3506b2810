import HybridBuild.Ninja.Graph
/-!
# The Ninja manifest

The manifest declares the rules of a graph, producers first, each followed by its
build line. In a path a dollar sign goes before the characters that would end
it, and before itself; in a value only dollar signs are doubled. The dependency
list of the manifest itself is written in the manner of make.
-/
namespace HybridBuild.Ninja

/-- A character of a path on a build line. -/
def pathChar (c : Char) : List Char :=
  if c = '$' ∨ c = ' ' ∨ c = ':' ∨ c = '\n' then ['$', c] else [c]

/-- A path on a build line. -/
def escapePath (path : String) : String :=
  String.ofList (path.toList.flatMap pathChar)

/-- A character of a value. -/
def valueChar (c : Char) : List Char :=
  if c = '$' then ['$', '$'] else [c]

/-- The value of a binding. -/
def escapeValue (value : String) : String :=
  String.ofList (value.toList.flatMap valueChar)

/-- A group of paths after what introduces it, or nothing if there are none. -/
def pathGroup (intro : String) (paths : List String) : String :=
  if paths.isEmpty then "" else intro ++ " ".intercalate (paths.map escapePath)

/-- The build line of a rule that is declared under `id`. -/
def buildLine (id : String) (r : Rule) : String :=
  "build" ++ pathGroup " " r.outputs ++ pathGroup " | " r.implicitOutputs ++ ": " ++ id ++
    pathGroup " " r.inputs ++ pathGroup " | " r.implicitInputs ++ "\n"

/-- A binding inside a rule's declaration. -/
def binding (key value : String) : String :=
  "  " ++ key ++ " = " ++ escapeValue value ++ "\n"

def bindings (r : Rule) : String :=
  binding "command" r.command ++
  (if r.description.isEmpty then "" else binding "description" r.description) ++
  (match r.depfile with
    | some depfile => binding "depfile" depfile ++ binding "deps" "gcc"
    | none => "") ++
  (if r.restat then binding "restat" "true" else "")

/-- The paragraph of a rule: its declaration, unless it is phony, and its build
line. -/
def paragraph (r : Rule) : String :=
  if r.isPhony then "\n" ++ buildLine "phony" r
  else "\nrule " ++ r.id ++ "\n" ++ bindings r ++ buildLine r.id r

/-- The name that a manifest gives to what wrote it. -/
def toolName : String := "mixbuild"

def header : String :=
  s!"# Generated by {toolName}. Do not edit.\n" ++ "ninja_required_version = 1.7.1\n"

/-- The manifest of a graph. -/
def render (g : ActionGraph) : Except GraphError String :=
  g.ordered.map fun rules => header ++ String.join (rules.map paragraph)

/-- A character of a path in a dependency list. -/
def depChar (c : Char) : List Char :=
  if c = ' ' then ['\\', ' '] else [c]

/-- A path in a dependency list. -/
def escapeDep (path : String) : String :=
  String.ofList (path.toList.flatMap depChar)

/-- The dependency list of a target, one dependency on each line after it. -/
def renderDepfile (target : String) (deps : List String) : String :=
  escapeDep target ++ ":" ++
    String.join (deps.map fun dep => " \\\n  " ++ escapeDep dep) ++ "\n"

end HybridBuild.Ninja
