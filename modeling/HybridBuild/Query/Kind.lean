import HybridBuild.Request.Basic
import HybridBuild.Text.Cut
import HybridBuild.Text.Blank
import HybridBuild.Text.Quoted
/-!
# Query kinds

A query kind is a named Starlark function that turns a configured target into a
text. The kinds known to a build form a registry, ordered by name. Two kinds are
built in: the paths of a target's output files, and the compile and link facts
of a native-code target.
-/
namespace HybridBuild

/-- Why a query kind cannot be registered, or an answer cannot be read. -/
inductive QueryError where
  | duplicateKind (name : String)
  | invalidName (name : String)
  | malformed (kind : String) (expected actual : Nat) (raw : String)
  deriving DecidableEq, Repr

def QueryError.message : QueryError → String
  | duplicateKind name => s!"query kind {quoteText name} is already registered"
  | invalidName name => s!"query kind name {quoteText name} must be non-empty and alphanumeric"
  | malformed kind expected actual raw =>
    s!"malformed {kind} result: expected {expected} items, got {actual} in {quoteText raw}"

/-- A named Starlark function body, not indented, that takes `target` and returns
a text. -/
structure QueryKind where
  name : String
  body : String
  deriving DecidableEq, Repr

namespace QueryKind

/-- Lists the paths of a target's output files. -/
def outputFiles : QueryKind where
  name := "getOutputFiles"
  body := "return ', '.join([f.path for f in target.files.to_list()])"

/-- Collects the compile and link facts of a native-code target. -/
def ccInfo : QueryKind where
  name := "getCcInfo"
  body := "\n".intercalate [
    "outputFiles = [f.path for f in target.files.to_list()]",
    "",
    "cc_info = providers(target)[\"CcInfo\"]",
    "includes = cc_info.compilation_context.includes.to_list()",
    "system_includes = cc_info.compilation_context.system_includes.to_list()",
    "",
    "ccObjectFiles = []",
    "staticLibraries = []",
    "linker_inputs = cc_info.linking_context.linker_inputs.to_list()",
    "",
    "for linker_input in linker_inputs:",
    "  for library in linker_input.libraries:",
    "    for object in library.objects:",
    "      ccObjectFiles += [object.path]",
    "    if library.static_library:",
    "      staticLibraries.append(library.static_library.path)",
    "",
    "returns = [",
    "  outputFiles,",
    "  staticLibraries,",
    "  ccObjectFiles,",
    "  includes,",
    "  system_includes,",
    "]",
    "",
    "return \"|\".join([\", \".join(r) for r in returns])"]

/-- Whether a text can name a query kind. -/
def isName (text : String) : Bool :=
  !text.isEmpty && text.toList.all (·.isAlphanum)

end QueryKind

/-- The query kinds known to a build: their bodies by name. -/
structure QueryRegistry where
  bodies : Std.TreeMap String String
  isName_of_mem : ∀ name ∈ bodies, QueryKind.isName name

namespace QueryRegistry

def empty : QueryRegistry := ⟨∅, by simp⟩

def get? (q : QueryRegistry) (name : String) : Option QueryKind :=
  q.bodies[name]?.map fun body => ⟨name, body⟩

/-- The registry with a kind of a fit name, in place of any other of that name. -/
def insert (q : QueryRegistry) (kind : QueryKind) (fit : QueryKind.isName kind.name) :
    QueryRegistry where
  bodies := q.bodies.insert kind.name kind.body
  isName_of_mem := by
    intro name hn
    rcases Std.TreeMap.mem_insert.mp hn with h | h
    · rwa [← Std.LawfulEqOrd.eq_of_compare h]
    · exact q.isName_of_mem name h

/-- Adds a kind, unless its name is unfit or taken. -/
def register (q : QueryRegistry) (kind : QueryKind) : Except QueryError QueryRegistry :=
  if fit : QueryKind.isName kind.name then
    if q.bodies.contains kind.name then .error (.duplicateKind kind.name)
    else .ok (q.insert kind fit)
  else .error (.invalidName kind.name)

/-- The kinds in ascending order of their names. -/
def kinds (q : QueryRegistry) : List QueryKind :=
  q.bodies.toList.map fun (name, body) => ⟨name, body⟩

def size (q : QueryRegistry) : Nat := q.bodies.size

def builtin : QueryRegistry :=
  (empty.insert .outputFiles (by decide)).insert .ccInfo (by decide)

/-- The kinds that are built in can be registered one after the other. -/
theorem register_builtin :
    (empty.register .outputFiles >>= (·.register .ccInfo)) = .ok builtin := by
  rfl

end QueryRegistry

end HybridBuild
