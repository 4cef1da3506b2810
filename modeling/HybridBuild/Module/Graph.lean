import HybridBuild.Digraph.Layers
import HybridBuild.Digraph.TopoSort
import HybridBuild.Module.Basic
import HybridBuild.Path
import HybridBuild.Text.Quoted
/-!
# Module graphs

A list of modules is accepted when their names differ, every dependency is a
module of the list, and no module depends on itself in any number of steps. Of
several faults a repeated name is reported before an undefined dependency, and
that before a cycle. An accepted list falls into waves: each module stands one
wave after the last of its dependencies.
-/
namespace HybridBuild

/-- Why a module list is refused. -/
inductive ModuleError where
  | unreadable (path : Path)
  | malformed
  | duplicateModule (name : String)
  | unknownDependency (module dep : String)
  | cycle (name : String)
  deriving DecidableEq, Repr

def ModuleError.message : ModuleError → String
  | unreadable path => s!"failed to read module graph {path}"
  | malformed => "invalid module graph"
  | duplicateModule name => s!"module {quoteText name} is defined more than once"
  | unknownDependency module dep =>
    s!"module {quoteText module} depends on undefined module {quoteText dep}"
  | cycle name => s!"dependency cycle through module {quoteText name}"

/-- The first text of a list that occurs before it, in the list or among the texts
`before`. -/
def firstRepeated? (before : List String) : List String → Option String
  | [] => none
  | x :: rest => if x ∈ before then some x else firstRepeated? (x :: before) rest

namespace ModuleDecl

/-- The first dependency that names no module of the list, after the name of the
module that declares it. -/
def firstUndefined? (modules : List ModuleDecl) : Option (String × String) :=
  modules.findSome? fun m =>
    (m.deps.find? fun dep => !modules.any (·.name = dep)).map fun dep => (m.name, dep)

/-- The graph with an edge from every dependency to the module that declares it,
in the order of the declarations. -/
def digraph (modules : List ModuleDecl) : Digraph modules.length where
  edges := (List.finRange modules.length).flatMap fun i =>
    modules[i].deps.filterMap fun dep =>
      (modules.findFinIdx? (·.name = dep)).map fun j => (j, i)

/-- Checks that a list of modules can be built. -/
def check (modules : List ModuleDecl) : Except ModuleError Unit :=
  match firstRepeated? [] (modules.map name) with
  | some name => .error (.duplicateModule name)
  | none =>
    match firstUndefined? modules with
    | some (name, dep) => .error (.unknownDependency name dep)
    | none =>
      match (digraph modules).topoSort with
      | .error i => .error (.cycle modules[i].name)
      | .ok _ => .ok ()

end ModuleDecl

/-- A list of modules that can be built. -/
structure ModuleGraph where
  modules : List ModuleDecl
  checked : ModuleDecl.check modules = .ok ()

namespace ModuleGraph

def ofModules (modules : List ModuleDecl) : Except ModuleError ModuleGraph :=
  match h : ModuleDecl.check modules with
  | .error e => .error e
  | .ok () => .ok ⟨modules, h⟩

def get? (g : ModuleGraph) (name : String) : Option ModuleDecl :=
  g.modules.find? (·.name = name)

def size (g : ModuleGraph) : Nat := g.modules.length

/-- The modules in waves, each module one wave after the last of its
dependencies, in the order of their declarations. -/
def waves (g : ModuleGraph) : List (List ModuleDecl) :=
  (ModuleDecl.digraph g.modules).layers.map fun layer => layer.map fun i => g.modules[i]

end ModuleGraph

end HybridBuild
