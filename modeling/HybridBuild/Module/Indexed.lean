import HybridBuild.Module.Graph
import Std.Data.HashMap
/-!
# Module lists with a table of names

A list of modules is gone through twice. The first time the place of every module is
noted under its name, the second time every dependency is looked up and gives an edge
of the graph; each time the first fault ends the check. A cycle is looked for last.
Afterwards the table finds a module by its name.
-/
namespace HybridBuild

/-- The places of the modules of a list by their names. -/
abbrev ModulePlaces (modules : List ModuleDecl) := Std.HashMap String (Fin modules.length)

/-- The places of the modules of a list, and the graph of their dependencies. -/
structure IndexedModules (modules : List ModuleDecl) where
  places : ModulePlaces modules
  graph : Digraph modules.length

namespace IndexedModules

variable {modules : List ModuleDecl}

/-- Notes some places under the names of their modules. A name that has a place already
is a fault. -/
def notePlaces (places : ModulePlaces modules) :
    List (Fin modules.length) → Except ModuleError (ModulePlaces modules)
  | [] => .ok places
  | i :: rest =>
    if places.contains (modules.get i).name then .error (.duplicateModule (modules.get i).name)
    else notePlaces (places.insert (modules.get i).name i) rest

/-- Adds an edge to the place of a module from that of each of some dependencies. A
dependency without a place is a fault. -/
def addDeps (places : ModulePlaces modules) (module : String) (place : Fin modules.length)
    (g : Digraph modules.length) : List String → Except ModuleError (Digraph modules.length)
  | [] => .ok g
  | dep :: rest =>
    match places[dep]? with
    | none => .error (.unknownDependency module dep)
    | some found => addDeps places module place ⟨g.edges ++ [(found, place)]⟩ rest

/-- Adds the edges of the dependencies of some modules. The place of each module is
looked up as well; it is in the table. -/
def addEdges (places : ModulePlaces modules) (g : Digraph modules.length) :
    List (Fin modules.length) → Except ModuleError (Digraph modules.length)
  | [] => .ok g
  | i :: rest => do
    let place := places.getD (modules.get i).name i
    addEdges places (← addDeps places (modules.get i).name place g (modules.get i).deps) rest

/-- The table and the graph of a list of modules that can be built. -/
def ofModules (modules : List ModuleDecl) : Except ModuleError (IndexedModules modules) := do
  let places ← notePlaces ∅ (List.finRange modules.length)
  let graph ← addEdges places ⟨[]⟩ (List.finRange modules.length)
  match graph.topoSort with
  | .error i => .error (.cycle (modules.get i).name)
  | .ok _ => .ok ⟨places, graph⟩

def get? (x : IndexedModules modules) (name : String) : Option ModuleDecl :=
  x.places[name]?.map modules.get

end IndexedModules

end HybridBuild
