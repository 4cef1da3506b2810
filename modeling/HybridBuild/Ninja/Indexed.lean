import HybridBuild.Ninja.Graph
import Std.Data.HashMap
import Std.Data.HashSet
/-!
# Indexed action graphs

An indexed graph keeps, beside its rules, the place of the rule that writes each file
and the identifiers that are taken, so that neither has to be searched for. A call
changes the graph in several steps and may fail in between; what it has changed by
then stays changed.
-/
namespace HybridBuild

/-- The rules of a build by their places, with the place of the rule that writes each
file and the identifiers of all rules. -/
structure IndexedGraph where
  rules : Array Rule
  producers : Std.HashMap String Nat
  ids : Std.HashSet String
  manifestDeps : Std.TreeSet String

namespace IndexedGraph

/-- A call on a graph, which may fail. -/
abbrev Call (α : Type) := ExceptT GraphError (StateM IndexedGraph) α

/-- How a call on a graph ends, and the graph that it leaves. -/
def Call.on {α : Type} (call : Call α) (g : IndexedGraph) : Except GraphError α × IndexedGraph :=
  Id.run (call.run.run g)

def empty : IndexedGraph := ⟨#[], ∅, ∅, ∅⟩

def size (g : IndexedGraph) : Nat := g.rules.size

/-- The rule that writes a file. -/
def producer? (g : IndexedGraph) (path : String) : Option Rule :=
  g.producers[path]?.bind fun place => g.rules[place]?

/-- Fails at the first output that the rule lists again, or that another rule writes,
where the outputs `seen` stand before those of the list. -/
def checkOutputs (rule : Rule) (seen : Std.TreeSet String) : List String → Call Unit
  | [] => pure ()
  | output :: rest => do
    if seen.contains output then throw (.repeatedOutput rule.name output)
    else
      match (← get).producer? output with
      | some first => throw (.duplicateOutput output first.name rule.name)
      | none => checkOutputs rule (seen.insert output) rest

/-- Notes the place of the rule that writes some outputs. -/
def noteOutputs (place : Nat) : List String → Call Unit
  | [] => pure ()
  | output :: rest => do
    modify fun g => { g with producers := g.producers.insert output place }
    noteOutputs place rest

def addRule (rule : Rule) : Call Unit := do
  if rule.allOutputs.isEmpty then throw (.noOutputs rule.name)
  else if (← get).ids.contains rule.id then throw (.duplicateRule rule.name)
  else
    checkOutputs rule ∅ rule.allOutputs
    noteOutputs (← get).rules.size rule.allOutputs
    modify fun g => { g with ids := g.ids.insert rule.id }
    modify fun g => { g with rules := g.rules.push rule }

/-- Adds files whose change makes the manifest out of date. -/
def addManifestDeps (deps : List String) : Call Unit :=
  modify fun g => { g with manifestDeps := g.manifestDeps.insertMany deps }

/-- The graph without its tables. -/
def plain (g : IndexedGraph) : ActionGraph := ⟨g.rules.toList, g.manifestDeps⟩

end IndexedGraph

end HybridBuild
