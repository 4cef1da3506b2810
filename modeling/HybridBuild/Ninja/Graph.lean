import HybridBuild.Digraph.TopoSort
import HybridBuild.Ninja.Rule
import HybridBuild.Text.Quoted
import Std.Data.TreeSet
/-!
# Action graphs

An action graph holds the rules of a build in the order of their registration. A
rule is registered when it has an output, its identifier is new, and none of its
outputs is written twice. A rule depends on the rules that write its inputs; the
rules can be ordered, producers first, unless that relation has a cycle. From the
order follows which rules would run after some files changed: a rule runs when
an input changed, and its outputs then count as changed, except those of a
restat rule none of whose outputs came out different.
-/
namespace HybridBuild

/-- Why a rule or a graph is refused. -/
inductive GraphError where
  | duplicateRule (name : String)
  | duplicateOutput (output first second : String)
  | repeatedOutput (rule output : String)
  | noOutputs (name : String)
  | cycle (name : String)
  deriving DecidableEq, Repr

def GraphError.message : GraphError → String
  | duplicateRule name => s!"rule {quoteText name} is already defined"
  | duplicateOutput output first second =>
    s!"output {output} is produced by both {quoteText first} and {quoteText second}"
  | repeatedOutput rule output => s!"rule {quoteText rule} lists output {output} more than once"
  | noOutputs name => s!"rule {quoteText name} has no outputs"
  | cycle name => s!"dependency cycle through rule {quoteText name}"

/-- The rules of a build, and the files whose change makes the manifest out of
date. -/
structure ActionGraph where
  rules : List Rule
  manifestDeps : Std.TreeSet String

namespace ActionGraph

def empty : ActionGraph := ⟨[], ∅⟩

def size (g : ActionGraph) : Nat := g.rules.length

/-- The rule that writes a file. -/
def producer? (g : ActionGraph) (path : String) : Option Rule :=
  g.rules.find? fun r => r.allOutputs.contains path

/-- The first output that a rule lists again, or that another rule writes, where
the outputs `seen` stand before those of the list. -/
def outputFault? (g : ActionGraph) (rule : Rule) (seen : List String) :
    List String → Option GraphError
  | [] => none
  | output :: rest =>
    if seen.contains output then some (.repeatedOutput rule.name output)
    else match g.producer? output with
      | some first => some (.duplicateOutput output first.name rule.name)
      | none => g.outputFault? rule (output :: seen) rest

def addRule (g : ActionGraph) (rule : Rule) : Except GraphError ActionGraph :=
  if rule.allOutputs.isEmpty then .error (.noOutputs rule.name)
  else if g.rules.any fun r => r.id = rule.id then .error (.duplicateRule rule.name)
  else match g.outputFault? rule [] rule.allOutputs with
    | some fault => .error fault
    | none => .ok { g with rules := g.rules ++ [rule] }

/-- Registers rules one after the other. -/
def addRules (g : ActionGraph) (rules : List Rule) : Except GraphError ActionGraph :=
  rules.foldlM addRule g

def addManifestDeps (g : ActionGraph) (deps : List String) : ActionGraph :=
  { g with manifestDeps := g.manifestDeps.insertMany deps }

/-- The graph with an edge from the rule that writes a file to each rule that
reads it, in the order of registration. -/
def digraph (rules : List Rule) : Digraph rules.length where
  edges := (List.finRange rules.length).flatMap fun i =>
    rules[i].allInputs.filterMap fun input =>
      (rules.findFinIdx? fun r => r.allOutputs.contains input).map fun j => (j, i)

/-- The rules, each after the rules that write its inputs. -/
def ordered (g : ActionGraph) : Except GraphError (List Rule) :=
  match (digraph g.rules).topoSort with
  | .error i => .error (.cycle g.rules[i].name)
  | .ok order => .ok (order.map fun i => g.rules[i])

/-- The files that have changed and the names of the rules that run. -/
structure Dirt where
  changed : Std.TreeSet String
  dirty : Std.TreeSet String

/-- Adds what happens when the turn of a rule comes; `differs` tells the outputs
that come out different. -/
def Dirt.step (differs : String → Bool) (d : Dirt) (r : Rule) : Dirt :=
  if r.allInputs.any d.changed.contains then {
    changed :=
      if !r.restat || r.allOutputs.any differs then d.changed.insertMany r.allOutputs
      else d.changed
    dirty := d.dirty.insert r.name }
  else d

/-- The names of the rules that would run after the files `touched` changed. -/
def dirtyRules (g : ActionGraph) (touched : List String) (differs : String → Bool) :
    Except GraphError (Std.TreeSet String) :=
  match g.ordered with
  | .error e => .error e
  | .ok order =>
    .ok (order.foldl (Dirt.step differs) ⟨Std.TreeSet.ofList touched, ∅⟩).dirty

end ActionGraph

end HybridBuild
