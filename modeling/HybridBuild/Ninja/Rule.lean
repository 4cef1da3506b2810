/-!
# Rules

A rule is one step that the executor can run: a command, the files it reads and
the files it writes. Implicit files are read or written without being named in
the command. A phony rule has no command and only groups its inputs.
-/
namespace HybridBuild

structure Rule where
  name : String
  description : String := ""
  command : String := ""
  outputs : List String := []
  implicitOutputs : List String := []
  inputs : List String := []
  implicitInputs : List String := []
  depfile : Option String := none
  /-- Whether outputs that come out unchanged leave the rules that read them
  clean. -/
  restat : Bool := false
  isPhony : Bool := false
  deriving DecidableEq, Repr

namespace Rule

/-- A rule that groups `inputs` under `outputs`. -/
def phony (name : String) (outputs inputs : List String) : Rule :=
  { name, outputs, inputs, isPhony := true }

/-- The files that a rule writes. -/
def allOutputs (r : Rule) : List String := r.outputs ++ r.implicitOutputs

/-- The files that a rule reads. -/
def allInputs (r : Rule) : List String := r.inputs ++ r.implicitInputs

/-- A name with every character but ASCII letters, digits and underscores
exchanged for an underscore. -/
def idOf (name : String) : String :=
  String.ofList (name.toList.map fun c => if c.isAlphanum || c = '_' then c else '_')

/-- The identifier under which a rule is declared. -/
def id (r : Rule) : String := idOf r.name

end Rule

end HybridBuild
