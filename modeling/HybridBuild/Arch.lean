/-!
# Architectures

A module is built in one variant for each of its architectures. The common
architecture has no name of its own and is asked for under a default tag.
-/
namespace HybridBuild

/-- The target architecture of a variant, in ascending order. -/
inductive Arch where
  | common
  | arm
  | arm64
  | x86
  | x86_64
  deriving DecidableEq, Repr, Inhabited, Ord

namespace Arch

def all : List Arch := [common, arm, arm64, x86, x86_64]

/-- The architecture's own name, which is empty for the common one. -/
def name : Arch → String
  | common => ""
  | arm => "arm"
  | arm64 => "arm64"
  | x86 => "x86"
  | x86_64 => "x86_64"

/-- The tag of requests whose architecture has no name. -/
def defaultTag : String := "x86_64"

/-- The tag under which facts are requested. -/
def requestTag (a : Arch) : String :=
  if a.name.isEmpty then defaultTag else a.name

/-- The name shown to users and used in paths. -/
def label : Arch → String
  | common => "common"
  | a => a.name

instance : ToString Arch := ⟨label⟩

/-- The architecture with a given label. -/
def ofLabel? (text : String) : Option Arch :=
  all.find? fun a => a.label = text

/-- The architecture that a text names, where no text names the common one. -/
def ofText? (text : String) : Option Arch :=
  if text.isEmpty then some common else ofLabel? text

end Arch

end HybridBuild
