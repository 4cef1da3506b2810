import HybridBuild.Arch
/-!
# Modules

A module list declares what is to be built: modules with a kind, architectures,
sources, dependencies and a command. A module may also name the Bazel target that
builds the same thing; it is delegated when that target is enabled.
-/
namespace HybridBuild

inductive ModuleKind where
  | genrule
  | filegroup
  | ccLibraryStatic
  | ccLibraryShared
  | ccObject
  deriving DecidableEq, Repr

namespace ModuleKind

def all : List ModuleKind := [genrule, filegroup, ccLibraryStatic, ccLibraryShared, ccObject]

/-- The name of a kind in a module list. -/
def label : ModuleKind → String
  | genrule => "genrule"
  | filegroup => "filegroup"
  | ccLibraryStatic => "cc_library_static"
  | ccLibraryShared => "cc_library_shared"
  | ccObject => "cc_object"

def ofLabel? (text : String) : Option ModuleKind :=
  all.find? fun kind => kind.label = text

/-- Whether modules of a kind hold native code, whose facts are compile and link
facts. -/
def isNativeCode : ModuleKind → Bool
  | ccLibraryStatic | ccLibraryShared | ccObject => true
  | genrule | filegroup => false

end ModuleKind

/-- The Bazel target that builds the same thing as a module. -/
structure BazelTarget where
  label : String
  enabled : Bool
  deriving DecidableEq, Repr

structure ModuleDecl where
  name : String
  kind : ModuleKind
  archs : List Arch
  srcs : List String
  deps : List String
  /-- The command, in which `$(in)` and `$(out)` stand for the input and output
  paths. -/
  cmd : Option String
  outs : List String
  target : Option BazelTarget
  deriving DecidableEq, Repr

namespace ModuleDecl

/-- The label of the enabled Bazel target of a module. -/
def delegate? (m : ModuleDecl) : Option String :=
  (m.target.filter (·.enabled)).map (·.label)

/-- Whether a module is built by Bazel when that is possible. -/
def isDelegated (m : ModuleDecl) : Bool := m.delegate?.isSome

end ModuleDecl

end HybridBuild
