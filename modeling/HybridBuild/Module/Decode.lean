import HybridBuild.Json.Decode
import HybridBuild.Module.Graph
/-!
# Module lists in JSON

A module list is a JSON document with one member, `modules`.
-/
namespace HybridBuild

open Json

def BazelTarget.ofJson? (v : Value) : Option BazelTarget := do
  match ← fields? false ["label", "mixed_build_enabled"] v with
  | [some label, enabled] =>
    return { label := ← text? label, enabled := ← field? bool? false enabled }
  | _ => none

def ModuleDecl.ofJson? (v : Value) : Option ModuleDecl := do
  match ← fields? false ["name", "kind", "archs", "srcs", "deps", "cmd", "out", "bazel_module"] v with
  | [some name, some kind, archs, srcs, deps, cmd, outs, target] =>
    return {
      name := ← text? name
      kind := ← name? ModuleKind.ofLabel? kind
      archs := ← field? (list? (name? Arch.ofLabel?)) [.common] archs
      srcs := ← field? (list? text?) [] srcs
      deps := ← field? (list? text?) [] deps
      cmd := ← field? (nullable? text?) none cmd
      outs := ← field? (list? text?) [] outs
      target := ← field? (nullable? BazelTarget.ofJson?) none target }
  | _ => none

def ModuleDecl.listOfJson? (v : Value) : Option (List ModuleDecl) := do
  match ← fields? false ["modules"] v with
  | [some modules] => list? ModuleDecl.ofJson? modules
  | _ => none

/-- The graph that a document declares. -/
def ModuleGraph.ofDocument (bytes : List UInt8) : Except ModuleError ModuleGraph :=
  match parse? bytes >>= ModuleDecl.listOfJson? with
  | none => .error .malformed
  | some modules => ofModules modules

end HybridBuild
