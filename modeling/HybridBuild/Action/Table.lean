import HybridBuild.Json.Decode
import HybridBuild.Path
/-!
# Action tables

Bazel reports its actions as flat tables that refer to each other by number.
Artifacts name path fragments, path fragments their parents, actions the sets of
files they read and the artifacts they write, and sets of files further sets. In
JSON every table may be missing; four further tables are allowed and ignored, and
any other member is refused.
-/
namespace HybridBuild

open Json

/-- A file, by the fragment that ends its path. -/
structure Artifact where
  id : Nat
  fragment : Nat
  deriving DecidableEq, Repr

structure EnvEntry where
  key : String
  value : String
  deriving DecidableEq, Repr

structure Action where
  key : String
  mnemonic : String
  arguments : List String
  environment : List EnvEntry
  inputSets : List Nat
  outputs : List Nat
  deriving DecidableEq, Repr

/-- A set of files: artifacts of its own and further sets. -/
structure DepSet where
  id : Nat
  direct : List Nat
  transitive : List Nat
  deriving DecidableEq, Repr

/-- A component of a path; the parent 0 is the root. -/
structure PathFragment where
  id : Nat
  label : String
  parent : Nat
  deriving DecidableEq, Repr

structure ActionTables where
  artifacts : List Artifact
  actions : List Action
  depSets : List DepSet
  fragments : List PathFragment
  deriving DecidableEq, Repr

def Artifact.ofJson? (v : Value) : Option Artifact := do
  match ← fields? false ["id", "pathFragmentId"] v with
  | [some id, some fragment] => return { id := ← id? id, fragment := ← id? fragment }
  | _ => none

def EnvEntry.ofJson? (v : Value) : Option EnvEntry := do
  match ← fields? false ["key", "value"] v with
  | [some key, some value] => return { key := ← text? key, value := ← text? value }
  | _ => none

def Action.ofJson? (v : Value) : Option Action := do
  match ← fields? false ["actionKey", "mnemonic", "arguments", "environmentVariables",
      "inputDepSetIds", "outputIds"] v with
  | [key, mnemonic, arguments, environment, inputSets, outputs] =>
    return {
      key := ← field? text? "" key
      mnemonic := ← field? text? "" mnemonic
      arguments := ← field? (list? text?) [] arguments
      environment := ← field? (list? EnvEntry.ofJson?) [] environment
      inputSets := ← field? (list? id?) [] inputSets
      outputs := ← field? (list? id?) [] outputs }
  | _ => none

def DepSet.ofJson? (v : Value) : Option DepSet := do
  match ← fields? false ["id", "directArtifactIds", "transitiveDepSetIds"] v with
  | [some id, direct, transitive] =>
    return {
      id := ← id? id
      direct := ← field? (list? id?) [] direct
      transitive := ← field? (list? id?) [] transitive }
  | _ => none

def PathFragment.ofJson? (v : Value) : Option PathFragment := do
  match ← fields? false ["id", "label", "parentId"] v with
  | [some id, some label, parent] =>
    return { id := ← id? id, label := ← text? label, parent := ← field? id? 0 parent }
  | _ => none

def ActionTables.ofJson? (v : Value) : Option ActionTables := do
  match ← fields? true ["artifacts", "actions", "depSetOfFiles", "pathFragments", "targets",
      "ruleClasses", "configuration", "aspectDescriptors"] v with
  | [artifacts, actions, depSets, fragments, _, _, _, _] =>
    return {
      artifacts := ← field? (list? Artifact.ofJson?) [] artifacts
      actions := ← field? (list? Action.ofJson?) [] actions
      depSets := ← field? (list? DepSet.ofJson?) [] depSets
      fragments := ← field? (list? PathFragment.ofJson?) [] fragments }
  | _ => none

end HybridBuild
