import HybridBuild.Action.Table
import HybridBuild.Unmet
import Std.Data.TreeMap
/-!
# Resolving references

The tables of a report are indexed by number; of several entries with one number
the last counts. The path of a fragment is the chain of its ancestors' labels,
and the files of a set are its own artifacts followed by those of its further
sets, each once. A reference to nothing is an error, and so is a chain or a set
that comes back to itself. Paths and sets found before are remembered, which
changes no result.
-/
namespace HybridBuild

inductive ActionError where
  | malformed
  | undefinedArtifact (id : Nat)
  | undefinedDepSet (id : Nat)
  | undefinedPathFragment (id : Nat)
  | depSetCycle (id : Nat)
  | pathFragmentCycle (id : Nat)
  | multipleDepfiles (mnemonic key : String) (depfiles : List String)
  | emptyCommand (mnemonic key : String)
  deriving DecidableEq, Repr

def ActionError.message : ActionError → String
  | malformed => "invalid aquery output"
  | undefinedArtifact id => s!"undefined artifact id {id}"
  | undefinedDepSet id => s!"undefined depset id {id}"
  | undefinedPathFragment id => s!"undefined path fragment id {id}"
  | depSetCycle id => s!"depset {id} contains itself"
  | pathFragmentCycle id => s!"path fragment {id} is its own ancestor"
  | multipleDepfiles mnemonic key depfiles =>
    let paths := ", ".intercalate depfiles
    s!"action {mnemonic} ({key}) has more than one depfile: {paths}"
  | emptyCommand mnemonic key => s!"action {mnemonic} ({key}) has an empty command"

/-- The entries of a table by their numbers; the last entry with a number counts. -/
def indexBy {α : Type} (id : α → Nat) (entries : List α) : Std.TreeMap Nat α :=
  entries.foldl (fun index entry => index.insert (id entry) entry) ∅

/-- The tables that actions refer to, by number. -/
structure ActionIndex where
  artifacts : Std.TreeMap Nat Artifact
  depSets : Std.TreeMap Nat DepSet
  fragments : Std.TreeMap Nat PathFragment

def ActionTables.index (t : ActionTables) : ActionIndex where
  artifacts := indexBy Artifact.id t.artifacts
  depSets := indexBy DepSet.id t.depSets
  fragments := indexBy PathFragment.id t.fragments

/-- What has been resolved so far: the paths of fragments and the files of sets. -/
structure Resolved where
  paths : Std.TreeMap Nat String
  files : Std.TreeMap Nat (List Nat)

def Resolved.empty : Resolved := ⟨∅, ∅⟩

theorem mem_keys_of_getElem? {α : Type} {m : Std.TreeMap Nat α} {id : Nat} {entry : α}
    (h : m[id]? = some entry) : id ∈ m.keys := by
  rw [Std.TreeMap.mem_keys, Std.TreeMap.mem_iff_isSome_getElem?, h]
  rfl

namespace ActionIndex

/-- The labels of a fragment's chain from the root down, followed by `below`. The
fragments `seen` lie below it. -/
def chain (ix : ActionIndex) (seen : List Nat) (below : List String) (id : Nat) :
    Except ActionError (List String) :=
  if id = 0 then .ok below
  else if _new : id ∈ seen then .error (.pathFragmentCycle id)
  else
    match _found : ix.fragments[id]? with
    | none => .error (.undefinedPathFragment id)
    | some fragment => ix.chain (id :: seen) (fragment.label :: below) fragment.parent
termination_by countUnmet ix.fragments.keys seen
decreasing_by exact countUnmet_cons_lt (mem_keys_of_getElem? (by assumption)) (by assumption)

def fragmentPath (ix : ActionIndex) (paths : Std.TreeMap Nat String) (id : Nat) :
    Except ActionError (String × Std.TreeMap Nat String) :=
  match paths[id]? with
  | some path => .ok (path, paths)
  | none =>
    match ix.chain [] [] id with
    | .error e => .error e
    | .ok labels =>
      let path := "/".intercalate labels
      .ok (path, paths.insert id path)

def artifactPath (ix : ActionIndex) (paths : Std.TreeMap Nat String) (id : Nat) :
    Except ActionError (String × Std.TreeMap Nat String) :=
  match ix.artifacts[id]? with
  | none => .error (.undefinedArtifact id)
  | some artifact => ix.fragmentPath paths artifact.fragment

def artifactPaths (ix : ActionIndex) (paths : Std.TreeMap Nat String) :
    List Nat → Except ActionError (List String × Std.TreeMap Nat String)
  | [] => .ok ([], paths)
  | id :: rest =>
    match ix.artifactPath paths id with
    | .error e => .error e
    | .ok (path, paths) =>
      match ix.artifactPaths paths rest with
      | .error e => .error e
      | .ok (more, paths) => .ok (path :: more, paths)

mutual

/-- The files of a set, each once: its own first, then those of its further sets
in order. The sets `above` contain it. -/
def flatten (ix : ActionIndex) (above : List Nat) (files : Std.TreeMap Nat (List Nat))
    (id : Nat) : Except ActionError (List Nat × Std.TreeMap Nat (List Nat)) :=
  match files[id]? with
  | some ids => .ok (ids, files)
  | none =>
    if _new : id ∈ above then .error (.depSetCycle id)
    else
      match _found : ix.depSets[id]? with
      | none => .error (.undefinedDepSet id)
      | some set =>
        match ix.flattenAll (id :: above) files set.transitive with
        | .error e => .error e
        | .ok (below, files) =>
          let ids := (set.direct ++ below).eraseDups
          .ok (ids, files.insert id ids)
termination_by (countUnmet ix.depSets.keys above, 0)
decreasing_by
  exact Prod.Lex.left _ _
    (countUnmet_cons_lt (mem_keys_of_getElem? (by assumption)) (by assumption))

/-- The files of some sets, one set after the other. -/
def flattenAll (ix : ActionIndex) (above : List Nat) (files : Std.TreeMap Nat (List Nat))
    (sets : List Nat) : Except ActionError (List Nat × Std.TreeMap Nat (List Nat)) :=
  match sets with
  | [] => .ok ([], files)
  | id :: rest =>
    match ix.flatten above files id with
    | .error e => .error e
    | .ok (ids, files) =>
      match ix.flattenAll above files rest with
      | .error e => .error e
      | .ok (more, files) => .ok (ids ++ more, files)
termination_by (countUnmet ix.depSets.keys above, sets.length)
decreasing_by
  · exact Prod.Lex.right _ (Nat.succ_pos _)
  · exact Prod.Lex.right _ (Nat.lt_succ_self _)

end

/-- The paths of the files of some sets, without the files `seen`, each file once
and in order. The paths of one set are found before the next set is looked at. -/
def setPaths (ix : ActionIndex) (resolved : Resolved) (seen : List Nat) :
    List Nat → Except ActionError (List String × Resolved)
  | [] => .ok ([], resolved)
  | id :: rest =>
    match ix.flatten [] resolved.files id with
    | .error e => .error e
    | .ok (ids, files) =>
      let fresh := ids.filter fun id => id ∉ seen
      match ix.artifactPaths resolved.paths fresh with
      | .error e => .error e
      | .ok (paths, known) =>
        match ix.setPaths ⟨known, files⟩ (fresh ++ seen) rest with
        | .error e => .error e
        | .ok (more, resolved) => .ok (paths ++ more, resolved)

end ActionIndex

end HybridBuild
