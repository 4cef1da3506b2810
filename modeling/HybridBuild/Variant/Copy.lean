import HybridBuild.Bazel.Paths
import HybridBuild.Ninja.Rule
import HybridBuild.Shell
import HybridBuild.Text.Cut
import Std.Data.TreeSet
/-!
# Copying Bazel's outputs

The outputs of a delegated variant are copied out of the execution root into the
variant's directory. The part of a path that only names a configuration is left
out, so two files may have one destination, which is an error. One rule makes the
directories and then copies the files in order.
-/
namespace HybridBuild

/-- The path of a file below the output root of its configuration:
`bazel-out/<configuration>/bin/p` is `p`, and so are `genfiles` and no directory at
all in place of `bin`. Any other path stays as it is. -/
def bazelRelative (file : String) : String :=
  match textAfter? file "bazel-out/" with
  | none => file
  | some rest =>
    match cutText? rest "/" with
    | none => file
    | some (_, rest) =>
      match textAfter? rest "bin/" with
      | some inner => inner
      | none => (textAfter? rest "genfiles/").getD rest

structure FileCopy where
  /-- The file as Bazel names it. -/
  file : String
  source : String
  target : String
  /-- The directory that must exist before. -/
  dir : String
  deriving DecidableEq, Repr

namespace FileCopy

/-- The copy of a file from an execution root into a directory. -/
def ofFile (execroot dir : Path) (file : String) : FileCopy :=
  let target := dir.join (bazelRelative file)
  { file
    source := (execroot.join file).text
    target := target.text
    dir := (target.parent?.getD dir).text }

/-- The shell command of a copy. -/
def command (c : FileCopy) : String :=
  "cp -f " ++ shellWord c.source ++ " " ++ shellWord c.target

/-- The first copy whose target is that of a copy before it, after the latest such
copy; the copies `before`, latest first, stand before the list. -/
def collision? (before : List FileCopy) : List FileCopy → Option (FileCopy × FileCopy)
  | [] => none
  | c :: rest =>
    match before.find? fun b => b.target = c.target with
    | some b => some (b, c)
    | none => collision? (c :: before) rest

/-- The directories that copies need, in ascending order. -/
def dirs (copies : List FileCopy) : List String :=
  (Std.TreeSet.ofList (copies.map dir)).toList

/-- The shell command that makes the directories and copies the files. -/
def commandOfAll (copies : List FileCopy) : String :=
  "mkdir -p " ++ shellWords (dirs copies) ++ " && " ++
    " && ".intercalate (copies.map command)

def rule (name description : String) (copies : List FileCopy) : Rule where
  name
  description
  command := commandOfAll copies
  outputs := copies.map target
  implicitInputs := copies.map source

end FileCopy

end HybridBuild
