import HybridBuild.Files.Tree
import HybridBuild.Scripts.Basic
/-!
# Writing the scripts

The scripts are written one after the other into a directory, which is made if it
is missing. The first file that cannot be written ends the writing; the files
before it stay.
-/
namespace HybridBuild.ScriptSet

/-- Writes some files into a directory, and tells the first that could not be
written. -/
def writeFiles (dir : Path) (tree : FileTree) :
    List (String × String) → Except ScriptError Unit × FileTree
  | [] => (.ok (), tree)
  | (name, text) :: rest =>
    match tree.writeText? (dir.join name) text with
    | none => (.error (.writeFile (dir.join name)), tree)
    | some tree => writeFiles dir tree rest

/-- Writes the scripts into a directory, and tells their paths. -/
def write (s : ScriptSet) (dir : Path) (tree : FileTree) :
    Except ScriptError (List Path) × FileTree :=
  match tree.makeDirs dir with
  | (tree, false) => (.error (.createDir dir), tree)
  | (tree, true) =>
    let (written, tree) := writeFiles dir tree s.files
    (written.map fun _ => paths dir, tree)

end HybridBuild.ScriptSet
