import HybridBuild.Cli.Run
/-!
# The program

The program reads the files that its command may read, runs the command on them, and
writes back what the command wrote. It starts no other program, so a mixed build
that waits for answers ends with the error that Bazel cannot be started. A report
goes to the standard output, an error and its cause to the standard error; the exit
code is 0, 1 after an error, or 2 if the arguments make no command.
-/
open HybridBuild

/-- A file tree with one of the files that exist: a file with its content, or a
directory. A path that leads elsewhere becomes a link. -/
def addFile (tree : FileTree) (path : Path) : IO FileTree := do
  try
    let real ← IO.FS.realPath path.text
    let isDir ← real.isDir
    let content ← if isDir then pure ByteArray.empty else IO.FS.readBinFile real
    let found : Path := ⟨real.toString⟩
    let (tree, _) := tree.makeDirs (if isDir then found else found.parent?.getD found)
    let tree := if isDir then tree else (tree.write? found content.data.toList).getD tree
    if tree.find? path == tree.find? found then return tree
    let (tree, _) := tree.makeDirs (path.parent?.getD ⟨""⟩)
    match tree.place? path with
    | some (.free loc) => return tree.put loc (.link found.text)
    | _ => return tree
  catch _ => return tree

/-- Writes a file or directory that a command has made. -/
def writeBack (before : FileTree) (loc : Location) (entry : Entry) : IO Unit := do
  let path := FileTree.absolute loc
  match entry with
  | .dir => IO.FS.createDirAll path.text
  | .file content =>
    if before.at? loc ≠ some entry then
      IO.FS.writeBinFile path.text ⟨content.toArray⟩
  | .link _ | .special => pure ()

/-- The values of the variables that a command may look at. -/
def readEnvironment : IO Environment := do
  let values ← (mixedBuildVariable :: BazelPaths.requiredVariables).mapM fun name => do
    return (name, ← IO.getEnv name)
  return fun name => (values.lookup name).join

/-- Prints how a command ended, and tells the exit code. -/
def conclude (result : Except Cli.CliError String) : IO UInt32 := do
  match result with
  | .ok report =>
    IO.print report
    return 0
  | .error e =>
    IO.eprintln ("Error: " ++ e.message)
    if let some cause := e.cause? then
      IO.eprintln ("\nCaused by:\n    " ++ cause)
    return 1

/-- Runs the command that the arguments ask for. -/
def main (args : List String) : IO UInt32 := do
  match Cli.parse? args with
  | none =>
    IO.eprintln "usage: (build | scripts | actions) ..."
    return 2
  | some command =>
    let workDir := (FileTree.names ⟨(← IO.currentDir).toString⟩).filter fun name => !name.isEmpty
    let before ← (Cli.reads command).foldlM addFile (FileTree.onlyWorkDir workDir)
    let ending := Cli.run command (← readEnvironment) (Runner.ofProgram fun files _ => (none, files)) before
    for (loc, entry) in ending.files.entries.toList do
      writeBack before loc entry
    conclude ending.result
