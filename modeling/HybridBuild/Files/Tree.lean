import HybridBuild.Path
import HybridBuild.Text.Utf8
import Std.Data.TreeMap
/-!
# File trees

A file tree holds files, directories, symbolic links and special files by their
location: the names on the way from the root, without `.` and `..` and through no
link. In the order of locations a directory comes right before what is below it,
and entries of one directory stand in the order of their names. A path is looked up
name by name: a link is replaced by its target, and a bounded number of links may
be followed. What cannot be written leaves the files as they are; of several
directories to be made, those that could be made stay.
-/
namespace HybridBuild

inductive Entry where
  | file (content : List UInt8)
  | dir
  | link (target : String)
  /-- Something that is neither a file, a directory nor a link. -/
  | special
  deriving DecidableEq

/-- The names on the way from the root. -/
abbrev Location := List String

/-- A file tree with the location that relative paths start from. The root is
always a directory. -/
structure FileTree where
  entries : Std.TreeMap Location Entry
  workDir : Location

namespace FileTree

/-- What a location holds. -/
def at? (t : FileTree) (loc : Location) : Option Entry :=
  if loc = [] then some .dir else t.entries[loc]?

/-- Puts an entry at a location. -/
def put (t : FileTree) (loc : Location) (entry : Entry) : FileTree :=
  { t with entries := t.entries.insert loc entry }

/-- The tree that holds just its working directory. -/
def onlyWorkDir (workDir : Location) : FileTree :=
  (List.range workDir.length).foldl (fun t n => t.put (workDir.take (n + 1)) .dir) ⟨∅, workDir⟩

/-- Removes a location and all that is below it. -/
def erase (t : FileTree) (loc : Location) : FileTree :=
  { t with entries := t.entries.filter fun l _ => !loc.isPrefixOf l }

/-- The entries below a location, by their names from there on. -/
def below (t : FileTree) (loc : Location) : List (Location × Entry) :=
  t.entries.toList.filterMap fun (l, entry) =>
    if loc.isPrefixOf l && l != loc then some (l.drop loc.length, entry) else none

def names (path : Path) : List String := path.pieces.map String.ofList

/-- Where a path starts. -/
def start (t : FileTree) (path : Path) : Location :=
  if path.isAbsolute then [] else t.workDir

/-- The number of links that a path may lead through. -/
def maxLinks : Nat := 40

/-- The number of bytes that a name may have. -/
def maxNameSize : Nat := 255

/-- The number of bytes that a path must stay below. -/
def maxPathSize : Nat := 4096

/-- Where a path leads. -/
inductive Place where
  /-- To something that is no link; `links` more links may be followed from there. -/
  | found (loc : Location) (links : Nat)
  /-- To a free name in a directory. -/
  | free (loc : Location)
  deriving DecidableEq

/-- Follows names from a location, as long as they are no links; `follow` goes on
where a link leads, and `links` more links may be followed. -/
def walkNames (t : FileTree) (links : Nat) (follow : Location → List String → Option Place)
    (loc : Location) : List String → Option Place
  | [] => some (.found loc links)
  | name :: rest =>
    if t.at? loc ≠ some .dir then none
    else if name = "" ∨ name = "." then t.walkNames links follow loc rest
    else if name = ".." then t.walkNames links follow loc.dropLast rest
    else if maxNameSize < name.utf8ByteSize then none
    else
      match t.at? (loc ++ [name]) with
      | none => if rest = [] then some (.free (loc ++ [name])) else none
      | some (.link target) =>
        follow (if (Path.mk target).isAbsolute then [] else loc) (names ⟨target⟩ ++ rest)
      | some _ => t.walkNames links follow (loc ++ [name]) rest

/-- Follows names from a location; at most `links` links are followed. -/
def walk (t : FileTree) : Nat → Location → List String → Option Place
  | 0 => t.walkNames 0 fun _ _ => none
  | links + 1 => t.walkNames (links + 1) (t.walk links)

/-- Whether a path can be looked up at all: it is not too long and holds no NUL. -/
def isUsable (path : Path) : Bool :=
  path.text.utf8ByteSize < maxPathSize && !path.text.toList.contains '\x00'

/-- Where a path leads; no text leads nowhere. -/
def place? (t : FileTree) (path : Path) : Option Place :=
  if path.text.isEmpty || !isUsable path then none
  else t.walk maxLinks (t.start path) (names path)

/-- The location of what a path leads to. -/
def find? (t : FileTree) (path : Path) : Option Location :=
  match t.place? path with
  | some (.found loc _) => some loc
  | _ => none

/-- What a path leads to. -/
def entry? (t : FileTree) (path : Path) : Option Entry := t.find? path >>= t.at?

def isDir (t : FileTree) (path : Path) : Bool := t.entry? path = some .dir

/-- The bytes of the file that a path leads to. -/
def read? (t : FileTree) (path : Path) : Option (List UInt8) :=
  match t.entry? path with
  | some (.file content) => some content
  | _ => none

def isFile (t : FileTree) (path : Path) : Bool := (t.read? path).isSome

/-- The text of the file that a path leads to, if it is one. -/
def readText? (t : FileTree) (path : Path) : Option String := t.read? path >>= Utf8.decode?

/-- Writes a file: over the one that a path leads to, or under a free name. -/
def write? (t : FileTree) (path : Path) (content : List UInt8) : Option FileTree :=
  match t.place? path with
  | some (.free loc) => some (t.put loc (.file content))
  | some (.found loc _) =>
    match t.at? loc with
    | some (.file _) => some (t.put loc (.file content))
    | _ => none
  | none => none

def writeText? (t : FileTree) (path : Path) (text : String) : Option FileTree :=
  t.write? path (Utf8.encode text)

/-- Enters the directory `name` from a directory, which is made if the name is free
there. A link must lead to a directory that exists. -/
def enter? (t : FileTree) (links : Nat) (loc : Location) (name : String) :
    Option (FileTree × Nat × Location) :=
  match t.walk links loc [name] with
  | some (.found inner links) => if t.at? inner = some .dir then some (t, links, inner) else none
  | some (.free free) =>
    if free = loc ++ [name] then some (t.put free .dir, links, free) else none
  | none => none

/-- Makes the missing directories along some names, and tells whether all of them
lead to directories afterwards; at most `links` links are followed. -/
def makeDirsFrom (t : FileTree) (links : Nat) (loc : Location) : List String → FileTree × Bool
  | [] => (t, true)
  | name :: rest =>
    match t.enter? links loc name with
    | none => (t, false)
    | some (t, links, loc) => t.makeDirsFrom links loc rest

def endsInDot (path : Path) : Bool :=
  (names path).reverse.find? (fun name => !name.isEmpty) = some "."

/-- The path whose missing directories are made for the sake of a path: the path
itself, or its parent if it ends in a dot, since a dot names nothing that could be made. -/
def toBeMade (path : Path) : Path :=
  if endsInDot path then path.parent?.getD path else path

/-- Makes the missing directories along a path, and tells whether it leads to a
directory afterwards; no text stands for the working directory. -/
def makeDirs (t : FileTree) (path : Path) : FileTree × Bool :=
  if path.text.isEmpty then (t, true)
  else if !isUsable path then (t, false)
  else
    let (t, made) := t.makeDirsFrom maxLinks (t.start path) (names (toBeMade path))
    (t, made && (!endsInDot path || t.isDir path))

/-- The absolute path of a location. -/
def absolute (loc : Location) : Path := ⟨"/" ++ "/".intercalate loc⟩

end FileTree

end HybridBuild
