import HybridBuild.Files.Sha256
import HybridBuild.Files.Tree
/-!
# Content digests

Digests decide whether an output really changed. The digest of a directory is
that of a listing with one line for every entry below it: its kind, its name from
the directory on, and for a file or a link the digest of its content or target.
A snapshot holds the digests of some outputs at one time; an output counts as
unchanged between two snapshots only if both hold equal digests of it.
-/
namespace HybridBuild

inductive DigestError where
  | walk (path : Path)
  | unreadable (path : Path)
  deriving DecidableEq, Repr

def DigestError.message : DigestError → String
  | walk path => s!"failed to walk directory {path}"
  | unreadable path => s!"failed to read {path}"

/-- The line of an entry in a directory's listing, for a digest function of
contents. Special files have none. -/
def listingLine (digest : List UInt8 → String) : Location × Entry → String
  | (loc, .file content) => "F:" ++ "/".intercalate loc ++ ":" ++ digest content ++ "\n"
  | (loc, .dir) => "D:" ++ "/".intercalate loc ++ "\n"
  | (loc, .link target) =>
    "L:" ++ "/".intercalate loc ++ ":" ++ digest (Utf8.encode target) ++ "\n"
  | (_, .special) => ""

def listing (digest : List UInt8 → String) (entries : List (Location × Entry)) : String :=
  String.join (entries.map (listingLine digest))

namespace FileTree

/-- What stands in the way of digesting an entry below a path: its own path, which
may be too long to be looked up. -/
def outOfReach? (path : Path) : Location × Entry → Option DigestError
  | (_, .special) => none
  | (names, entry) =>
    let inner := path.join ("/".intercalate names)
    if isUsable inner then none
    else if entry = .dir then some (.walk path)
    else some (.unreadable inner)

/-- The digest of what is below a path. -/
def digestDir (t : FileTree) (path : Path) : Except DigestError String :=
  match t.find? path with
  | none => .error (.walk path)
  | some loc =>
    match (t.below loc).findSome? (outOfReach? path) with
    | some e => .error e
    | none => .ok (Sha256.digest (Utf8.encode (listing Sha256.digest (t.below loc))))

def digestFile (t : FileTree) (path : Path) : Except DigestError String :=
  match t.read? path with
  | none => .error (.unreadable path)
  | some content => .ok (Sha256.digest content)

end FileTree

/-- The digests of some outputs; a missing output has none. -/
structure Snapshot where
  digests : Std.TreeMap String (Option String)

namespace Snapshot

/-- The digest of an output as it is now. -/
def digestOf (t : FileTree) (output : String) : Except DigestError (Option String) :=
  match t.entry? ⟨output⟩ with
  | none => .ok none
  | some .dir => (t.digestDir ⟨output⟩).map some
  | some _ => (t.digestFile ⟨output⟩).map some

def capture (t : FileTree) (outputs : List String) : Except DigestError Snapshot :=
  outputs.foldlM
    (fun snapshot output =>
      (digestOf t output).map fun digest => ⟨snapshot.digests.insert output digest⟩)
    ⟨∅⟩

def get? (s : Snapshot) (output : String) : Option String := s.digests[output]?.join

/-- Whether an output differs between two snapshots. -/
def changed (before later : Snapshot) (output : String) : Bool :=
  match before.get? output, later.get? output with
  | some old, some new => old != new
  | _, _ => true

end Snapshot

end HybridBuild
