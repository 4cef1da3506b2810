/-!
# Paths

A path is its text. Joining keeps both texts as they are, so a path may hold
repeated separators, `.` and `..`; only the parent and the last name of a path look
at its components, among which an empty one never counts and a `.` only at the very
start of a relative path.
-/
namespace HybridBuild

structure Path where
  text : String
  deriving DecidableEq, Repr, Inhabited

namespace Path

instance : ToString Path := ⟨Path.text⟩

/-- Whether a path starts at the root. -/
def isAbsolute (p : Path) : Bool := p.text.toList.head? = some '/'

/-- A path below another one. An absolute path stays as it is, and one separator
is put between two texts that have none there. -/
def join (base : Path) (part : String) : Path :=
  if isAbsolute ⟨part⟩ || base.text.isEmpty then ⟨part⟩
  else if base.text.toList.getLast? = some '/' then ⟨base.text ++ part⟩
  else ⟨base.text ++ "/" ++ part⟩

/-- The texts between the separators. -/
def pieces (p : Path) : List (List Char) := p.text.toList.splitOn '/'

/-- Whether a piece is no component: it is empty, or a `.` after the first piece. -/
def isFiller (first : Bool) (piece : List Char) : Bool :=
  piece.isEmpty || (piece = ['.'] && !first)

/-- The pieces up to and with the last component, or none if there is none;
`first` says whether the list starts at the first piece of the path. -/
def upToLast (first : Bool) : List (List Char) → List (List Char)
  | [] => []
  | piece :: rest =>
    match upToLast false rest with
    | [] => if isFiller first piece then [] else [piece]
    | kept => piece :: kept

/-- The last component of a path. -/
def lastName? (p : Path) : Option String := (upToLast true p.pieces).getLast?.map String.ofList

/-- The path without its last component, unless it has none. -/
def parent? (p : Path) : Option Path :=
  match upToLast true p.pieces with
  | [] => none
  | kept =>
    match upToLast true kept.dropLast with
    | [] => some ⟨if p.isAbsolute then "/" else ""⟩
    | above => some ⟨String.ofList (['/'].intercalate above)⟩

/-- A dot and a repeated separator are no components, two dots are one. -/
example : (Path.mk "a//b/./../c/.").parent?.map Path.text = some "a//b/./.." := by
  decide +kernel

end Path

end HybridBuild
