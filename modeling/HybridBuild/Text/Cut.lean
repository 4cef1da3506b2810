/-!
# Cutting text at a separator

A text is cut once, at the first occurrence of a separator, or everywhere, at
its occurrences from left to right that do not overlap. The occurrences are
found by testing each suffix in turn, and the text read so far is kept
reversed, so that a long text needs no deep recursion.
-/
namespace HybridBuild.Text

/-- The text around the first occurrence of `sep` in a suffix, where `before`
is the reversed text in front of that suffix. -/
def cutFrom (sep before : List Char) : List Char → Option (List Char × List Char)
  | [] => if sep.isEmpty then some (before.reverse, []) else none
  | c :: rest =>
    if sep.isPrefixOf (c :: rest) then
      some (before.reverse, (c :: rest).drop sep.length)
    else cutFrom sep (c :: before) rest

/-- The text before and after the first occurrence of `sep`. -/
def cut? (sep text : List Char) : Option (List Char × List Char) :=
  cutFrom sep [] text

/-- The pieces of a suffix, where `piece` is the reversed piece being read,
`done` the reversed list of the pieces before it, and `skip` counts the
characters that still belong to the separator met last. -/
def piecesFrom (sep : List Char) (done : List (List Char)) (piece : List Char) :
    Nat → List Char → List (List Char)
  | _, [] => (piece.reverse :: done).reverse
  | skip + 1, _ :: rest => piecesFrom sep done piece skip rest
  | 0, c :: rest =>
    if sep.isPrefixOf (c :: rest) then
      piecesFrom sep (piece.reverse :: done) [] (sep.length - 1) rest
    else piecesFrom sep done (c :: piece) 0 rest

/-- The pieces of a text between the occurrences of a non-empty separator. A
text without the separator is one piece, and no text has no pieces. -/
def pieces (sep text : List Char) : List (List Char) :=
  piecesFrom sep [] [] 0 text

/-- A text with every occurrence of the non-empty text `old` exchanged for `new`. -/
def exchange (old new text : List Char) : List Char :=
  new.intercalate (pieces old text)

/-- The rest of a text that starts with `start`. -/
def after? (start text : List Char) : Option (List Char) :=
  if start.isPrefixOf text then some (text.drop start.length) else none

end HybridBuild.Text

namespace HybridBuild

def cutText? (text sep : String) : Option (String × String) :=
  (Text.cut? sep.toList text.toList).map fun (before, after) =>
    (String.ofList before, String.ofList after)

def splitText (text sep : String) : List String :=
  (Text.pieces sep.toList text.toList).map String.ofList

def replaceText (text old new : String) : String :=
  String.ofList (Text.exchange old.toList new.toList text.toList)

def textContains (text part : String) : Bool :=
  (Text.cut? part.toList text.toList).isSome

def textAfter? (text start : String) : Option String :=
  (Text.after? start.toList text.toList).map String.ofList

end HybridBuild
