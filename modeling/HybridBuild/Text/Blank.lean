/-!
# Blank characters and trimming

A character is blank when Unicode gives it the property `White_Space`: the
twenty-five code points of the table below. This is wider than the blanks that
a build file or a shell separates words by.
-/
namespace HybridBuild.Text

/-- The ranges of code points with the property `White_Space`. -/
def blankRanges : List (Nat × Nat) :=
  [(0x09, 0x0d), (0x20, 0x20), (0x85, 0x85), (0xa0, 0xa0), (0x1680, 0x1680),
   (0x2000, 0x200a), (0x2028, 0x2029), (0x202f, 0x202f), (0x205f, 0x205f),
   (0x3000, 0x3000)]

/-- Whether a character has the property `White_Space`. -/
def isBlank (c : Char) : Bool :=
  blankRanges.any fun (low, high) => low ≤ c.toNat && c.toNat ≤ high

/-- The table holds twenty-five code points. -/
example : (blankRanges.map fun (low, high) => high + 1 - low).sum = 25 := by decide

/-- A text without the blanks at its start and its end. -/
def trim (text : List Char) : List Char :=
  (((text.dropWhile isBlank).reverse).dropWhile isBlank).reverse

end HybridBuild.Text

namespace HybridBuild

def trimText (text : String) : String :=
  String.ofList (Text.trim text.toList)

end HybridBuild
