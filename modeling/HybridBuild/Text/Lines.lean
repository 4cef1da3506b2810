/-!
# Lines of a text

A line feed ends a line, and one carriage return right before it belongs to the
line's end. Text after the last line feed is a line of its own, kept as it is,
unless it is empty.
-/
namespace HybridBuild.Text

/-- A line that a line feed ended, without the carriage return in front of it. -/
def dropReturn (line : List Char) : List Char :=
  if line.getLast? = some '\r' then line.dropLast else line

/-- The lines of a text. -/
def lines (text : List Char) : List (List Char) :=
  match (text.splitOn '\n').reverse with
  | [] => []
  | last :: ended =>
    ended.reverse.map dropReturn ++ if last.isEmpty then [] else [last]

end HybridBuild.Text

namespace HybridBuild

def textLines (text : String) : List String :=
  (Text.lines text.toList).map String.ofList

end HybridBuild
