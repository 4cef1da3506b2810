import HybridBuild.Text.Hidden
/-!
# Quoted text

Messages quote names between double quotes. The quote, the backslash and the
common control characters are written by a backslash and a letter, every other
character that would not show by itself by its code point in braces, and all
else as it is.
-/
namespace HybridBuild.Text

/-- A character as it stands between quotes. -/
def quoteChar (c : Char) : List Char :=
  match c with
  | '"' => ['\\', '"']
  | '\\' => ['\\', '\\']
  | '\t' => ['\\', 't']
  | '\n' => ['\\', 'n']
  | '\r' => ['\\', 'r']
  | '\x00' => ['\\', '0']
  | c =>
    if isHidden c then ['\\', 'u', '\x7b'] ++ Nat.toDigits 16 c.toNat ++ ['\x7d'] else [c]

/-- A text between double quotes. -/
def quote (text : List Char) : List Char :=
  '"' :: text.flatMap quoteChar ++ ['"']

end HybridBuild.Text

namespace HybridBuild

/-- A text between double quotes, as messages write it. -/
def quoteText (text : String) : String :=
  String.ofList (Text.quote text.toList)

end HybridBuild
