/-!
# Indented JSON

A printer writes one value whose first line stands at a given indentation. Items and
members stand on lines of their own, two spaces further to the right; an empty array
or object takes no lines.
-/
namespace HybridBuild.Json

/-- Writes a value at an indentation. -/
abbrev Printer := Nat → String

def lowerHexDigit (n : Nat) : Char := Nat.digitChar (n % 16)

/-- A character inside a quoted text. -/
def escapeChar (c : Char) : List Char :=
  match c with
  | '"' => ['\\', '"']
  | '\\' => ['\\', '\\']
  | '\x08' => ['\\', 'b']
  | '\x0c' => ['\\', 'f']
  | '\n' => ['\\', 'n']
  | '\r' => ['\\', 'r']
  | '\t' => ['\\', 't']
  | c =>
    if c.toNat < 0x20 then
      ['\\', 'u', '0', '0', lowerHexDigit (c.toNat / 16), lowerHexDigit c.toNat]
    else [c]

def quoted (text : String) : String :=
  String.ofList ('"' :: text.toList.flatMap escapeChar ++ ['"'])

/-- Lines between two brackets. -/
def bracketed (opening closing : String) (items : List Printer) : Printer := fun n =>
  if items.isEmpty then opening ++ closing
  else
    let margin := String.ofList (List.replicate (n + 2) ' ')
    let lines := ",\n".intercalate (items.map fun item => margin ++ item (n + 2))
    opening ++ "\n" ++ lines ++ "\n" ++ String.ofList (List.replicate n ' ') ++ closing

def printText (text : String) : Printer := fun _ => quoted text

def printText? (text : Option String) : Printer := fun _ => (text.map quoted).getD "null"

def printArray (items : List Printer) : Printer := bracketed "[" "]" items

def printObject (members : List (String × Printer)) : Printer :=
  bracketed "\x7b" "\x7d" (members.map fun (key, value) => fun n => quoted key ++ ": " ++ value n)

end HybridBuild.Json
