/-!
# Tokens of a JSON document

A document is read byte by byte into brackets, separators, quoted texts and
bare words. A quoted text keeps its bytes as they stand between the quotes, so a
value that nobody reads may hold any bytes; only control characters and escapes
that JSON does not have are refused. A bare word is a number or a literal, told
apart later.
-/
namespace HybridBuild.Json

/-- A token. The bytes of a text are those between its quotes. -/
inductive Token where
  | openArray
  | closeArray
  | openObject
  | closeObject
  | comma
  | colon
  | text (raw : List UInt8)
  | word (raw : List UInt8)
  deriving DecidableEq, Repr

/-- Where the reader stands in a token; the bytes read are latest first. -/
inductive Scan where
  | between
  | inWord (read : List UInt8)
  | inText (read : List UInt8)
  | inEscape (read : List UInt8)
  | inCode (owed : Nat) (read : List UInt8)

/-- The tokens read, latest first, and the one that is being read. -/
structure Scanner where
  done : List Token
  scan : Scan

/-- The four blanks of JSON: space, tab, line feed and carriage return. -/
def isSpace (b : UInt8) : Bool :=
  b == 0x20 || b == 0x09 || b == 0x0A || b == 0x0D

/-- The token that a byte is by itself. -/
def mark? (b : UInt8) : Option Token :=
  if b == 0x5B then some .openArray
  else if b == 0x5D then some .closeArray
  else if b == 0x7B then some .openObject
  else if b == 0x7D then some .closeObject
  else if b == 0x2C then some .comma
  else if b == 0x3A then some .colon
  else none

/-- Whether a byte may follow a backslash alone: `"`, `\`, `/`, `b`, `f`, `n`, `r`, `t`. -/
def isShortEscape (b : UInt8) : Bool :=
  [0x22, 0x5C, 0x2F, 0x62, 0x66, 0x6E, 0x72, 0x74].contains b

def isHexDigit (b : UInt8) : Bool :=
  (0x30 ≤ b && b ≤ 0x39) || (0x41 ≤ b && b ≤ 0x46) || (0x61 ≤ b && b ≤ 0x66)

/-- Reads a byte that starts no token yet, after the tokens `done`. -/
def startToken (done : List Token) (b : UInt8) : Scanner :=
  if isSpace b then ⟨done, .between⟩
  else if b == 0x22 then ⟨done, .inText []⟩
  else match mark? b with
    | some token => ⟨token :: done, .between⟩
    | none => ⟨done, .inWord [b]⟩

def Scanner.step (s : Scanner) (b : UInt8) : Option Scanner :=
  match s.scan with
  | .between => some (startToken s.done b)
  | .inWord read =>
    if isSpace b || b == 0x22 || (mark? b).isSome then
      some (startToken (.word read.reverse :: s.done) b)
    else some ⟨s.done, .inWord (b :: read)⟩
  | .inText read =>
    if b == 0x22 then some ⟨.text read.reverse :: s.done, .between⟩
    else if b == 0x5C then some ⟨s.done, .inEscape (b :: read)⟩
    else if b < 0x20 then none
    else some ⟨s.done, .inText (b :: read)⟩
  | .inEscape read =>
    if isShortEscape b then some ⟨s.done, .inText (b :: read)⟩
    else if b == 0x75 then some ⟨s.done, .inCode 3 (b :: read)⟩
    else none
  | .inCode owed read =>
    if isHexDigit b then
      match owed with
      | 0 => some ⟨s.done, .inText (b :: read)⟩
      | owed + 1 => some ⟨s.done, .inCode owed (b :: read)⟩
    else none

/-- The tokens of a document, or nothing if some bytes are no token. -/
def tokens? (bytes : List UInt8) : Option (List Token) := do
  let s ← bytes.foldlM Scanner.step ⟨[], .between⟩
  match s.scan with
  | .between => some s.done.reverse
  | .inWord read => some (Token.word read.reverse :: s.done).reverse
  | _ => none

end HybridBuild.Json
