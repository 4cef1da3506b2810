import HybridBuild.Json.Value
/-!
# Reading values of known types

A record is written as an object, whose unknown members are skipped unless the
record is closed and whose known members may not repeat, or as an array of its
fields in their declared order, where fields at the end may be missing. A name
out of a fixed set is written as a text, or as an object with that name as its
only key and `null` as its value. A number is a natural one below 2³².
-/
namespace HybridBuild.Json

def hexDigit? (c : Char) : Option Nat :=
  if '0' ≤ c ∧ c ≤ '9' then some (c.toNat - '0'.toNat)
  else if 'a' ≤ c ∧ c ≤ 'f' then some (c.toNat - 'a'.toNat + 10)
  else if 'A' ≤ c ∧ c ≤ 'F' then some (c.toNat - 'A'.toNat + 10)
  else none

/-- The number that four hexadecimal digits spell. -/
def codeUnit? (a b c d : Char) : Option Nat := do
  return (((← hexDigit? a) * 16 + (← hexDigit? b)) * 16 + (← hexDigit? c)) * 16 + (← hexDigit? d)

/-- The character that a backslash and a letter stand for. -/
def shortEscape? : Char → Option Char
  | '"' => some '"'
  | '\\' => some '\\'
  | '/' => some '/'
  | 'b' => some '\x08'
  | 'f' => some '\x0c'
  | 'n' => some '\n'
  | 'r' => some '\r'
  | 't' => some '\t'
  | _ => none

/-- Undoes the escapes of a text, after the reversed text `read`. A surrogate
must be the first half of a pair. -/
def unescapeFrom (read : List Char) : List Char → Option (List Char)
  | [] => some read.reverse
  | '\\' :: 'u' :: a :: b :: c :: d :: rest =>
    match codeUnit? a b c d with
    | none => none
    | some high =>
      if high < 0xD800 ∨ 0xDFFF < high then unescapeFrom (Char.ofNat high :: read) rest
      else if 0xDC00 ≤ high then none
      else match rest with
        | '\\' :: 'u' :: a :: b :: c :: d :: rest =>
          match codeUnit? a b c d with
          | none => none
          | some low =>
            if 0xDC00 ≤ low ∧ low ≤ 0xDFFF then
              let code := 0x10000 + (high - 0xD800) * 0x400 + (low - 0xDC00)
              unescapeFrom (Char.ofNat code :: read) rest
            else none
        | _ => none
  | '\\' :: c :: rest =>
    match shortEscape? c with
    | none => none
    | some e => unescapeFrom (e :: read) rest
  | ['\\'] => none
  | c :: rest => unescapeFrom (c :: read) rest

/-- The text that the bytes between two quotes stand for. -/
def textOf? (raw : List UInt8) : Option String := do
  let cs ← unescapeFrom [] (← Utf8.decode? raw).toList
  return String.ofList cs

def text? : Value → Option String
  | .text raw => textOf? raw
  | _ => none

def bool? : Value → Option Bool
  | .bool b => some b
  | _ => none

/-- Reads a natural number below 2³², spelled by its digits alone. -/
def id? : Value → Option Nat
  | .number spelling =>
    if spelling.all isDigit then
      let n := spelling.foldl (fun n b => n * 10 + (b.toNat - 0x30)) 0
      if n < 0x100000000 then some n else none
    else none
  | _ => none

/-- Reads an array of values of one type. -/
def list? {α : Type} (item? : Value → Option α) : Value → Option (List α)
  | .array items => items.mapM item?
  | _ => none

/-- Reads a value that may be `null`. -/
def nullable? {α : Type} (read? : Value → Option α) : Value → Option (Option α)
  | .null => some none
  | v => (read? v).map some

/-- Reads a name out of a fixed set. -/
def name? {α : Type} (ofName? : String → Option α) : Value → Option α
  | .text raw => textOf? raw >>= ofName?
  | .object [(raw, .null)] => textOf? raw >>= ofName?
  | _ => none

/-- Enters one member into the fields read so far, each with its name. -/
def enterMember (closed : Bool) (fields : List (String × Option Value))
    (member : List UInt8 × Value) : Option (List (String × Option Value)) := do
  let key ← textOf? member.1
  match fields.lookup key with
  | none => if closed then none else some fields
  | some (some _) => none
  | some none =>
    some (fields.map fun field => if field.1 = key then (key, some member.2) else field)

/-- The fields of a record with the given names, in their order; a missing field
is `none`. A closed record has no other members. -/
def fields? (closed : Bool) (names : List String) : Value → Option (List (Option Value))
  | .object members =>
    (members.foldlM (enterMember closed) (names.map fun name => (name, none))).map
      fun fields => fields.map Prod.snd
  | .array items =>
    if items.length ≤ names.length then
      some (items.map some ++ List.replicate (names.length - items.length) none)
    else none
  | _ => none

/-- Reads a field that may be missing, and then has the value `default`. -/
def field? {α : Type} (read? : Value → Option α) (default : α) : Option Value → Option α
  | none => some default
  | some v => read? v

end HybridBuild.Json
