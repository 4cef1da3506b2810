import HybridBuild.Json.Token
import HybridBuild.Text.Utf8
/-!
# JSON values

A value is built from tokens with a list of the containers still open, so
documents may nest as deep as they like. Numbers keep their spelling and texts
their bytes between the quotes: what they mean is settled only for the values
that somebody reads.
-/
namespace HybridBuild.Json

/-- A JSON value. The members of an object stand in document order, repeated
keys included. -/
inductive Value where
  | null
  | bool (b : Bool)
  | number (spelling : List UInt8)
  | text (raw : List UInt8)
  | array (items : List Value)
  | object (members : List (List UInt8 × Value))

def isDigit (b : UInt8) : Bool := 0x30 ≤ b && b ≤ 0x39

/-- What follows a non-empty run of digits at the start of some bytes. -/
def afterDigits? (bytes : List UInt8) : Option (List UInt8) :=
  match bytes with
  | [] => none
  | b :: _ => if isDigit b then some (bytes.dropWhile isDigit) else none

/-- Whether bytes are an exponent with its sign, or nothing. -/
def isExponent : List UInt8 → Bool
  | [] => true
  | e :: rest =>
    if e == 0x65 || e == 0x45 then
      match rest with
      | [] => false
      | sign :: digits =>
        let digits := if sign == 0x2B || sign == 0x2D then digits else rest
        afterDigits? digits == some []
    else false

/-- Whether bytes are a fraction and an exponent, each of which may be missing. -/
def isFraction : List UInt8 → Bool
  | [] => true
  | point :: rest =>
    if point == 0x2E then (afterDigits? rest).any isExponent else isExponent (point :: rest)

/-- Whether bytes spell a number without its sign. -/
def isMagnitude : List UInt8 → Bool
  | [] => false
  | b :: rest =>
    if b == 0x30 then isFraction rest else (afterDigits? (b :: rest)).any isFraction

def isNumber : List UInt8 → Bool
  | [] => false
  | b :: rest => if b == 0x2D then isMagnitude rest else isMagnitude (b :: rest)

/-- The value that a bare word spells. -/
def ofWord? (word : List UInt8) : Option Value :=
  if word = Utf8.encode "null" then some .null
  else if word = Utf8.encode "true" then some (.bool true)
  else if word = Utf8.encode "false" then some (.bool false)
  else if isNumber word then some (.number word)
  else none

/-- A container that is still open, with what has been read of it, latest first.
An object also holds the key whose value is awaited. -/
inductive Frame where
  | array (read : List Value)
  | object (read : List (List UInt8 × Value)) (key : List UInt8)

/-- What may come next. -/
inductive Expect where
  /-- A value. -/
  | value
  /-- The first item of an array, or its end. -/
  | itemOrEnd
  /-- The first key of an object, or its end. -/
  | keyOrEnd
  /-- A key. -/
  | key
  /-- The colon after a key. -/
  | colon
  /-- A comma, or the end of the innermost container. -/
  | commaOrEnd
  /-- Nothing: the document is this value. -/
  | done (v : Value)

/-- The open containers, innermost first, and what may come next. -/
structure Builder where
  frames : List Frame
  expect : Expect

/-- Puts a complete value where it is awaited. -/
def deliver (v : Value) : List Frame → Builder
  | [] => ⟨[], .done v⟩
  | .array read :: rest => ⟨.array (v :: read) :: rest, .commaOrEnd⟩
  | .object read key :: rest => ⟨.object ((key, v) :: read) key :: rest, .commaOrEnd⟩

/-- Reads a token where a value is awaited. -/
def beginValue (frames : List Frame) : Token → Option Builder
  | .openArray => some ⟨.array [] :: frames, .itemOrEnd⟩
  | .openObject => some ⟨.object [] [] :: frames, .keyOrEnd⟩
  | .text raw => some (deliver (.text raw) frames)
  | .word raw => (ofWord? raw).map (deliver · frames)
  | _ => none

/-- Reads a key into the innermost object. -/
def beginMember : List Frame → Token → Option Builder
  | .object read _ :: rest, .text key => some ⟨.object read key :: rest, .colon⟩
  | _, _ => none

def Builder.step (b : Builder) (token : Token) : Option Builder :=
  match b.expect, b.frames, token with
  | .value, frames, token => beginValue frames token
  | .itemOrEnd, .array _ :: rest, .closeArray => some (deliver (.array []) rest)
  | .itemOrEnd, frames, token => beginValue frames token
  | .keyOrEnd, .object _ _ :: rest, .closeObject => some (deliver (.object []) rest)
  | .keyOrEnd, frames, token => beginMember frames token
  | .key, frames, token => beginMember frames token
  | .colon, frames, .colon => some ⟨frames, .value⟩
  | .commaOrEnd, .array read :: rest, .comma => some ⟨.array read :: rest, .value⟩
  | .commaOrEnd, .array read :: rest, .closeArray => some (deliver (.array read.reverse) rest)
  | .commaOrEnd, .object read key :: rest, .comma => some ⟨.object read key :: rest, .key⟩
  | .commaOrEnd, .object read _ :: rest, .closeObject =>
    some (deliver (.object read.reverse) rest)
  | _, _, _ => none

/-- The value of a document that holds exactly one. -/
def parse? (bytes : List UInt8) : Option Value := do
  let b ← (← tokens? bytes).foldlM Builder.step ⟨[], .value⟩
  match b.expect with
  | .done v => some v
  | _ => none

end HybridBuild.Json
