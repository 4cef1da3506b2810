/-!
# UTF-8

Bytes are read one at a time. A byte that no character can continue with ends
the sequence begun before it, which then stands for no character, and is read
again as a first byte. So the result lists the characters in order, with a
`none` for every longest ill-formed piece. A strict reading refuses a `none`; a
lossy one writes U+FFFD for it.
-/
namespace HybridBuild.Utf8

def encode (text : String) : List UInt8 := text.toUTF8.data.toList

/-- A character whose first bytes have been read: its bits so far, how many
bytes are owed after the next one, and the range the next one must lie in. -/
structure Begun where
  bits : Nat
  owed : Nat
  low : Nat
  high : Nat

/-- What a first byte stands for: a character, nothing, or the start of a longer
sequence. The ranges rule out overlong forms, surrogates and code points above
U+10FFFF. -/
def first (b : Nat) : Option Char ⊕ Begun :=
  if b < 0x80 then .inl (some (Char.ofNat b))
  else if b < 0xC2 then .inl none
  else if b < 0xE0 then .inr ⟨b - 0xC0, 0, 0x80, 0xBF⟩
  else if b = 0xE0 then .inr ⟨0, 1, 0xA0, 0xBF⟩
  else if b = 0xED then .inr ⟨0xD, 1, 0x80, 0x9F⟩
  else if b < 0xF0 then .inr ⟨b - 0xE0, 1, 0x80, 0xBF⟩
  else if b = 0xF0 then .inr ⟨0, 2, 0x90, 0xBF⟩
  else if b < 0xF4 then .inr ⟨b - 0xF0, 2, 0x80, 0xBF⟩
  else if b = 0xF4 then .inr ⟨4, 2, 0x80, 0x8F⟩
  else .inl none

/-- The characters read, latest first, and the one that is being read. -/
structure State where
  read : List (Option Char)
  begun : Option Begun

/-- Reads a byte that no sequence is open for. -/
def readFirst (read : List (Option Char)) (b : Nat) : State :=
  match first b with
  | .inl c => ⟨c :: read, none⟩
  | .inr p => ⟨read, some p⟩

def step (s : State) (byte : UInt8) : State :=
  let b := byte.toNat
  match s.begun with
  | none => readFirst s.read b
  | some p =>
    if p.low ≤ b ∧ b ≤ p.high then
      let bits := p.bits * 64 + (b - 0x80)
      if p.owed = 0 then ⟨some (Char.ofNat bits) :: s.read, none⟩
      else ⟨s.read, some ⟨bits, p.owed - 1, 0x80, 0xBF⟩⟩
    else readFirst (none :: s.read) b

/-- The characters of a byte sequence, with `none` for each ill-formed piece. -/
def read (bytes : List UInt8) : List (Option Char) :=
  let s := bytes.foldl step ⟨[], none⟩
  match s.begun with
  | none => s.read.reverse
  | some _ => (none :: s.read).reverse

/-- The text of a well-formed byte sequence. -/
def decode? (bytes : List UInt8) : Option String :=
  let cs := read bytes
  if cs.all Option.isSome then some (String.ofList (cs.filterMap id)) else none

/-- The text of a byte sequence, with U+FFFD for each ill-formed piece. -/
def decodeLossy (bytes : List UInt8) : String :=
  String.ofList ((read bytes).map fun c => c.getD (Char.ofNat 0xFFFD))

end HybridBuild.Utf8
