/-!
# SHA-256

The message is padded to blocks of sixteen words: a one bit, zeros, and the number
of its bits. Each block is stretched to sixty-four words, which are mixed into the
state one round at a time.
-/
namespace HybridBuild.Sha256

structure State where
  a : UInt32
  b : UInt32
  c : UInt32
  d : UInt32
  e : UInt32
  f : UInt32
  g : UInt32
  h : UInt32

def initial : State :=
  ⟨0x6a09e667, 0xbb67ae85, 0x3c6ef372, 0xa54ff53a, 0x510e527f, 0x9b05688c, 0x1f83d9ab,
    0x5be0cd19⟩

def roundConstants : List UInt32 :=
  [0x428a2f98, 0x71374491, 0xb5c0fbcf, 0xe9b5dba5, 0x3956c25b, 0x59f111f1, 0x923f82a4,
   0xab1c5ed5, 0xd807aa98, 0x12835b01, 0x243185be, 0x550c7dc3, 0x72be5d74, 0x80deb1fe,
   0x9bdc06a7, 0xc19bf174, 0xe49b69c1, 0xefbe4786, 0x0fc19dc6, 0x240ca1cc, 0x2de92c6f,
   0x4a7484aa, 0x5cb0a9dc, 0x76f988da, 0x983e5152, 0xa831c66d, 0xb00327c8, 0xbf597fc7,
   0xc6e00bf3, 0xd5a79147, 0x06ca6351, 0x14292967, 0x27b70a85, 0x2e1b2138, 0x4d2c6dfc,
   0x53380d13, 0x650a7354, 0x766a0abb, 0x81c2c92e, 0x92722c85, 0xa2bfe8a1, 0xa81a664b,
   0xc24b8b70, 0xc76c51a3, 0xd192e819, 0xd6990624, 0xf40e3585, 0x106aa070, 0x19a4c116,
   0x1e376c08, 0x2748774c, 0x34b0bcb5, 0x391c0cb3, 0x4ed8aa4a, 0x5b9cca4f, 0x682e6ff3,
   0x748f82ee, 0x78a5636f, 0x84c87814, 0x8cc70208, 0x90befffa, 0xa4506ceb, 0xbef9a3f7,
   0xc67178f2]

/-- Rotates a word to the right, by less than its width. -/
def rotate (w : UInt32) (n : UInt32) : UInt32 := (w >>> n) ||| (w <<< (32 - n))

/-- The bytes of a number below 2⁶⁴, highest first. -/
def lengthBytes (n : Nat) : List UInt8 :=
  (List.range 8).map fun i => UInt8.ofNat (n >>> (8 * (7 - i)))

/-- The message with its padding: whole blocks of sixty-four bytes. -/
def pad (bytes : List UInt8) : List UInt8 :=
  let zeros := (119 - bytes.length % 64) % 64
  bytes ++ 0x80 :: (List.replicate zeros 0 ++ lengthBytes (8 * bytes.length))

/-- The words of some bytes, highest byte first. -/
def wordsFrom (read : List UInt32) : List UInt8 → List UInt32
  | a :: b :: c :: d :: rest =>
    let word := (a.toUInt32 <<< 24) ||| (b.toUInt32 <<< 16) ||| (c.toUInt32 <<< 8) ||| d.toUInt32
    wordsFrom (word :: read) rest
  | _ => read.reverse

/-- The next word of a schedule whose words are listed latest first. -/
def nextWord (latest : List UInt32) : UInt32 :=
  let w2 := latest.getD 1 0
  let w15 := latest.getD 14 0
  let s0 := rotate w15 7 ^^^ rotate w15 18 ^^^ (w15 >>> 3)
  let s1 := rotate w2 17 ^^^ rotate w2 19 ^^^ (w2 >>> 10)
  s1 + latest.getD 6 0 + s0 + latest.getD 15 0

/-- A block stretched by `n` words; the words are listed latest first. -/
def stretch : Nat → List UInt32 → List UInt32
  | 0, latest => latest
  | n + 1, latest => stretch n (nextWord latest :: latest)

/-- One round with a constant and a word of the schedule. -/
def round (s : State) (kw : UInt32 × UInt32) : State :=
  let s1 := rotate s.e 6 ^^^ rotate s.e 11 ^^^ rotate s.e 25
  let choice := (s.e &&& s.f) ^^^ ((~~~s.e) &&& s.g)
  let t1 := s.h + s1 + choice + kw.1 + kw.2
  let s0 := rotate s.a 2 ^^^ rotate s.a 13 ^^^ rotate s.a 22
  let majority := (s.a &&& s.b) ^^^ (s.a &&& s.c) ^^^ (s.b &&& s.c)
  ⟨t1 + (s0 + majority), s.a, s.b, s.c, s.d + t1, s.e, s.f, s.g⟩

/-- The state after a block of sixteen words. -/
def block (s : State) (words : List UInt32) : State :=
  let schedule := (stretch 48 words.reverse).reverse
  let r := (roundConstants.zip schedule).foldl round s
  ⟨s.a + r.a, s.b + r.b, s.c + r.c, s.d + r.d, s.e + r.e, s.f + r.f, s.g + r.g, s.h + r.h⟩

def blocks (s : State) (words : List UInt32) : State :=
  match words with
  | [] => s
  | w :: rest => blocks (block s (w :: rest.take 15)) (rest.drop 15)
termination_by words.length
decreasing_by simp only [List.length_drop, List.length_cons]; omega

def hexWord (w : UInt32) : List Char :=
  (List.range 8).map fun i => Nat.digitChar ((w.toNat >>> (4 * (7 - i))) % 16)

/-- The digest of some bytes as lowercase hexadecimal digits. -/
def digest (bytes : List UInt8) : String :=
  let s := blocks initial (wordsFrom [] (pad bytes))
  String.ofList ([s.a, s.b, s.c, s.d, s.e, s.f, s.g, s.h].flatMap hexWord)

end HybridBuild.Sha256
