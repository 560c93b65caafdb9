import RepoScope.Text.Utf8

/-!
# SHA-256

The hash function of the standard FIPS 180-4 over lists of bytes, and the short form of it in which contents
are compared: its first twelve hexadecimal digits.
-/

namespace RepoScope.Digest

/-- The working variables of the hash function. -/
structure State where
  a : UInt32
  b : UInt32
  c : UInt32
  d : UInt32
  e : UInt32
  f : UInt32
  g : UInt32
  h : UInt32
  deriving DecidableEq

/-- The fractional parts of the square roots of the first eight primes. -/
def State.initial : State :=
  ⟨0x6a09e667, 0xbb67ae85, 0x3c6ef372, 0xa54ff53a, 0x510e527f, 0x9b05688c, 0x1f83d9ab, 0x5be0cd19⟩

/-- The fractional parts of the cube roots of the first sixty-four primes. -/
def roundConstants : List UInt32 := [
  0x428a2f98, 0x71374491, 0xb5c0fbcf, 0xe9b5dba5, 0x3956c25b, 0x59f111f1, 0x923f82a4, 0xab1c5ed5,
  0xd807aa98, 0x12835b01, 0x243185be, 0x550c7dc3, 0x72be5d74, 0x80deb1fe, 0x9bdc06a7, 0xc19bf174,
  0xe49b69c1, 0xefbe4786, 0x0fc19dc6, 0x240ca1cc, 0x2de92c6f, 0x4a7484aa, 0x5cb0a9dc, 0x76f988da,
  0x983e5152, 0xa831c66d, 0xb00327c8, 0xbf597fc7, 0xc6e00bf3, 0xd5a79147, 0x06ca6351, 0x14292967,
  0x27b70a85, 0x2e1b2138, 0x4d2c6dfc, 0x53380d13, 0x650a7354, 0x766a0abb, 0x81c2c92e, 0x92722c85,
  0xa2bfe8a1, 0xa81a664b, 0xc24b8b70, 0xc76c51a3, 0xd192e819, 0xd6990624, 0xf40e3585, 0x106aa070,
  0x19a4c116, 0x1e376c08, 0x2748774c, 0x34b0bcb5, 0x391c0cb3, 0x4ed8aa4a, 0x5b9cca4f, 0x682e6ff3,
  0x748f82ee, 0x78a5636f, 0x84c87814, 0x8cc70208, 0x90befffa, 0xa4506ceb, 0xbef9a3f7, 0xc67178f2]

/-- Rotation to the right. -/
def rotate (x : UInt32) (n : UInt32) : UInt32 :=
  (x >>> n) ||| (x <<< (32 - n))

/-- One round with a constant and a word of the schedule. -/
def State.round (s : State) (constantAndWord : UInt32 × UInt32) : State :=
  let sum1 := rotate s.e 6 ^^^ rotate s.e 11 ^^^ rotate s.e 25
  let choice := (s.e &&& s.f) ^^^ (~~~s.e &&& s.g)
  let t1 := s.h + sum1 + choice + constantAndWord.1 + constantAndWord.2
  let sum0 := rotate s.a 2 ^^^ rotate s.a 13 ^^^ rotate s.a 22
  let majority := (s.a &&& s.b) ^^^ (s.a &&& s.c) ^^^ (s.b &&& s.c)
  ⟨t1 + (sum0 + majority), s.a, s.b, s.c, s.d + t1, s.e, s.f, s.g⟩

/-- The sum of two states, word by word. -/
def State.add (s t : State) : State :=
  ⟨s.a + t.a, s.b + t.b, s.c + t.c, s.d + t.d, s.e + t.e, s.f + t.f, s.g + t.g, s.h + t.h⟩

/-- The next `n` words of the schedule, of which `window` holds the first sixteen. -/
def schedule : Nat → List UInt32 → List UInt32
  | 0, _ => []
  | n + 1, window =>
    match window with
    | [] => []
    | w :: rest =>
      let w1 := rest.getD 0 0
      let w14 := rest.getD 13 0
      let small0 := rotate w1 7 ^^^ rotate w1 18 ^^^ (w1 >>> 3)
      let small1 := rotate w14 17 ^^^ rotate w14 19 ^^^ (w14 >>> 10)
      w :: schedule n (rest ++ [w + small0 + rest.getD 8 0 + small1])

/-- The big-endian words of a block. -/
def wordsOf : Bytes → List UInt32
  | a :: b :: c :: d :: rest =>
    (a.toUInt32 <<< 24 ||| b.toUInt32 <<< 16 ||| c.toUInt32 <<< 8 ||| d.toUInt32) :: wordsOf rest
  | _ => []

/-- The state after one block of sixty-four bytes. -/
def State.block (s : State) (block : Bytes) : State :=
  s.add ((roundConstants.zip (schedule 64 (wordsOf block))).foldl State.round s)

/-- The state after the blocks of a padded message. -/
def State.blocks (s : State) (message : Bytes) : State :=
  if _h : (message.take 64).length = 64 then
    State.blocks (s.block (message.take 64)) (message.drop 64)
  else s
  termination_by message.length
  decreasing_by
    simp only [List.length_take, List.length_drop] at *; omega

/-- The `n` bytes of a number, the most significant first. -/
def bytesOf (n value : Nat) : Bytes :=
  (List.range n).reverse.map fun i => UInt8.ofNat (value / Nat.pow 256 i)

/-- A message with a one bit behind it, zero bits, and its length in bits as the last eight bytes. -/
def pad (message : Bytes) : Bytes :=
  let length := message.length
  message ++ 0x80 :: List.replicate ((119 - length % 64) % 64) 0 ++ bytesOf 8 (length * 8)

/-- The words of the hash of a message. -/
def sha256 (message : Bytes) : List UInt32 :=
  let s := State.initial.blocks (pad message)
  [s.a, s.b, s.c, s.d, s.e, s.f, s.g, s.h]

/-- The digits of a byte or word in base sixteen, `n` of them. -/
def hexDigits (n value : Nat) : List Char :=
  (List.range n).reverse.map fun i => Nat.digitChar (value / Nat.pow 16 i % 16)

/-- The first twelve hexadecimal digits of the hash of a content. -/
def short (content : Bytes) : String :=
  String.ofList (((sha256 content).flatMap fun word => hexDigits 8 word.toNat).take 12)

end RepoScope.Digest
