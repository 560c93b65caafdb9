/-!
# Bytes and text

UTF-8 in both directions. Reading goes character by character: at each position the bytes either start with
a well-formed character or with an ill-formed block, the longest one that could still have become a
character, and at least one byte. The strict reader refuses ill-formed blocks; the lenient one puts the
replacement character for each of them.
-/

namespace RepoScope

/-- The content of a file. -/
abbrev Bytes := List UInt8

namespace Text

/-- The bytes that may follow the lead byte `b` directly: first and last one. -/
def secondByteRange (b : UInt8) : UInt8 × UInt8 :=
  if b = 0xE0 then (0xA0, 0xBF)
  else if b = 0xED then (0x80, 0x9F)
  else if b = 0xF0 then (0x90, 0xBF)
  else if b = 0xF4 then (0x80, 0x8F)
  else (0x80, 0xBF)

/-- How many bytes follow the lead byte `b`, or none if no character starts with `b`. -/
def followers? (b : UInt8) : Option Nat :=
  if b < 0x80 then some 0
  else if 0xC2 ≤ b ∧ b ≤ 0xDF then some 1
  else if 0xE0 ≤ b ∧ b ≤ 0xEF then some 2
  else if 0xF0 ≤ b ∧ b ≤ 0xF4 then some 3
  else none

/-- The bits of a lead byte that belong to the code point. -/
def leadBits (b : UInt8) : Nat :=
  if b < 0x80 then b.toNat
  else if b < 0xE0 then b.toNat % 0x20
  else if b < 0xF0 then b.toNat % 0x10
  else b.toNat % 0x08

/-- One block of bytes: a character or an ill-formed block, and how many bytes it has beyond the first. -/
structure Utf8Block where
  char : Option Char
  more : Nat

/--
The rest of a character of which `value` has been read, with `seen` bytes behind the first and `left` to go,
of which the next must lie in the given range.
-/
def utf8Tail (value seen : Nat) (range : UInt8 × UInt8) : Nat → Bytes → Utf8Block
  | 0, _ => ⟨some (Char.ofNat value), seen⟩
  | _ + 1, [] => ⟨none, seen⟩
  | left + 1, b :: rest =>
    if range.1 ≤ b ∧ b ≤ range.2 then
      utf8Tail (value * 0x40 + b.toNat % 0x40) (seen + 1) (0x80, 0xBF) left rest
    else ⟨none, seen⟩

/-- The block at the start of `b :: rest`. -/
def utf8Block (b : UInt8) (rest : Bytes) : Utf8Block :=
  match followers? b with
  | none => ⟨none, 0⟩
  | some n => utf8Tail (leadBits b) 0 (secondByteRange b) n rest

/-- The characters of `bytes`, with none for each ill-formed block, behind those in `done`, newest first. -/
def decodeFrom (done : List (Option Char)) : Bytes → List (Option Char)
  | [] => done.reverse
  | b :: rest =>
    let block := utf8Block b rest
    decodeFrom (block.char :: done) (rest.drop block.more)
  termination_by bytes => bytes.length
  decreasing_by simp only [List.length_drop, List.length_cons]; omega

/-- The text that `bytes` encode, if they are well formed. -/
def decode? (bytes : Bytes) : Option (List Char) :=
  (decodeFrom [] bytes).mapM id

/-- The text that `bytes` encode, with the replacement character for each ill-formed block. -/
def decodeLossy (bytes : Bytes) : List Char :=
  (decodeFrom [] bytes).map (·.getD '\uFFFD')

/-- The bytes that encode a text. -/
def encode (text : List Char) : Bytes :=
  text.flatMap String.utf8EncodeChar

end Text

end RepoScope
