import RepoScope.Text.Letter.Spans
import RepoScope.Text.Letter.Case

/-!
# Letters, digits and case

Tests on single characters by their Unicode properties, and the lower-case form of a character. The tables
are in `Letter.Spans` and `Letter.Case`.
-/

namespace RepoScope.Text

open Letter

/-- A letter or a number of any script. -/
def isAlphanumeric (c : Char) : Bool :=
  inSpans alphabetic c.toNat || inSpans number c.toNat

/-- A decimal digit of any script. -/
def isDecimalDigit (c : Char) : Bool :=
  inSpans decimalDigit c.toNat

/--
A character of a word in the sense of pattern matching: letters, marks, decimal digits, connecting
punctuation such as the underscore, and the two zero-width joiners.
-/
def isWordChar (c : Char) : Bool :=
  let n := c.toNat
  inSpans alphabetic n || inSpans decimalDigit n || inSpans connector n || inSpans mark n ||
  n == 0x200C || n == 0x200D

/-- An upper-case letter. -/
def isUpper (c : Char) : Bool :=
  uppercase.any (·.contains c.toNat)

/-- A lower-case letter. -/
def isLower (c : Char) : Bool :=
  lowercase.any (·.contains c.toNat)

/--
The lower-case form of one character. Only the dotted capital I has a form of two characters, an i and a
combining dot.
-/
def toLower (c : Char) : List Char :=
  if c.toNat < 0x80 then [c.toLower]
  else if c.toNat == 0x130 then ['i', Char.ofNat 0x307]
  else match lowerShift.find? (·.1.contains c.toNat) with
    | some (_, shift) => [Char.ofNat (c.toNat + shift).toNat]
    | none => [c]

/-- A text with each of its characters in lower case. -/
def lowerCase (cs : List Char) : List Char :=
  cs.flatMap toLower

/--
The ASCII letters that a character is equal to when case is ignored: those of its full case folding as far as it
consists of such letters, and the character itself otherwise.
-/
def foldToAscii (c : Char) : List Char :=
  match c with
  | 'ſ' => ['s']
  | '\u212A' => ['k']
  | 'ß' | 'ẞ' => ['s', 's']
  | 'ﬀ' => ['f', 'f']
  | 'ﬁ' => ['f', 'i']
  | 'ﬂ' => ['f', 'l']
  | 'ﬃ' => ['f', 'f', 'i']
  | 'ﬄ' => ['f', 'f', 'l']
  | 'ﬅ' | 'ﬆ' => ['s', 't']
  | _ => [c.toLower]

end RepoScope.Text
