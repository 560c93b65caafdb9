/-!
# Decimal numbers

Numbers as they are written with decimal digits. Those with a fraction or an exponent are read as numbers of
double precision: what would round to infinity is no number at all. There are two ways to tell:

* `isOutOfRange` rounds the written number itself;
* `Scaled.isOutOfRange` rounds in stages: first the significand, of which it keeps only as many digits as fit into
  sixty-four bits, then the power of ten, then their product. Near the end of the range the two may differ.
-/

namespace RepoScope.Decimal

/-- The value of a decimal digit. -/
def digitValue (c : Char) : Nat := c.toNat - '0'.toNat

/-- The number that decimal digits write, zero for none. -/
def natOf (digits : List Char) : Nat :=
  digits.foldl (fun value c => value * 10 + digitValue c) 0

/-- The smallest number that rounds to infinity: half a unit above the largest number of double precision. -/
def infinityBound : Nat := Nat.pow 2 1024 - Nat.pow 2 970

/-- Whether a decimal number with these digits and exponent is beyond the range of double precision. -/
def isOutOfRange (digits : List Char) (exponent : Int) : Bool :=
  let significant := digits.dropWhile (· == '0')
  let magnitude := (significant.length : Int) + exponent
  if significant.isEmpty || magnitude < 300 then false
  else if magnitude > 310 then true
  else
    let value := natOf significant
    infinityBound ≤ value * Nat.pow 10 exponent.toNat / Nat.pow 10 (-exponent).toNat

/-! ## Rounding in stages -/

/--
The number with at most fifty-three binary digits before its zeros that is nearest to `n`. A tie goes to the even
one.
-/
def roundToDouble (n : Nat) : Nat :=
  let unit := Nat.pow 2 (n.log2 - 52)
  let units := n / unit
  let rest := n % unit
  if unit < 2 * rest ∨ (unit = 2 * rest ∧ units % 2 = 1) then (units + 1) * unit else units * unit

/-- A number as a whole significand and the power of ten that it is multiplied by. -/
structure Scaled where
  significand : Nat
  exponent : Int

/-- The smallest significand that is too large. -/
def significandBound : Nat := Nat.pow 2 64

/--
The number whose digits before the point are those of `significand` and then these. The first digit that does not
fit and all behind it only raise the exponent.
-/
def Scaled.ofWhole (significand : Nat) : List Char → Scaled
  | [] => ⟨significand, 0⟩
  | c :: rest =>
    let longer := significand * 10 + digitValue c
    if longer < significandBound then ofWhole longer rest else ⟨significand, rest.length + 1⟩

/--
The number with these digits behind its point. The first digit that does not fit and all behind it are left out.
-/
def Scaled.addFraction (s : Scaled) : List Char → Scaled
  | [] => s
  | c :: rest =>
    let longer := s.significand * 10 + digitValue c
    if longer < significandBound then addFraction ⟨longer, s.exponent - 1⟩ rest else s

/-- The number times a power of ten. -/
def Scaled.shift (s : Scaled) (exponent : Int) : Scaled :=
  { s with exponent := s.exponent + exponent }

/-- Whether the number is beyond the range of double precision when it is rounded in stages. -/
def Scaled.isOutOfRange (s : Scaled) : Bool :=
  s.significand ≠ 0 && (308 < s.exponent || (0 ≤ s.exponent &&
    infinityBound ≤ roundToDouble s.significand * roundToDouble (Nat.pow 10 s.exponent.toNat)))

end RepoScope.Decimal
