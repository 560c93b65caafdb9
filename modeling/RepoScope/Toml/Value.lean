import RepoScope.Decimal
import RepoScope.Pattern

/-!
# TOML values

The values that stand behind a key, and how numbers, dates and times are written. Of floats and dates it only
matters that they are well formed.
-/

namespace RepoScope.Toml

inductive Value where
  | string (text : String)
  | integer (value : Int)
  | float
  | boolean (value : Bool)
  | date
  | array (items : List Value)
  /-- A table in braces, with its keys as they are written. -/
  | inline (pairs : List (List String × Value))

/-- A piece of input and what follows it. -/
abbrev Parsed (α : Type) := Option (α × List Char)

namespace Scalar

open Pattern

/-! ## Written forms -/

/-- At least one digit of a class, with single underscores between digits. -/
def digits (isDigit : Char → Bool) : Pattern :=
  one isDigit ++ repeated (optional (lit "_") ++ one isDigit)

/-- A sign or nothing. -/
def sign : Pattern := optional (one (oneOf "+-"))

/-- A whole decimal number without needless zeros at its start. -/
def wholeNumber : Pattern :=
  anyOf [one (oneOf "123456789") ++ repeated (optional (lit "_") ++ one Char.isDigit), lit "0"]

/-- A float. It captures the whole part, the fraction and the exponent. -/
def float : Pattern :=
  let exponent := one (oneOf "eE") ++ captured (sign ++ digits Char.isDigit)
  captured (sign ++ wholeNumber) ++
    anyOf [captured (literal []) ++ exponent,
      lit "." ++ captured (digits Char.isDigit) ++ anyOf [exponent, captured (literal [])]]

/-- A float that is not a number of digits. -/
def specialFloat : Pattern := sign ++ anyWord ["inf", "nan"]

/-- Exactly `n` digits, captured. -/
def fixedDigits (n : Nat) : Pattern :=
  captured ((List.replicate n (one Char.isDigit)).foldr seq (literal []))

/-- A time of day. It captures hour, minute and second. -/
def time : Pattern :=
  fixedDigits 2 ++ lit ":" ++ fixedDigits 2 ++ lit ":" ++ fixedDigits 2 ++
    optional (lit "." ++ run1 Char.isDigit)

/-- The distance from universal time. It captures hour and minute. -/
def offset : Pattern :=
  anyOf [one (oneOf "Zz"), one (oneOf "+-") ++ fixedDigits 2 ++ lit ":" ++ fixedDigits 2]

/-- A date, which may have a time and an offset behind it. It captures all numbers. -/
def date : Pattern :=
  fixedDigits 4 ++ lit "-" ++ fixedDigits 2 ++ lit "-" ++ fixedDigits 2 ++
    optional (one (oneOf "Tt ") ++ time ++ optional offset)

/-! ## Meaning -/

/-- The number that decimal digits write, without their underscores. -/
def natOf (text : List Char) : Nat := Decimal.natOf (text.filter (· ≠ '_'))

/-- The number that a sign and digits write. -/
def intOf (text : List Char) : Int :=
  match text with
  | '-' :: rest => -(natOf rest : Int)
  | '+' :: rest => natOf rest
  | rest => natOf rest

/-- The value of a digit in bases up to sixteen. -/
def digitValue (c : Char) : Nat :=
  if c.isDigit then c.toNat - '0'.toNat else c.toLower.toNat - 'a'.toNat + 10

/-- The number that digits of this base write, without their underscores. -/
def natOfBase (base : Nat) (text : List Char) : Nat :=
  (text.filter (· ≠ '_')).foldl (fun value c => value * base + digitValue c) 0

/-- How many days a month has. -/
def daysIn (year month : Nat) : Nat :=
  if month = 2 then
    if year % 4 = 0 ∧ (year % 100 ≠ 0 ∨ year % 400 = 0) then 29 else 28
  else if month = 4 ∨ month = 6 ∨ month = 9 ∨ month = 11 then 30
  else 31

/-- Whether these numbers are hour, minute and second. -/
def isClock (hour minute second : Nat) : Bool :=
  hour < 24 && minute < 60 && second ≤ 60

/-- The rule for hour and minute of an offset as they stand in a document. -/
def isOffset (hour minute : Nat) : Bool := hour < 24 && minute < 60

/-- The rule for hour and minute of an offset in a text that is read as a date: together they make up a day at most. -/
def isOffsetInText (hour minute : Nat) : Bool := hour * 60 + minute ≤ 24 * 60

/-- Whether these numbers are hour, minute and second, perhaps with hour and minute of an offset. -/
def isTime (isOffset : Nat → Nat → Bool) : List Nat → Bool
  | [] => true
  | [hour, minute, second] => isClock hour minute second
  | [hour, minute, second, offsetHour, offsetMinute] =>
    isClock hour minute second && isOffset offsetHour offsetMinute
  | _ => false

/-- Whether these numbers are year, month and day, perhaps with those of a time. -/
def isDate (isOffset : Nat → Nat → Bool) : List Nat → Bool
  | year :: month :: day :: rest =>
    1 ≤ month && month ≤ 12 && 1 ≤ day && day ≤ daysIn year month && isTime isOffset rest
  | _ => false

/-! ## Reading -/

/-- The captures of a match at the start of `cs`, and what follows it. -/
def matchStart? (p : Pattern) (cs : List Char) : Option (List (List Char) × List Char) :=
  (p.matchAt some (Cursor.ofText cs)).map fun d => (d.captures.reverse, d.rest)

/-- What follows a date or time at the start of `cs`, if its numbers make sense. -/
def behindDate? (isOffset : Nat → Nat → Bool) (cs : List Char) : Option (List Char) :=
  match matchStart? date cs with
  | some (numbers, rest) => if isDate isOffset (numbers.map natOf) then some rest else none
  | none =>
    match matchStart? time cs with
    | some (numbers, rest) => if isTime isOffset (numbers.map natOf) then some rest else none
    | none => none

/-- A date or time. -/
def readDate? (cs : List Char) : Parsed Value :=
  (behindDate? isOffset cs).map (.date, ·)

/-- Whether a text as a whole is a date or time. -/
def isDateText (text : String) : Bool :=
  behindDate? isOffsetInText text.toList = some []

/-- A float. One that is too large is refused, but its negative is taken for minus infinity. -/
def readFloat? (cs : List Char) : Parsed Value :=
  match matchStart? float cs with
  | some ([whole, fraction, exponent], rest) =>
    let places := fraction.filter (· ≠ '_')
    let significant := (whole.filter (·.isDigit)) ++ places
    if whole.head? ≠ some '-' ∧ Decimal.isOutOfRange significant (intOf exponent - places.length) then
      none
    else some (.float, rest)
  | _ => (matchStart? specialFloat cs).map fun (_, rest) => (.float, rest)

/-- The smallest number that is too large for an integer of sixty-four bits with a sign. -/
def integerBound : Nat := Nat.pow 2 63

/-- An integer of sixty-four bits, in one of four bases. -/
def readInteger? (cs : List Char) : Parsed Value :=
  let inBase (base : Nat) (isDigit : Char → Bool) (cs : List Char) : Parsed Value :=
    match matchStart? (captured (digits isDigit)) cs with
    | some ([number], rest) =>
      let value := natOfBase base number
      if value < integerBound then some (.integer value, rest) else none
    | _ => none
  match cs with
  | '0' :: 'x' :: rest => inBase 16 (fun c => c.isDigit || ('a' ≤ c.toLower && c.toLower ≤ 'f')) rest
  | '0' :: 'o' :: rest => inBase 8 (fun c => '0' ≤ c && c ≤ '7') rest
  | '0' :: 'b' :: rest => inBase 2 (fun c => c == '0' || c == '1') rest
  | _ =>
    match matchStart? (captured (sign ++ wholeNumber)) cs with
    | some ([number], rest) =>
      let value := intOf number
      if -(integerBound : Int) ≤ value ∧ value < integerBound then some (.integer value, rest) else none
    | _ => none

/-- Whether a date or time starts here, well formed or not. -/
def startsDate (cs : List Char) : Bool :=
  (matchStart? date cs).isSome || (matchStart? time cs).isSome

/-- Whether a float starts here. -/
def startsFloat (cs : List Char) : Bool :=
  (matchStart? float cs).isSome || (matchStart? specialFloat cs).isSome

/-- A number, a date, a time or a truth value. -/
def read? (cs : List Char) : Parsed Value :=
  match matchStart? (captured (anyWord ["true", "false"])) cs with
  | some ([word], rest) => some (.boolean (word = "true".toList), rest)
  | _ =>
    if startsDate cs then readDate? cs
    else if startsFloat cs then readFloat? cs
    else readInteger? cs

end Scalar

end RepoScope.Toml
