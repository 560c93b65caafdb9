import RepoScope.Decimal
import RepoScope.Json.Value

/-!
# Reading JSON

A reader that takes one character at a time. Its state is the stack of arrays and objects that are open, and
what it is in the middle of. Texts are read strictly: no comments, no trailing commas, no control characters
in strings, no lone surrogates, no numbers that are beyond the range of double precision when they are rounded in
stages, and fewer than 128 open arrays and objects.
-/

namespace RepoScope.Json.Reader

/-! ## Numbers -/

/-- The exponent at the end of a number: empty, or an E, a sign and digits. -/
def exponent? : List Char → Option Int
  | [] => some 0
  | e :: rest =>
    let (sign, digits) : Int × List Char := match rest with
      | '-' :: digits => (-1, digits)
      | '+' :: digits => (1, digits)
      | digits => (1, digits)
    if (e == 'e' || e == 'E') && !digits.isEmpty && digits.all Char.isDigit then
      some (sign * Decimal.natOf digits)
    else none

/-- The number that a text writes. -/
def number? (text : List Char) : Option Json :=
  let (isNegative, unsigned) := match text with
    | '-' :: rest => (true, rest)
    | _ => (false, text)
  let whole := unsigned.takeWhile Char.isDigit
  let rest := unsigned.dropWhile Char.isDigit
  if whole.isEmpty || (whole.head? = some '0' && whole.length > 1) then none
  else
    let (hasPoint, fraction, rest) := match rest with
      | '.' :: rest => (true, rest.takeWhile Char.isDigit, rest.dropWhile Char.isDigit)
      | _ => (false, [], rest)
    if hasPoint && fraction.isEmpty then none
    else (exponent? rest).bind fun exponent =>
      let read := Decimal.Scaled.ofWhole 0 whole
      let isInteger := !hasPoint && rest.isEmpty && read.exponent = 0
      if isInteger && !isNegative then some (.integer read.significand)
      else if isInteger && read.significand ≠ 0 && read.significand ≤ Nat.pow 2 63 then
        some (.integer (-read.significand))
      else if ((read.addFraction fraction).shift exponent).isOutOfRange then none
      else some (.decimal (String.ofList text))

/-! ## States -/

/-- An array or object that is open, with what it holds so far, the latest first. -/
inductive Frame where
  | array (items : List Json)
  | object (members : List (String × Json)) (name : String)

/-- Where the reader is in an escape. -/
inductive Escape where
  /-- Not in an escape. -/
  | none
  /-- Behind a backslash. -/
  | started
  /-- In the four digits of a code unit, behind the high surrogate `high` if there was one. -/
  | digits (high : Option Nat) (count value : Nat)
  /-- Behind a high surrogate, before the backslash of the low one. -/
  | backslash (high : Nat)
  /-- Behind a high surrogate and the backslash of the low one. -/
  | letter (high : Nat)

/-- What the reader is in the middle of. -/
inductive Mode where
  /-- Before a value; an array that has just been opened may also be closed. -/
  | value (mayClose : Bool)
  /-- Before the name of a member; an object that has just been opened may also be closed. -/
  | name (mayClose : Bool)
  /-- Between the name of a member and its value. -/
  | colon
  /-- Behind a value in an array or object. -/
  | next
  /-- In a string, with its characters so far, the latest first. -/
  | string (isName : Bool) (chars : List Char) (escape : Escape)
  /-- In a number, with its characters so far, the latest first. -/
  | number (chars : List Char)
  /-- In a word that stands for `value`, before its last characters `rest`. -/
  | word (rest : List Char) (value : Json)
  /-- Behind the value of the whole text. -/
  | done (value : Json)

/-- The state of the reader, with the innermost open array or object first. -/
structure State where
  frames : List Frame
  mode : Mode

/-- How many arrays and objects may not be open at the same time. -/
def depthLimit : Nat := 128

/-! ## Steps -/

/-- A space, tab, line feed or carriage return. -/
def isSpace (c : Char) : Bool := c == ' ' || c == '\t' || c == '\n' || c == '\r'

/-- The state behind a value. -/
def complete (frames : List Frame) (value : Json) : State :=
  match frames with
  | [] => ⟨[], .done value⟩
  | .array items :: rest => ⟨.array (value :: items) :: rest, .next⟩
  | .object members name :: rest => ⟨.object ((name, value) :: members) name :: rest, .next⟩

/-- The state inside one more array or object. -/
def openFrame? (frames : List Frame) (frame : Frame) (mode : Mode) : Option State :=
  if frames.length + 1 < depthLimit then some ⟨frame :: frames, mode⟩ else none

/-- The state behind the closing bracket of the innermost array or object. -/
def close? (frames : List Frame) (bracket : Char) : Option State :=
  match frames, bracket with
  | .array items :: rest, ']' => some (complete rest (.array items.reverse))
  | .object members _ :: rest, '}' => some (complete rest (.object members.reverse))
  | _, _ => none

/-- A character at the start of a value. -/
def startValue? (frames : List Frame) (c : Char) : Option State :=
  match c with
  | '[' => openFrame? frames (.array []) (.value true)
  | '{' => openFrame? frames (.object [] "") (.name true)
  | '\x22' => some ⟨frames, .string false [] .none⟩
  | 't' => some ⟨frames, .word "rue".toList (.bool true)⟩
  | 'f' => some ⟨frames, .word "alse".toList (.bool false)⟩
  | 'n' => some ⟨frames, .word "ull".toList .null⟩
  | _ => if c == '-' || c.isDigit then some ⟨frames, .number [c]⟩ else none

/-- A character behind a value that is complete. -/
def behindValue? (s : State) (c : Char) : Option State :=
  if isSpace c then some s
  else match s.mode, s.frames, c with
    | .next, .array _ :: _, ',' => some { s with mode := .value false }
    | .next, .object .. :: _, ',' => some { s with mode := .name false }
    | .next, frames, _ => close? frames c
    | _, _, _ => none

/-- The value of a hexadecimal digit. -/
def hexValue? (c : Char) : Option Nat :=
  if c.isDigit then some (c.toNat - '0'.toNat)
  else if 'a' ≤ c ∧ c ≤ 'f' then some (c.toNat - 'a'.toNat + 10)
  else if 'A' ≤ c ∧ c ≤ 'F' then some (c.toNat - 'A'.toNat + 10)
  else none

/-- The character that a letter stands for behind a backslash. -/
def shortEscape? (c : Char) : Option Char :=
  match c with
  | '\x22' => some c
  | '\\' => some c
  | '/' => some c
  | 'b' => some '\x08'
  | 'f' => some '\x0c'
  | 'n' => some '\n'
  | 'r' => some '\r'
  | 't' => some '\t'
  | _ => none

/-- The state of a string behind a whole code unit. -/
def codeUnit? (high : Option Nat) (unit : Nat) : Option (Option Char × Escape) :=
  match high with
  | some high =>
    if 0xDC00 ≤ unit ∧ unit < 0xE000 then
      some (some (Char.ofNat (0x10000 + (high - 0xD800) * 0x400 + (unit - 0xDC00))), .none)
    else none
  | none =>
    if 0xD800 ≤ unit ∧ unit < 0xDC00 then some (none, .backslash unit)
    else if 0xDC00 ≤ unit ∧ unit < 0xE000 then none
    else some (some (Char.ofNat unit), .none)

/-- A character inside a string. -/
def inString? (frames : List Frame) (isName : Bool) (chars : List Char) (escape : Escape) (c : Char) :
    Option State :=
  let stay (chars : List Char) (escape : Escape) : Option State :=
    some ⟨frames, .string isName chars escape⟩
  match escape with
  | .none =>
    if c = '\x22' then
      let text := String.ofList chars.reverse
      if isName then
        match frames with
        | .object members _ :: rest => some ⟨.object members text :: rest, .colon⟩
        | _ => none
      else some (complete frames (.string text))
    else if c = '\\' then stay chars .started
    else if c.toNat < 0x20 then none
    else stay (c :: chars) .none
  | .started =>
    if c = 'u' then stay chars (.digits none 0 0)
    else (shortEscape? c).bind fun d => stay (d :: chars) .none
  | .digits high count value =>
    (hexValue? c).bind fun digit =>
      let value := value * 16 + digit
      if count < 3 then stay chars (.digits high (count + 1) value)
      else (codeUnit? high value).bind fun (char, escape) => stay (char.toList ++ chars) escape
  | .backslash high => if c = '\\' then stay chars (.letter high) else none
  | .letter high => if c = 'u' then stay chars (.digits (some high) 0 0) else none

/-- Whether a character may be part of a number. -/
def isNumberChar (c : Char) : Bool :=
  c.isDigit || c == '-' || c == '+' || c == '.' || c == 'e' || c == 'E'

/-- Reads one character. -/
def step? (s : State) (c : Char) : Option State :=
  match s.mode with
  | .value mayClose =>
    if isSpace c then some s
    else if mayClose && c == ']' then close? s.frames c
    else startValue? s.frames c
  | .name mayClose =>
    if isSpace c then some s
    else if mayClose && c == '}' then close? s.frames c
    else if c = '\x22' then some { s with mode := .string true [] .none }
    else none
  | .colon =>
    if isSpace c then some s
    else if c = ':' then some { s with mode := .value false }
    else none
  | .next => behindValue? s c
  | .done _ => behindValue? s c
  | .string isName chars escape => inString? s.frames isName chars escape c
  | .number chars =>
    if isNumberChar c then some { s with mode := .number (c :: chars) }
    else (number? chars.reverse).bind fun value => behindValue? (complete s.frames value) c
  | .word rest value =>
    match rest with
    | [d] => if c = d then some (complete s.frames value) else none
    | d :: rest => if c = d then some { s with mode := .word rest value } else none
    | [] => none

/-- The value of a text that ends here. -/
def State.result? (s : State) : Option Json :=
  match s.mode, s.frames with
  | .done value, _ => some value
  | .number chars, [] => number? chars.reverse
  | _, _ => none

end Reader

/-- The value of a JSON text. -/
def parse? (text : List Char) : Option Json :=
  (text.foldlM Reader.step? ⟨[], .value false⟩).bind Reader.State.result?

end RepoScope.Json
