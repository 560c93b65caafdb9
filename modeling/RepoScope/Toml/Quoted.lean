import RepoScope.Toml.Value
import RepoScope.Json.Reader

/-!
# TOML strings and keys

Strings come in four forms: in double quotes with escapes, in single quotes as they are, and both also over
several lines between three quotes. A key is a bare word or a string on one line; a path of keys has dots
between them.
-/

namespace RepoScope.Toml.Quoted

/-- A space or a tab. -/
def isGap (c : Char) : Bool := c == ' ' || c == '\t'

/-- `cs` without spaces and tabs at its start. -/
def skipGaps (cs : List Char) : List Char := cs.dropWhile isGap

/-- `cs` without spaces, tabs and line ends at its start. -/
def skipBlankLines (cs : List Char) : List Char :=
  match cs with
  | '\r' :: '\n' :: rest => skipBlankLines rest
  | c :: rest => if isGap c || c == '\n' then skipBlankLines rest else c :: rest
  | [] => []

/-- A character that may stand in a text: a tab or no control character. -/
def isPlain (c : Char) : Bool := c == '\t' || (c.toNat ≥ 0x20 && c.toNat ≠ 0x7F)

/-- `cs` behind a line end at its start. -/
def lineEnd? : List Char → Option (List Char)
  | '\n' :: rest => some rest
  | '\r' :: '\n' :: rest => some rest
  | _ => none

/-- The character with this code in hexadecimal digits. -/
def charOf? (digits : List Char) : Option Char := do
  let values ← digits.mapM Json.Reader.hexValue?
  let code := values.foldl (fun code value => code * 16 + value) 0
  if code < 0xD800 ∨ (0xE000 ≤ code ∧ code < 0x110000) then some (Char.ofNat code) else none

/-- The character of an escape and what follows it; `cs` stands behind the backslash. -/
def escape? (cs : List Char) : Parsed Char :=
  match cs with
  | 'b' :: rest => some ('\x08', rest)
  | 't' :: rest => some ('\t', rest)
  | 'n' :: rest => some ('\n', rest)
  | 'f' :: rest => some ('\x0c', rest)
  | 'r' :: rest => some ('\r', rest)
  | '\x22' :: rest => some ('\x22', rest)
  | '\\' :: rest => some ('\\', rest)
  | 'u' :: rest => if rest.length < 4 then none else (charOf? (rest.take 4)).map (·, rest.drop 4)
  | 'U' :: rest => if rest.length < 8 then none else (charOf? (rest.take 8)).map (·, rest.drop 8)
  | _ => none

/-- The two forms of strings. -/
inductive Form where
  /-- In double quotes, with escapes. -/
  | basic
  /-- In single quotes, without escapes. -/
  | literal
  deriving DecidableEq

/-- The quote of a form. -/
def Form.quote : Form → Char
  | basic => '\x22'
  | literal => '\x27'

/--
The rest of a string on one line, whose characters so far are in `done`, newest first. `fuel` bounds the
number of characters.
-/
def line? (form : Form) (done : List Char) : Nat → List Char → Parsed String
  | 0, _ => none
  | _ + 1, [] => none
  | fuel + 1, c :: rest =>
    if c = form.quote then some (String.ofList done.reverse, rest)
    else if form = .basic ∧ c = '\\' then
      match escape? rest with
      | some (c, rest) => line? form (c :: done) fuel rest
      | none => none
    else if isPlain c then line? form (c :: done) fuel rest
    else none

/--
The rest of a string between three quotes, whose characters so far are in `done`, newest first. Up to two
quotes may stand right before the three at its end. `fuel` bounds the number of characters.
-/
def block? (form : Form) (done : List Char) : Nat → List Char → Parsed String
  | 0, _ => none
  | _ + 1, [] => none
  | fuel + 1, c :: rest =>
    if c = form.quote then
      let quotes := 1 + (rest.takeWhile (· == form.quote)).length
      if quotes < 3 then block? form (c :: done) fuel rest
      else
        let inside := min (quotes - 3) 2
        some (String.ofList (List.replicate inside c ++ done).reverse, rest.drop (inside + 2))
    else if form = .basic ∧ c = '\\' then
      match lineEnd? (skipGaps rest) with
      | some rest => block? form done fuel (skipBlankLines rest)
      | none =>
        match escape? rest with
        | some (c, rest) => block? form (c :: done) fuel rest
        | none => none
    else match lineEnd? (c :: rest) with
      | some rest => block? form ('\n' :: done) fuel rest
      | none => if isPlain c then block? form (c :: done) fuel rest else none

/-- A string of either form whose first quote has been read. -/
def read? (form : Form) (cs : List Char) : Parsed String :=
  match cs with
  | a :: b :: rest =>
    if a = form.quote ∧ b = form.quote then
      let rest := (lineEnd? rest).getD rest
      block? form [] (rest.length + 1) rest
    else line? form [] (cs.length + 1) cs
  | _ => line? form [] (cs.length + 1) cs

/-! ## Keys -/

/-- A character of a bare key. -/
def isBare (c : Char) : Bool := c.isAlphanum || c == '_' || c == '-'

/-- One key. -/
def simpleKey? (cs : List Char) : Parsed String :=
  match cs with
  | '\x22' :: rest => line? .basic [] (rest.length + 1) rest
  | '\x27' :: rest => line? .literal [] (rest.length + 1) rest
  | _ =>
    let word := cs.takeWhile isBare
    if word.isEmpty then none else some (String.ofList word, cs.dropWhile isBare)

/-- A path of keys, with the spaces and tabs around them. `fuel` bounds the number of keys. -/
def keysFrom? : Nat → List Char → Parsed (List String)
  | 0, _ => none
  | fuel + 1, cs =>
    match simpleKey? (skipGaps cs) with
    | none => none
    | some (key, rest) =>
      match skipGaps rest with
      | '.' :: rest => (keysFrom? fuel rest).map fun (keys, rest) => (key :: keys, rest)
      | rest => some ([key], rest)

/-- How many keys a path may have. -/
def keyLimit : Nat := 79

/-- A path of keys, with the spaces and tabs around them. -/
def keys? (cs : List Char) : Parsed (List String) :=
  keysFrom? keyLimit cs

end RepoScope.Toml.Quoted
