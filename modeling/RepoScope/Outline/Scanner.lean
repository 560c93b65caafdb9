import RepoScope.Text.Lines

/-!
# Brackets outside literals and comments

Outlines are decided by bracket depth, and only brackets in code count. The scanner reads a line token by
token: a token is an escape, a delimiter, a whole one-line string, a character literal, the rest of the line
behind a comment marker, or else a single character. Between lines it only has to remember whether a block
comment or a literal that may span lines is open (`Inside`).
-/

namespace RepoScope.Outline

/-- How a language writes comments and strings, as far as bracket counting needs to know. -/
structure Lexis where
  /-- The marker that turns the rest of a line into a comment. -/
  lineComment : List Char
  /-- Whether a slash and a star open a block comment. -/
  blockComments : Bool
  /-- Whether a single quote opens a string. Otherwise it opens a character literal or stands alone. -/
  singleQuotes : Bool
  /-- Whether a backtick opens a literal that may span lines. -/
  backticks : Bool
  /-- Whether three quotes open a literal that may span lines. -/
  tripleQuotes : Bool
  deriving DecidableEq

/-- The delimiter of a literal that may span lines. -/
inductive Fence where
  | backtick
  | threeDouble
  | threeSingle
  deriving DecidableEq

/-- The characters of a delimiter, the same at both ends of its literal. -/
def Fence.text : Fence → List Char
  | .backtick => ['\x60']
  | .threeDouble => ['\x22', '\x22', '\x22']
  | .threeSingle => ['\x27', '\x27', '\x27']

/-- What a position between two tokens is inside of. -/
inductive Inside where
  | code
  | comment
  | literal (fence : Fence)
  deriving DecidableEq

/-- A bracket in code, with its column in the line. -/
structure Bracket where
  column : Nat
  char : Char
  deriving DecidableEq

/-- The brackets of all three kinds. -/
def isBracket (c : Char) : Bool :=
  c == '{' || c == '}' || c == '(' || c == ')' || c == '[' || c == ']'

/--
How many characters of `cs` belong to a string whose opening quote stands before it, plus `n`. A backslash
takes the next character with it, and a string that is not closed ends with the line.
-/
def stringWidth (quote : Char) (n : Nat) : List Char → Nat
  | [] => n
  | ['\\'] => n + 1
  | '\\' :: _ :: rest => stringWidth quote (n + 2) rest
  | c :: rest => if c = quote then n + 1 else stringWidth quote (n + 1) rest

/--
How many characters of `cs` belong to a character literal whose opening quote stands before it: one
character and a quote, or an escape that is closed within ten characters. Otherwise the quote stands alone.
-/
def charWidth : List Char → Nat
  | '\\' :: rest =>
    match (rest.take 10).findIdx? (· == '\x27') with
    | some i => i + 2
    | none => 0
  | _ :: '\x27' :: _ => 2
  | _ => 0

/-- One step of the scanner. -/
structure Token where
  /-- How many characters the token has beyond its first. -/
  more : Nat
  /-- What the position behind it is inside of. -/
  after : Inside
  /-- Whether it is a bracket in code. -/
  bracket : Bool

/-- The token at the start of `c :: rest`. -/
def nextToken (lexis : Lexis) (inside : Inside) (c : Char) (rest : List Char) : Token :=
  match inside with
  | .literal fence =>
    if c = '\\' then ⟨1, inside, false⟩
    else if fence.text.isPrefixOf (c :: rest) then ⟨fence.text.length - 1, .code, false⟩
    else ⟨0, inside, false⟩
  | .comment =>
    if c = '*' ∧ rest.head? = some '/' then ⟨1, .code, false⟩ else ⟨0, .comment, false⟩
  | .code =>
    if lexis.lineComment.isPrefixOf (c :: rest) then ⟨rest.length, .code, false⟩
    else if lexis.blockComments ∧ c = '/' ∧ rest.head? = some '*' then ⟨1, .comment, false⟩
    else if lexis.tripleQuotes ∧ Fence.threeDouble.text.isPrefixOf (c :: rest) then
      ⟨2, .literal .threeDouble, false⟩
    else if lexis.tripleQuotes ∧ Fence.threeSingle.text.isPrefixOf (c :: rest) then
      ⟨2, .literal .threeSingle, false⟩
    else if c = '\x22' then ⟨stringWidth c 0 rest, .code, false⟩
    else if c = '\x27' then
      ⟨if lexis.singleQuotes then stringWidth c 0 rest else charWidth rest, .code, false⟩
    else if lexis.backticks ∧ c = '\x60' then ⟨0, .literal .backtick, false⟩
    else ⟨0, .code, isBracket c⟩

/--
Reads the rest of a line that starts in column `column`, with the brackets that were found before in
`found`, newest first.
-/
def scanFrom (lexis : Lexis) (inside : Inside) (column : Nat) (found : List Bracket) :
    List Char → List Bracket × Inside
  | [] => (found.reverse, inside)
  | c :: rest =>
    let token := nextToken lexis inside c rest
    scanFrom lexis token.after (column + token.more + 1)
      (if token.bracket then ⟨column, c⟩ :: found else found) (rest.drop token.more)
  termination_by cs => cs.length
  decreasing_by simp only [List.length_drop, List.length_cons]; omega

/-- The brackets in the code of a line, from left to right, and what its end is inside of. -/
def scanLine (lexis : Lexis) (inside : Inside) (line : List Char) : List Bracket × Inside :=
  scanFrom lexis inside 0 [] line

end RepoScope.Outline
