import RepoScope.Outline.Declaration
import RepoScope.Outline.Scanner
import RepoScope.Outline.Selection

/-!
# Outlines of brace languages

The text is read line by line. Each line is scanned for brackets first (`Reading`), and then the mode decides
what becomes of it: at outline level it is classified by its words and brackets; inside an elided body,
an elided initializer or an import it only matters whether the line ends that region.

The outline fails when a brace closes that was never opened, and at the end of the text when a brace, a
literal, a body or an import is still open.
-/

namespace RepoScope.Outline.Braces

open Text

/-! ## What a line says by its brackets -/

/-- The brackets of a line counted up from its start. -/
structure Tally where
  /-- The brace depth. -/
  depth : Nat
  /-- How many more parentheses were opened than closed. -/
  parens : Int
  /-- The column of the first brace that opens at the depth of the line's start. -/
  openAt : Option Nat

/-- Counts one more bracket on a line that starts at depth `start`. Fails if no brace is left to close. -/
def Tally.add? (start : Nat) (t : Tally) (b : Bracket) : Option Tally :=
  if b.char = '{' then
    some { t with
      depth := t.depth + 1
      openAt := if t.openAt.isNone ∧ t.depth = start then some b.column else t.openAt }
  else if b.char = '}' then
    if t.depth = 0 then none else some { t with depth := t.depth - 1 }
  else if b.char = '(' then some { t with parens := t.parens + 1 }
  else if b.char = ')' then some { t with parens := t.parens - 1 }
  else some t

/-- Counts the brackets of a line that starts at depth `start`. -/
def tally? (start : Nat) (brackets : List Bracket) : Option Tally :=
  brackets.foldlM (Tally.add? start) ⟨start, 0, none⟩

/-- A line with what its brackets say. -/
structure Reading where
  line : Line
  /-- Its text without the blanks at the ends. -/
  trimmed : List Char
  /-- Whether it starts inside a literal or comment. -/
  startsInside : Bool
  /-- What its end is inside of. -/
  inside : Inside
  /-- The brace depth at its start. -/
  start : Nat
  /-- The brace depth at its end. -/
  depth : Nat
  /-- How many more parentheses it opens than it closes. -/
  parens : Int
  /-- The column of the first brace that it opens at the depth of its start. -/
  openAt : Option Nat

/-- Reads a line that starts inside `inside` at depth `start`. -/
def Reading.of? (lexis : Lexis) (inside : Inside) (start : Nat) (line : Line) : Option Reading :=
  let (brackets, after) := scanLine lexis inside line.text
  (tally? start brackets).map fun t =>
    { line, trimmed := trim line.text, startsInside := inside != .code, inside := after,
      start, depth := t.depth, parens := t.parens, openAt := t.openAt }

/-- Whether the line is deeper at its end than at its start. -/
def Reading.deepens (r : Reading) : Bool := r.start < r.depth

/-- Whether the line ends with a semicolon. -/
def Reading.endsStatement (r : Reading) : Bool := r.trimmed.getLast? = some ';'

/-! ## State between lines -/

/-- What the outliner is doing. -/
inductive Mode where
  /-- It chooses lines. -/
  | outline
  /-- It is inside an elided body, until the depth falls back to `floor`. -/
  | skip (floor : Nat)
  /-- It is inside an import of several lines, which is kept whole. -/
  | importing (floor : Nat) (parens : Int)
  /--
  It is inside an elided initializer, which ends with a semicolon or when the indentation falls back to
  that of the declaration.
  -/
  | value (floor : Nat) (parens : Int) (indent : Nat)
  deriving DecidableEq

/-- A declaration whose header may go on. -/
structure Header where
  /-- Whether its block holds members that the outline shows. -/
  container : Bool
  /-- Whether it gives a type another name. -/
  isAlias : Bool
  /-- How many parentheses are open. -/
  parens : Int
  /-- Whether its last line cannot be the end of the header. -/
  incomplete : Bool
  /-- Whether its last line leaves an initializer or the body of an arrow function open. -/
  value : Bool
  /-- The indentation of its first line. -/
  indent : Nat
  deriving DecidableEq

/-- What the outliner remembers between two lines. -/
structure State where
  inside : Inside
  depth : Nat
  /-- The depths at which the open containers started, the innermost first. -/
  containers : List Nat
  mode : Mode
  header : Option Header
  selection : Selection
  deriving DecidableEq

/-- The state before the first line. -/
def State.initial : State := ⟨.code, 0, [], .outline, none, .empty⟩

/-! ## Lines at outline level -/

/-- Whether the header goes on with this line. -/
def Header.continuesWith (h : Header) (r : Reading) : Bool :=
  h.parens > 0 || h.incomplete || headerContinuation.isIn r.trimmed

/-- The header after one more of its lines. -/
def Header.extend (h : Header) (r : Reading) : Header :=
  let parens := h.parens + r.parens
  { h with
    parens
    incomplete := isIncomplete r.trimmed parens
    value := !h.isAlias && opensValue r.trimmed }

/-- The header that starts with this line. -/
def Header.start (r : Reading) : Header :=
  let isAlias := typeAlias.isIn r.trimmed
  { container := containerHeader.isIn r.trimmed
    isAlias
    parens := r.parens
    incomplete := isIncomplete r.trimmed r.parens
    value := !isAlias && opensValue r.trimmed
    indent := indentWidth r.line.text }

/-- The line up to the brace in column `column`, with the elision mark for the block. -/
def cutAtBrace (line : Line) (column : Nat) : Line :=
  { line with text := line.text.take (column + 1) ++ ' ' :: elision ++ " \x7d".toList }

/-- The elision mark in place of the line, indented like it. -/
def elideLine (line : Line) : Line :=
  { line with text := leadingBlanks line.text ++ elision }

/-- A line that opens a block at outline level. -/
def State.openBlock (s : State) (r : Reading) (column : Nat) : State :=
  let container := match s.header with
    | some h => h.container
    | none => containerHeader.isIn r.trimmed
  let declared := s.header.isSome || r.start > 0 || isDeclaration r.trimmed
  let s := { s with header := none }
  if container && declared then
    { s with
      selection := s.selection.keep r.line
      containers := if r.deepens then r.start :: s.containers else s.containers }
  else
    { s with
      selection :=
        if declared then s.selection.keep (cutAtBrace r.line column) else s.selection.discard
      mode := if r.deepens then .skip r.start else s.mode }

/-- A line at outline level that may be a declaration, with the header that still goes on, if any. -/
def State.declare (s : State) (r : Reading) : State :=
  match r.openAt with
  | some column => s.openBlock r column
  | none =>
    match s.header with
    | some h =>
      { s with
        selection := s.selection.keep r.line
        header := if r.endsStatement then none else some (h.extend r) }
    | none =>
      if r.start > 0 then { s with selection := s.selection.keep r.line }
      else if isDeclaration r.trimmed then
        { s with
          selection := s.selection.keep r.line
          header :=
            if r.endsStatement || r.trimmed.getLast? = some '}' then none else some (Header.start r) }
      else { s with selection := s.selection.discard }

/-- The first line of an initializer below its declaration, which it stands for as a whole. -/
def State.elideValue (s : State) (r : Reading) (h : Header) : State :=
  let parens := h.parens + r.parens
  { s with
    header := none
    selection := s.selection.keep (elideLine r.line)
    mode :=
      if r.deepens || parens > 0 || !r.endsStatement then .value r.start parens h.indent else s.mode }

/-- A line at outline level that neither closes a container nor starts an import. -/
def State.continueHeader (s : State) (r : Reading) : State :=
  match s.header with
  | none => s.declare r
  | some h =>
    if !h.continuesWith r then State.declare { s with header := none } r
    else if h.value && !h.container && r.trimmed.head? != some '{' then s.elideValue r h
    else s.declare r

/-- The containers that are still open at the end of the line. -/
def Reading.stillOpen (r : Reading) (containers : List Nat) : List Nat :=
  if r.openAt.isNone ∧ r.depth < r.start then containers.dropWhile (r.depth ≤ ·) else containers

/-- A line at outline level. -/
def State.outlineLine (s : State) (r : Reading) : State :=
  if r.trimmed.isEmpty then
    { s with selection := s.selection.blank r.line.row, header := none }
  else if r.startsInside && r.inside != .comment && r.trimmed.head? != some '*' then
    { s with selection := if s.header.isSome then s.selection.keep r.line else s.selection }
  else if r.startsInside || isAnnotation r.trimmed r.openAt.isSome then
    { s with selection := s.selection.hold r.line }
  else if r.stillOpen s.containers ≠ s.containers then
    { s with
      containers := r.stillOpen s.containers
      selection := s.selection.discard.keep r.line
      header := none }
  else if s.header.isNone && importLine.isIn r.trimmed then
    { s with
      selection := s.selection.keep r.line
      mode := if r.deepens || r.parens > 0 then .importing r.start r.parens else s.mode }
  else s.continueHeader r

/-! ## All lines -/

/-- Whether an initializer that was entered at depth `floor` with this indentation ended before the line. -/
def Reading.isPastValue (r : Reading) (floor : Nat) (parens : Int) (indent : Nat) : Bool :=
  r.start ≤ floor && parens ≤ 0 && !r.startsInside &&
  (r.trimmed.isEmpty ||
    (indentWidth r.line.text ≤ indent && !(r.trimmed.head?.any (Pattern.oneOf ".?:+-*/&|=,)]\x7d"))))

/-- What becomes of a line that has been read. -/
def State.apply (s : State) (r : Reading) : State :=
  let s := { s with inside := r.inside, depth := r.depth }
  match s.mode with
  | .outline => s.outlineLine r
  | .skip floor => { s with mode := if r.depth ≤ floor then .outline else s.mode }
  | .importing floor parens =>
    let parens := parens + r.parens
    { s with
      selection := s.selection.keep r.line
      mode := if r.depth ≤ floor ∧ parens ≤ 0 then .outline else .importing floor parens }
  | .value floor parens indent =>
    if r.isPastValue floor parens indent then State.outlineLine { s with mode := .outline } r
    else
      let parens := parens + r.parens
      { s with
        mode :=
          if r.depth ≤ floor ∧ parens ≤ 0 ∧ r.endsStatement then .outline
          else .value floor parens indent }

/-- Reads one line. Fails if a brace closes that was never opened. -/
def step? (lexis : Lexis) (s : State) (line : Line) : Option State :=
  (Reading.of? lexis s.inside s.depth line).map s.apply

/-- Whether the text may end here. -/
def State.isClosed (s : State) : Bool :=
  s.depth == 0 && s.inside == .code &&
  match s.mode with
  | .outline | .value .. => true
  | .skip _ | .importing .. => false

/-- The selection that outlines a text, if its braces balance. -/
def select? (lexis : Lexis) (text : List Char) : Option Selection := do
  let s ← (numbered text).foldlM (step? lexis) State.initial
  if s.isClosed then some s.selection else none

end RepoScope.Outline.Braces
