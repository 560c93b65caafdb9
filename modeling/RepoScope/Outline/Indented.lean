import RepoScope.Outline.Declaration
import RepoScope.Outline.Scanner
import RepoScope.Outline.Selection

/-!
# Outlines of indented languages

The text is read line by line, as with braces, but blocks are told by indentation. At outline level imports,
class and function headers, the fields of classes and the constants of the module are kept. The block of a
function is one elision mark; the block of a class is outline level again.

The outline fails when a bracket closes that was never opened, and at the end of the text when a bracket, a
literal or a header is still open.
-/

namespace RepoScope.Outline.Indented

open Text

/-! ## What a line says by its brackets -/

/-- The bracket depth behind one more bracket. Fails if no bracket is left to close. -/
def deepen? (depth : Nat) (b : Bracket) : Option Nat :=
  if b.char = '(' ∨ b.char = '[' ∨ b.char = '{' then some (depth + 1)
  else if depth = 0 then none else some (depth - 1)

/-- A line with what its brackets say. -/
structure Reading where
  line : Line
  /-- Its text without the blanks at the ends. -/
  trimmed : List Char
  /-- The width of the blanks at its start. -/
  indent : Nat
  /-- Whether it starts inside a literal. -/
  startsInside : Bool
  /-- What its end is inside of. -/
  inside : Inside
  /-- The bracket depth at its start. -/
  start : Nat
  /-- The bracket depth at its end. -/
  depth : Nat

/-- Reads a line that starts inside `inside` at depth `start`. -/
def Reading.of? (lexis : Lexis) (inside : Inside) (start : Nat) (line : Line) : Option Reading :=
  let (brackets, after) := scanLine lexis inside line.text
  (brackets.foldlM deepen? start).map fun depth =>
    { line, trimmed := trim line.text, indent := indentWidth line.text,
      startsInside := inside != .code, inside := after, start, depth }

/-! ## State between lines -/

/-- What the outliner is doing. -/
inductive Mode where
  /-- It chooses lines. -/
  | outline
  /-- It is inside the header of a function or class, which goes on until its colon. -/
  | header (indent : Nat) (isClass : Bool)
  /-- It is inside brackets that a kept line left open. -/
  | continuing
  /-- It is inside the block of a function. `marked`: the elision mark has been written. -/
  | body (indent : Nat) (marked : Bool)
  deriving DecidableEq

/-- What the outliner remembers between two lines. -/
structure State where
  inside : Inside
  depth : Nat
  /-- The indentations of the open classes, the innermost first. -/
  classes : List Nat
  mode : Mode
  /-- Whether a line that waits left brackets open. -/
  waitingOpen : Bool
  selection : Selection
  deriving DecidableEq

/-- The state before the first line. -/
def State.initial : State := ⟨.code, 0, [], .outline, false, .empty⟩

/-! ## Lines at outline level -/

/-- The state behind a header whose colon has been read. -/
def State.enterBlock (s : State) (indent : Nat) (isClass : Bool) : State :=
  if isClass then { s with classes := indent :: s.classes, mode := .outline }
  else { s with mode := .body indent false }

/-- The line up to the colon in column `column` of its trimmed text, with the elision mark for the rest. -/
def cutAtColon (r : Reading) (column : Nat) : Line :=
  { r.line with
    text := leadingBlanks r.line.text ++ r.trimmed.take (column + 1) ++ ' ' :: elision }

/-- The first line of a function or class. -/
def State.openHeader (s : State) (r : Reading) (isClass : Bool) : State :=
  let kept := { s with selection := s.selection.keep r.line }
  match headerColon? r.trimmed with
  | some column =>
    let rest := trim (r.trimmed.drop (column + 1))
    if rest.isEmpty || rest.head? = some '#' then kept.enterBlock r.indent isClass
    else if isClass then kept
    else { s with selection := s.selection.keep (cutAtColon r column) }
  | none => if r.depth > 0 then { kept with mode := .header r.indent isClass } else kept

/-- Keeps the line, and with it the lines up to the bracket that closes the last one it opens. -/
def State.keepStatement (s : State) (r : Reading) : State :=
  { s with
    selection := s.selection.keep r.line
    mode := if r.depth > 0 then .continuing else .outline }

/-- A statement at outline level: a line that starts outside brackets and literals and is not blank. -/
def State.statement (s : State) (r : Reading) : State :=
  let s := { s with classes := s.classes.dropWhile (r.indent ≤ ·) }
  let isClass := isClassHeader r.trimmed
  if r.trimmed.head? = some '#' ∨ r.trimmed.head? = some '@' then
    { s with selection := s.selection.hold r.line, waitingOpen := r.depth > 0 }
  else if moduleImport.isIn r.trimmed then s.keepStatement r
  else if isClass || defHeader.isIn r.trimmed then s.openHeader r isClass
  else if (s.classes.head?.any (· < r.indent) && memberField.isIn r.trimmed) ||
      (r.indent == 0 && moduleConstant.isIn r.trimmed) then
    s.keepStatement r
  else { s with selection := s.selection.discard }

/-- A line at outline level. -/
def State.outlineLine (s : State) (r : Reading) : State :=
  if r.startsInside || r.start > 0 then
    if s.waitingOpen then
      { s with selection := s.selection.hold r.line, waitingOpen := r.depth > 0 }
    else s
  else
    let s := { s with waitingOpen := false }
    if r.trimmed.isEmpty then { s with selection := s.selection.blank r.line.row }
    else s.statement r

/-! ## All lines -/

/-- Whether the line belongs to the block of a function with this indentation. -/
def Reading.isInBody (r : Reading) (indent : Nat) : Bool :=
  r.startsInside || r.start > 0 || r.trimmed.isEmpty || indent < r.indent

/-- The elision mark in place of the line, indented like it. -/
def elideLine (line : Line) : Line :=
  { line with text := leadingBlanks line.text ++ elision }

/-- What becomes of a line that has been read. -/
def State.apply (s : State) (r : Reading) : State :=
  let s := { s with inside := r.inside, depth := r.depth }
  match s.mode with
  | .outline => s.outlineLine r
  | .header indent isClass =>
    let s := { s with selection := s.selection.keep r.line }
    if r.depth = 0 ∧ r.trimmed.getLast? = some ':' then s.enterBlock indent isClass else s
  | .continuing =>
    { s with
      selection := s.selection.keep r.line
      mode := if r.depth > 0 then .continuing else .outline }
  | .body indent marked =>
    if r.isInBody indent then
      if !marked && !r.trimmed.isEmpty then
        { s with selection := s.selection.keep (elideLine r.line), mode := .body indent true }
      else s
    else State.outlineLine { s with mode := .outline } r

/-- Reads one line. Fails if a bracket closes that was never opened. -/
def step? (lexis : Lexis) (s : State) (line : Line) : Option State :=
  (Reading.of? lexis s.inside s.depth line).map s.apply

/-- Whether the text may end here. -/
def State.isClosed (s : State) : Bool :=
  s.depth == 0 && s.inside == .code &&
  match s.mode with
  | .header .. => false
  | _ => true

/-- The selection that outlines a text, if its brackets balance. -/
def select? (lexis : Lexis) (text : List Char) : Option Selection := do
  let s ← (numbered text).foldlM (step? lexis) State.initial
  if s.isClosed then some s.selection else none

end RepoScope.Outline.Indented
