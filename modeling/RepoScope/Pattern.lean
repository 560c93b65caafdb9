import RepoScope.Text.Letter
import RepoScope.Text.Lines

/-!
# Patterns over text

A small pattern language: literals, character classes, runs of a class, sequence, choice, repetition and
capture, with the assertions "start of text", "end of text", "start of a line" and "edge of a word". Of
all ways to match at a position the matcher takes the first one, where a choice tries its left side first
and a repetition goes on as long as it can. A run always takes all that it can: it serves where what follows
cannot start inside it. A search takes the leftmost position that matches.

Matching is by continuation: `Pattern.matchAt p k c` matches `p` at the cursor `c` and asks `k` whether the
rest of the match succeeds behind it.
-/

namespace RepoScope

inductive Pattern where
  /-- Holds at the start of the text. -/
  | atStart
  /-- Holds at the end of the text. -/
  | atStop
  /-- Holds at the start of the text and behind each line feed. -/
  | atLineStart
  /-- Holds between a word character and another character, or an end of the text. -/
  | atWordEdge
  /-- These characters. -/
  | literal (text : List Char)
  /-- One character of a class. -/
  | one (p : Char → Bool)
  /-- As many characters of a class as there are. -/
  | run (p : Char → Bool)
  /-- Any number of characters of a class, as many as possible first. -/
  | many (p : Char → Bool)
  /-- One pattern behind the other. -/
  | seq (first second : Pattern)
  /-- The first pattern or else the second. -/
  | either (first second : Pattern)
  /-- Any number of matches, each of at least one character, as many as possible first. -/
  | repeated (body : Pattern)
  /-- The pattern, with the text that it matches kept. -/
  | captured (body : Pattern)

namespace Pattern

/-! ## Building patterns -/

instance : Append Pattern := ⟨seq⟩

instance : OrElse Pattern := ⟨fun first second => either first (second ())⟩

/-- The characters of `s`. -/
def lit (s : String) : Pattern := literal s.toList

/-- As many characters of a class as there are, but at least one. -/
def run1 (p : Char → Bool) : Pattern := one p ++ run p

/-- At least one character of a class, as many as possible first. -/
def many1 (p : Char → Bool) : Pattern := one p ++ many p

/-- At least one match of `p`. -/
def repeated1 (p : Pattern) : Pattern := p ++ repeated p

/-- A match of `p` if there is one. -/
def optional (p : Pattern) : Pattern := either p (literal [])

/-- One of several patterns, tried in order; none for the empty list. -/
def anyOf : List Pattern → Pattern
  | [] => one fun _ => false
  | [p] => p
  | p :: ps => either p (anyOf ps)

/-- One of several words, tried in order. -/
def anyWord (words : List String) : Pattern := anyOf (words.map lit)

/-! ## Matching -/

/-- A position in a text. -/
structure Cursor where
  /-- How many characters stand before the position. -/
  offset : Nat
  /-- The character before the position. -/
  before : Option Char
  /-- The characters from the position on. -/
  rest : List Char
  /-- What has been captured so far, the latest capture first. -/
  captures : List (List Char)

/-- The start of a text. -/
def Cursor.ofText (text : List Char) : Cursor := ⟨0, none, text, []⟩

/-- The cursor behind the character `x` that it stands before, where `rest` follows `x`. -/
def Cursor.past (c : Cursor) (x : Char) (rest : List Char) : Cursor :=
  { c with offset := c.offset + 1, before := some x, rest := rest }

/-- Whether the cursor stands at the edge of a word. -/
def Cursor.isWordEdge (c : Cursor) : Bool :=
  c.before.any Text.isWordChar != c.rest.head?.any Text.isWordChar

/-- The cursor behind all characters of `p` that follow. -/
def Cursor.afterRun (p : Char → Bool) (c : Cursor) : List Char → Cursor
  | [] => c
  | x :: rest => if p x then (c.past x rest).afterRun p rest else c

/--
The cursors that characters of `p` can lead to from `c`, the farthest first. `reached` holds the cursors already
passed.
-/
def Cursor.reach (p : Char → Bool) (c : Cursor) (reached : List Cursor) : List Char → List Cursor
  | [] => c :: reached
  | x :: rest => if p x then (c.past x rest).reach p (c :: reached) rest else c :: reached

/--
Matches `step` again and again, as long as it moves on, and then `k`. `n` bounds the number of matches; the
number of characters that are left is always enough.
-/
def repeatMatch (step : (Cursor → Option Cursor) → Cursor → Option Cursor)
    (k : Cursor → Option Cursor) : Nat → Cursor → Option Cursor
  | 0, c => k c
  | n + 1, c =>
    match step (fun d => if c.offset < d.offset then repeatMatch step k n d else none) c with
    | some d => some d
    | none => k c

/-- Matches `p` at `c` and then `k` behind it; the answer is the answer of `k`. -/
def matchAt : Pattern → (Cursor → Option Cursor) → Cursor → Option Cursor
  | atStart, k, c => if c.offset = 0 then k c else none
  | atStop, k, c => if c.rest.isEmpty then k c else none
  | atLineStart, k, c => if c.before.all (· == '\n') then k c else none
  | atWordEdge, k, c => if c.isWordEdge then k c else none
  | literal text, k, c =>
    match text.isPrefixOf? c.rest with
    | some rest =>
      k { c with
          offset := c.offset + text.length
          before := text.getLast?.or c.before
          rest := rest }
    | none => none
  | one p, k, c =>
    match c.rest with
    | x :: rest => if p x then k (c.past x rest) else none
    | [] => none
  | run p, k, c => k (c.afterRun p c.rest)
  | many p, k, c => (c.reach p [] c.rest).findSome? k
  | seq first second, k, c => matchAt first (matchAt second k) c
  | either first second, k, c =>
    match matchAt first k c with
    | some d => some d
    | none => matchAt second k c
  | repeated body, k, c => repeatMatch (matchAt body) k c.rest.length c
  | captured body, k, c =>
    matchAt body (fun d => k { d with captures := c.rest.take (d.offset - c.offset) :: d.captures }) c

/-! ## Searching -/

/-- The first match at or behind a position, as the cursor at its end. -/
def search (p : Pattern) (offset : Nat) (before : Option Char) : List Char → Option Cursor
  | [] => p.matchAt some ⟨offset, before, [], []⟩
  | x :: rest =>
    match p.matchAt some ⟨offset, before, x :: rest, []⟩ with
    | some d => some d
    | none => search p (offset + 1) (some x) rest

/-- Whether `p` matches somewhere in `text`. -/
def isIn (p : Pattern) (text : List Char) : Bool :=
  (p.search 0 none text).isSome

/-- The captures of the first match of `p` in `text`, in order. -/
def firstMatch? (p : Pattern) (text : List Char) : Option (List (List Char)) :=
  (p.search 0 none text).map (·.captures.reverse)

/--
The captures of the matches that start at offset `resume` or later and do not overlap, from left to right.
Behind an empty match the search goes on one character later.
-/
def matchesFrom (p : Pattern) (resume offset : Nat) (before : Option Char) :
    List Char → List (List (List Char))
  | [] => []
  | x :: rest =>
    if offset < resume then matchesFrom p resume (offset + 1) (some x) rest
    else match p.matchAt some ⟨offset, before, x :: rest, []⟩ with
      | some d => d.captures.reverse :: matchesFrom p d.offset (offset + 1) (some x) rest
      | none => matchesFrom p resume (offset + 1) (some x) rest

/-- The captures of all matches of `p` in `text` that do not overlap, from left to right. -/
def allMatches (p : Pattern) (text : List Char) : List (List (List Char)) :=
  p.matchesFrom 0 0 none text

/-! ## Common classes -/

/-- One of these characters. -/
def oneOf (chars : String) : Char → Bool := fun c => chars.toList.contains c

/-- None of these characters. -/
def noneOf (chars : String) : Char → Bool := fun c => !chars.toList.contains c

/-- A space or a tab. -/
def isGap (c : Char) : Bool := c == ' ' || c == '\t'

/-- All blanks that follow, possibly none. -/
def blanks : Pattern := run Text.isBlank

/-- All blanks that follow, but at least one. -/
def blanks1 : Pattern := run1 Text.isBlank

end Pattern

end RepoScope
