/-!
# Text as characters

Texts are lists of characters here. This module cuts them into pieces and lines, trims blanks from their
ends and measures their indentation. A character is *blank* when it has the Unicode property
`White_Space`, a set of 25 characters that is closed under normalisation and has not changed for years.
-/

namespace RepoScope.Text

/-- The characters with the Unicode property `White_Space`. -/
def isBlank (c : Char) : Bool :=
  let n := c.toNat
  (9 ≤ n && n ≤ 13) || n == 0x20 || n == 0x85 || n == 0xA0 || n == 0x1680 ||
  (0x2000 ≤ n && n ≤ 0x200A) || n == 0x2028 || n == 0x2029 || n == 0x202F || n == 0x205F || n == 0x3000

/-! ## Cutting -/

/--
The pieces of `cs` between the characters that satisfy `p`. There is always at least one piece; the
separators themselves are dropped.
-/
def piecesBy (p : Char → Bool) (cs : List Char) : List (List Char) :=
  cs.foldr (fun c pieces =>
    if p c then [] :: pieces
    else match pieces with
      | [] => [[c]]
      | piece :: rest => (c :: piece) :: rest) [[]]

@[simp] theorem piecesBy_nil (p : Char → Bool) : piecesBy p [] = [[]] := rfl

theorem piecesBy_cons_sep (p : Char → Bool) (c : Char) (cs : List Char) (h : p c = true) :
    piecesBy p (c :: cs) = [] :: piecesBy p cs := by
  simp [piecesBy, h]

theorem piecesBy_ne_nil (p : Char → Bool) (cs : List Char) : piecesBy p cs ≠ [] := by
  induction cs with
  | nil => simp
  | cons c cs ih =>
    simp only [piecesBy, List.foldr_cons] at ih ⊢
    split
    · simp
    · split <;> simp

theorem piecesBy_cons_other (p : Char → Bool) (c : Char) (cs piece : List Char)
    (rest : List (List Char)) (h : p c = false) (hcs : piecesBy p cs = piece :: rest) :
    piecesBy p (c :: cs) = (c :: piece) :: rest := by
  unfold piecesBy at hcs ⊢
  simp [List.foldr_cons, h, hcs]

/-- The pieces of `cs` between the occurrences of `sep`. -/
def pieces (sep : Char) (cs : List Char) : List (List Char) :=
  piecesBy (· == sep) cs

/-- A line without the carriage return that belonged to its line feed. -/
def dropReturn (line : List Char) : List Char :=
  if line.getLast? = some '\r' then line.dropLast else line

/--
The lines of a text. A line ends at a line feed or at a carriage return followed by one; a last line
without a line feed counts only if it is not empty, and keeps a carriage return at its end.
-/
def lines (cs : List Char) : List (List Char) :=
  let all := pieces '\n' cs
  all.dropLast.map dropReturn ++ (all.getLast?.toList.filter (· ≠ []))

/-- Lines written one below the other, without a line feed after the last. -/
def joinLines (lines : List (List Char)) : List Char :=
  List.intercalate ['\n'] lines

/-! ## Blanks at the ends -/

/-- `cs` without the characters of `p` at its end. -/
def dropEndWhile (p : Char → Bool) (cs : List Char) : List Char :=
  (cs.reverse.dropWhile p).reverse

/-- `cs` without the blanks at its start. -/
def trimStart (cs : List Char) : List Char :=
  cs.dropWhile isBlank

/-- `cs` without the blanks at its end. -/
def trimEnd (cs : List Char) : List Char :=
  dropEndWhile isBlank cs

/-- `cs` without the blanks at both ends. -/
def trim (cs : List Char) : List Char :=
  trimEnd (trimStart cs)

/-- Whether a text has nothing but blanks. -/
def isBlankText (cs : List Char) : Bool :=
  cs.all isBlank

/-- The first word of a text: its first block of characters that are not blank. -/
def firstWord? (cs : List Char) : Option (List Char) :=
  let word := (trimStart cs).takeWhile (!isBlank ·)
  if word.isEmpty then none else some word

/-- The blanks at the start of a line. -/
def leadingBlanks (line : List Char) : List Char :=
  line.takeWhile isBlank

/-- The width of the blanks at the start of a line: a tab counts eight columns, any other blank one. -/
def indentWidth (line : List Char) : Nat :=
  (leadingBlanks line).foldr (fun c width => (if c = '\t' then 8 else 1) + width) 0

/-! ## Searching -/

/-- Whether `cs` starts with `start`. -/
def startsWith (cs start : List Char) : Bool :=
  start.isPrefixOf cs

/-- Whether `cs` ends with `stop`. -/
def endsWith (cs stop : List Char) : Bool :=
  stop.isSuffixOf cs

/-- Whether `part` occurs in `cs` as a block of consecutive characters. -/
def containsBlock (cs part : List Char) : Bool :=
  match cs with
  | [] => part.isEmpty
  | _ :: rest => part.isPrefixOf cs || containsBlock rest part

/-- At how many positions of `cs` the block `part` starts, in addition to `n`. -/
def countBlocks (part : List Char) (n : Nat) : List Char → Nat
  | [] => n
  | c :: rest => countBlocks part (if part.isPrefixOf (c :: rest) then n + 1 else n) rest

/-- What stands before and after the first occurrence of `sep`. -/
def cutAt? (sep : List Char) (cs : List Char) : Option (List Char × List Char) :=
  go [] cs
where
  /-- Scans on with the characters already passed, newest first. -/
  go (passed : List Char) : List Char → Option (List Char × List Char)
    | [] => if sep = [] then some (passed.reverse, []) else none
    | c :: rest =>
      match sep.isPrefixOf? (c :: rest) with
      | some after => some (passed.reverse, after)
      | none => go (c :: passed) rest

/-- `cs` without as many copies of `stop` at its end as there are. The empty `stop` takes nothing away. -/
def dropEndCopies (stop : List Char) (cs : List Char) : List Char :=
  if _h : stop ≠ [] ∧ stop.isSuffixOf cs then
    dropEndCopies stop (cs.take (cs.length - stop.length))
  else cs
  termination_by cs.length
  decreasing_by
    have hle := (List.isSuffixOf_iff_suffix.mp _h.2).length_le
    have hpos := List.length_pos_iff.mpr _h.1
    simp only [List.length_take]; omega

/-- `cs` with every occurrence of the character `old` replaced by `new`. -/
def replaceChar (old new : Char) (cs : List Char) : List Char :=
  cs.map fun c => if c = old then new else c

end RepoScope.Text
