import Mathlib.Data.List.Infix
import RepoScope.Outline.Scanner

/-!
# Brackets of a text and the blocks between them

The scanner reads one line at a time. Here the brackets of all lines stand in one list (`marksFrom`), so
that it can be said which braces belong together: a block is an opening and a closing brace with a
balanced list between them (`IsBlock`). The brace depth at some point is the height of what stands before
it, and inside a block it stays above the depth of its opening brace (`exists_passed_of_isBlock`). In the
other direction, a text that closes more than it opens after a brace closes this brace (`exists_isBlock`).

What a line says by its brackets rests on two facts about the scanner: a bracket is the character that
stands in its column (`getElem?_of_mem_scanLine`), and columns grow from left to right
(`pairwise_column_scanLine`).
-/

namespace RepoScope.Outline

/-! ## Columns of brackets

The scanner goes on by tokens of any length, so an induction over a line leaves characters out. The inductions here
are those of `scan_induction`, with what stands behind the token for the smaller line.
-/

/-- What holds at the end of a line, and in front of a token if it holds behind it, holds wherever the scanner is. -/
@[elab_as_elim]
theorem scan_induction (lexis : Lexis) {motive : Inside → Nat → List Char → Prop}
    (nil : ∀ inside column, motive inside column [])
    (token : ∀ inside column c rest,
      motive (nextToken lexis inside c rest).after (column + (nextToken lexis inside c rest).more + 1)
        (rest.drop (nextToken lexis inside c rest).more) →
      motive inside column (c :: rest))
    (inside : Inside) (column : Nat) (cs : List Char) : motive inside column cs := by
  -- Induction on what is left of the line, since a token may take more than one character.
  induction hn : cs.length using Nat.strongRecOn generalizing inside column cs with
  | ind n ih =>
    cases cs with
    | nil => exact nil inside column
    | cons c rest =>
      have hlen : (rest.drop (nextToken lexis inside c rest).more).length < n := by
        rw [← hn, List.length_drop, List.length_cons]
        omega
      exact token inside column c rest (ih _ hlen _ _ _ rfl)

/-- Brackets found before stand in front of those found later. -/
theorem scanFrom_found (lexis : Lexis) (inside : Inside) (column : Nat) (found : List Bracket)
    (cs : List Char) :
    scanFrom lexis inside column found cs =
      (found.reverse ++ (scanFrom lexis inside column [] cs).1,
        (scanFrom lexis inside column [] cs).2) := by
  induction inside, column, cs using scan_induction lexis generalizing found with
  | nil inside column => simp [scanFrom]
  | token inside column c rest ih =>
    rw [scanFrom, scanFrom]
    rw [ih]
    rw [ih (if (nextToken lexis inside c rest).bracket then [⟨column, c⟩] else [])]
    split <;> simp

/-- What one token adds to the brackets of the rest of a line. -/
theorem scanFrom_cons (lexis : Lexis) (inside : Inside) (column : Nat) (c : Char) (rest : List Char) :
    (scanFrom lexis inside column [] (c :: rest)).1 =
      (if (nextToken lexis inside c rest).bracket then [⟨column, c⟩] else []) ++
      (scanFrom lexis (nextToken lexis inside c rest).after
        (column + (nextToken lexis inside c rest).more + 1) []
        (rest.drop (nextToken lexis inside c rest).more)).1 := by
  rw [scanFrom, scanFrom_found]
  split <;> simp

/-- A line ends inside of what its rest behind the first token does. -/
theorem scanFrom_cons_snd (lexis : Lexis) (inside : Inside) (column : Nat) (c : Char)
    (rest : List Char) :
    (scanFrom lexis inside column [] (c :: rest)).2 =
      (scanFrom lexis (nextToken lexis inside c rest).after
        (column + (nextToken lexis inside c rest).more + 1) []
        (rest.drop (nextToken lexis inside c rest).more)).2 := by
  rw [scanFrom, scanFrom_found]

/-- Only a bracket in code is a token of a bracket. -/
theorem isBracket_of_nextToken {lexis : Lexis} {inside : Inside} {c : Char} {rest : List Char}
    (h : (nextToken lexis inside c rest).bracket = true) : isBracket c = true := by
  cases inside with
  | literal fence =>
    simp only [nextToken] at h
    repeat' split at h
    all_goals cases h
  | comment =>
    simp only [nextToken] at h
    split at h <;> cases h
  | code =>
    simp only [nextToken] at h
    -- Every token of code but a single character is none.
    repeat' split at h
    all_goals first | cases h | exact h

/-- What stands behind a token stands in the line by as many columns further on. -/
theorem getElem?_cons_of_drop {c d : Char} {rest : List Char} {column more n : Nat} (hle : column + more + 1 ≤ n)
    (hget : (rest.drop more)[n - (column + more + 1)]? = some d) : (c :: rest)[n - column]? = some d := by
  have hshift : more + (n - (column + more + 1)) + 1 = n - column := by omega
  rw [List.getElem?_drop] at hget
  rw [← hshift, List.getElem?_cons_succ]
  exact hget

/-- A bracket that is found in the rest of a line stands there in its column. -/
theorem getElem?_of_mem_scanFrom {lexis : Lexis} {inside : Inside} {column : Nat} {cs : List Char}
    {b : Bracket} (h : b ∈ (scanFrom lexis inside column [] cs).1) :
    column ≤ b.column ∧ cs[b.column - column]? = some b.char := by
  induction inside, column, cs using scan_induction lexis with
  | nil inside column => simp [scanFrom] at h
  | token inside column c rest ih =>
    rw [scanFrom_cons, List.mem_append] at h
    rcases h with h | h
    · split at h
      · rw [List.mem_singleton] at h
        subst h
        simp
      · exact absurd h List.not_mem_nil
    · obtain ⟨hle, hget⟩ := ih h
      exact ⟨by omega, getElem?_cons_of_drop hle hget⟩

/-- What the scanner reports are brackets. -/
theorem isBracket_of_mem_scanFrom {lexis : Lexis} {inside : Inside} {column : Nat} {cs : List Char}
    {b : Bracket} (h : b ∈ (scanFrom lexis inside column [] cs).1) : isBracket b.char = true := by
  induction inside, column, cs using scan_induction lexis with
  | nil inside column => simp [scanFrom] at h
  | token inside column c rest ih =>
    rw [scanFrom_cons, List.mem_append] at h
    rcases h with h | h
    · split at h
      · next htoken =>
        rw [List.mem_singleton] at h
        subst h
        exact isBracket_of_nextToken htoken
      · exact absurd h List.not_mem_nil
    · exact ih h

/-- Later brackets stand further to the right. -/
theorem pairwise_column_scanFrom (lexis : Lexis) (inside : Inside) (column : Nat) (cs : List Char) :
    (scanFrom lexis inside column [] cs).1.Pairwise fun a b => a.column < b.column := by
  induction inside, column, cs using scan_induction lexis with
  | nil inside column => simp [scanFrom]
  | token inside column c rest ih =>
    rw [scanFrom_cons, List.pairwise_append]
    refine ⟨by split <;> simp, ih, fun a ha b hb => ?_⟩
    have hle := (getElem?_of_mem_scanFrom hb).1
    split at ha
    · rw [List.mem_singleton] at ha
      subst ha
      simp only
      omega
    · exact absurd ha List.not_mem_nil

/-- A bracket of a line is the character in its column. -/
theorem getElem?_of_mem_scanLine {lexis : Lexis} {inside : Inside} {cs : List Char} {b : Bracket}
    (h : b ∈ (scanLine lexis inside cs).1) : cs[b.column]? = some b.char :=
  (getElem?_of_mem_scanFrom h).2

/-- The brackets of a line are in the order of their columns. -/
theorem pairwise_column_scanLine (lexis : Lexis) (inside : Inside) (line : List Char) :
    (scanLine lexis inside line).1.Pairwise fun a b => a.column < b.column :=
  pairwise_column_scanFrom lexis inside 0 line

/-- A blank line has no brackets. -/
theorem scanLine_of_isBlankText {line : List Char} (h : Text.isBlankText line = true)
    (lexis : Lexis) (inside : Inside) : (scanLine lexis inside line).1 = [] := by
  refine List.eq_nil_iff_forall_not_mem.mpr fun b hb => ?_
  have hblank : Text.isBlank b.char = true :=
    List.all_eq_true.mp h _ (List.mem_of_getElem? (getElem?_of_mem_scanLine hb))
  have hbracket : isBracket b.char = true := isBracket_of_mem_scanFrom hb
  simp only [isBracket, Bool.or_eq_true, beq_iff_eq, or_assoc] at hbracket
  rcases hbracket with hc | hc | hc | hc | hc | hc <;> rw [hc] at hblank <;> revert hblank <;> decide

/-! ## The brackets of several lines

Lines are scanned one after the other, each from what the line above ends inside of. A text can therefore be cut
behind any line, and its brackets are those of both parts (`marksFrom_append`); this is how the brackets above a
line come to be those that the outliner has counted when it reads the line.
-/

/-- A bracket in the code of a text, with the number of its line. -/
structure Mark extends Bracket where
  row : Nat
  deriving DecidableEq

/-- What the end of the last of some lines is inside of, if the first starts inside `inside`. -/
def insideAfter (lexis : Lexis) (inside : Inside) (lines : List (List Char)) : Inside :=
  lines.foldl (fun inside line => (scanLine lexis inside line).2) inside

/-- The brackets in the code of lines of which the first starts inside `inside` and has the number `row`. -/
def marksFrom (lexis : Lexis) : Inside → Nat → List (List Char) → List Mark
  | _, _, [] => []
  | inside, row, line :: rest =>
    (scanLine lexis inside line).1.map (Mark.mk · row) ++
      marksFrom lexis (scanLine lexis inside line).2 (row + 1) rest

/-- The brackets in the code of a text. -/
def marks (lexis : Lexis) (text : List Char) : List Mark :=
  marksFrom lexis .code 0 (Text.lines text)

/-- Lines behind others are scanned from what these end inside of. -/
theorem marksFrom_append (lexis : Lexis) (inside : Inside) (row : Nat) (xs ys : List (List Char)) :
    marksFrom lexis inside row (xs ++ ys) =
      marksFrom lexis inside row xs ++
        marksFrom lexis (insideAfter lexis inside xs) (row + xs.length) ys := by
  induction xs generalizing inside row with
  | nil => rfl
  | cons line rest ih =>
    rw [List.cons_append, marksFrom, marksFrom, ih, List.append_assoc, List.length_cons,
      Nat.add_assoc, Nat.add_comm 1]
    rfl

/-- A bracket has the number of one of the lines. -/
theorem row_of_mem_marksFrom {lexis : Lexis} {inside : Inside} {row : Nat} {lines : List (List Char)}
    {m : Mark} (h : m ∈ marksFrom lexis inside row lines) :
    row ≤ m.row ∧ m.row < row + lines.length := by
  induction lines generalizing inside row with
  | nil => exact absurd h List.not_mem_nil
  | cons line rest ih =>
    rw [marksFrom, List.mem_append] at h
    rw [List.length_cons]
    rcases h with h | h
    · obtain ⟨b, -, rfl⟩ := List.mem_map.mp h
      simp only
      omega
    · have := ih h
      omega

/-- The brackets of a text are those above a line and those from that line on. -/
theorem marks_eq_append (lexis : Lexis) (text : List Char) {row : Nat}
    (hrow : row ≤ (Text.lines text).length) :
    marks lexis text = marksFrom lexis .code 0 ((Text.lines text).take row) ++
      marksFrom lexis (insideAfter lexis .code ((Text.lines text).take row)) row
        ((Text.lines text).drop row) := by
  have happend := marksFrom_append lexis .code 0 ((Text.lines text).take row)
    ((Text.lines text).drop row)
  rwa [List.take_append_drop, List.length_take, Nat.min_eq_left hrow, Nat.zero_add] at happend

/-- The brackets of lines are in the order of the lines. -/
theorem pairwise_row_marksFrom (lexis : Lexis) (inside : Inside) (row : Nat)
    (lines : List (List Char)) :
    (marksFrom lexis inside row lines).Pairwise fun a b => a.row ≤ b.row := by
  induction lines generalizing inside row with
  | nil => exact .nil
  | cons line rest ih =>
    rw [marksFrom, List.pairwise_append]
    refine ⟨?_, ih _ _, fun a ha b hb => ?_⟩
    · rw [List.pairwise_map]
      exact List.pairwise_of_forall fun _ _ => Nat.le_refl row
    · obtain ⟨bracket, -, rfl⟩ := List.mem_map.mp ha
      exact Nat.le_of_succ_le (row_of_mem_marksFrom hb).1

/-! ## Heights

Heights are integers, as the brackets between two places may close more than they open. The depth that an outliner
counts is a natural number, and agrees with the height as long as it gets through (`run?_depth`).
-/

/-- How far a bracket raises the brace depth. -/
def Bracket.rise (b : Bracket) : Int :=
  if b.char = '{' then 1 else if b.char = '}' then -1 else 0

/-- How far brackets raise the brace depth together. -/
def height : List Bracket → Int
  | [] => 0
  | b :: bs => b.rise + height bs

/-- How far marks raise the brace depth together. -/
def Mark.height (ms : List Mark) : Int := Outline.height (ms.map Mark.toBracket)

@[simp] theorem height_nil : height [] = 0 := rfl

@[simp] theorem height_cons (b : Bracket) (bs : List Bracket) :
    height (b :: bs) = b.rise + height bs := rfl

@[simp] theorem height_append (xs ys : List Bracket) : height (xs ++ ys) = height xs + height ys := by
  induction xs with
  | nil => simp
  | cons b bs ih => simp [ih, Int.add_assoc]

@[simp] theorem Mark.height_nil : Mark.height [] = 0 := rfl

@[simp] theorem Mark.height_cons (m : Mark) (ms : List Mark) :
    Mark.height (m :: ms) = m.rise + Mark.height ms := by
  simp [Mark.height]

@[simp] theorem Mark.height_append (xs ys : List Mark) :
    Mark.height (xs ++ ys) = Mark.height xs + Mark.height ys := by
  simp [Mark.height]

theorem Mark.height_map (bs : List Bracket) (row : Nat) :
    Mark.height (bs.map (Mark.mk · row)) = Outline.height bs := by
  simp [Mark.height, Function.comp_def]

/-- An opening brace raises the depth by one. -/
theorem Bracket.rise_open {b : Bracket} (h : b.char = '{') : b.rise = 1 := by
  rw [rise, if_pos h]

/-- A closing brace lowers the depth by one. -/
theorem Bracket.rise_close {b : Bracket} (h : b.char = '}') : b.rise = -1 := by
  rw [rise, h]
  decide

/-- Only a closing brace lowers the depth, and by no more than one. -/
theorem Bracket.rise_of_neg {b : Bracket} (h : b.rise < 0) : b.char = '}' ∧ b.rise = -1 := by
  rw [rise] at *
  split at h
  · exact absurd h (by decide)
  · next hopen =>
    split at h
    · next hclose => exact ⟨hclose, by rw [if_neg hopen, if_pos hclose]⟩
    · exact absurd h (by decide)

/-- How many more parentheses brackets open than they close. -/
def parenHeight (bs : List Bracket) : Int :=
  (bs.countP (·.char = '(') : Int) - bs.countP (·.char = ')')

/-- How many more parentheses marks open than they close. -/
def Mark.parenHeight (ms : List Mark) : Int := Outline.parenHeight (ms.map Mark.toBracket)

@[simp] theorem parenHeight_nil : parenHeight [] = 0 := rfl

@[simp] theorem parenHeight_append (xs ys : List Bracket) :
    parenHeight (xs ++ ys) = parenHeight xs + parenHeight ys := by
  simp only [parenHeight, List.countP_append, Int.natCast_add]
  omega

@[simp] theorem Mark.parenHeight_nil : Mark.parenHeight [] = 0 := rfl

@[simp] theorem Mark.parenHeight_append (xs ys : List Mark) :
    Mark.parenHeight (xs ++ ys) = Mark.parenHeight xs + Mark.parenHeight ys := by
  simp [Mark.parenHeight]

theorem Mark.parenHeight_map (bs : List Bracket) (row : Nat) :
    Mark.parenHeight (bs.map (Mark.mk · row)) = Outline.parenHeight bs := by
  simp [Mark.parenHeight, Function.comp_def]

/-! ## Blocks

Which braces belong together is said by heights alone: between the two of a block everything is closed that is
opened, and nothing else is (`IsBalanced`). That the height never goes below that of the opening brace inside the
block (`exists_passed_of_isBlock`), and that the first place where it does is the end of a block
(`exists_isBlock`), are the two halves of how a depth tells blocks.
-/

/-- Whether brackets close what they open, and nothing else. -/
def IsBalanced (ms : List Mark) : Prop :=
  Mark.height ms = 0 ∧ ∀ first, first <+: ms → 0 ≤ Mark.height first

instance (ms : List Mark) : Decidable (IsBalanced ms) :=
  decidable_of_iff (Mark.height ms = 0 ∧ ∀ first ∈ ms.inits, 0 ≤ Mark.height first)
    (by simp only [IsBalanced, List.mem_inits])

/-- Whether the brace `o` behind the brackets `before` and the brace `c` belong together. -/
def IsBlock (ms before : List Mark) (o c : Mark) : Prop :=
  ∃ middle after, o.char = '{' ∧ c.char = '}' ∧ IsBalanced middle ∧
    ms = before ++ o :: (middle ++ c :: after)

/-- A list that is cut in front of `o` is cut into the part before the cut and the part up to `o`. -/
theorem exists_append_of_notMem_left {α : Type} {xs ys lower upper : List α} {o : α}
    (h : xs ++ o :: ys = lower ++ upper) (ho : o ∉ lower) :
    ∃ more, xs = lower ++ more ∧ upper = more ++ o :: ys := by
  rcases List.append_eq_append_iff.mp h with ⟨more, hlower, hupper⟩ | ⟨more, hxs, hupper⟩
  · cases more with
    | nil => exact ⟨[], by simpa using hlower.symm, by simpa using hupper.symm⟩
    | cons a more =>
      rw [List.cons_append, List.cons.injEq] at hupper
      exact absurd (by rw [hlower, ← hupper.1]; simp) ho
  · exact ⟨more, hxs, hupper⟩

/-- A list that is cut behind `o` is cut into the part up to the cut and the part after it. -/
theorem exists_append_of_notMem_right {α : Type} {xs ys lower upper : List α} {o : α}
    (h : xs ++ o :: ys = lower ++ upper) (ho : o ∉ upper) :
    ∃ more, lower = xs ++ o :: more ∧ ys = more ++ upper := by
  rcases List.append_eq_append_iff.mp h with ⟨more, hlower, hupper⟩ | ⟨more, hxs, hupper⟩
  · cases more with
    | nil =>
      rw [List.nil_append] at hupper
      exact absurd (by rw [← hupper]; simp) ho
    | cons a more =>
      rw [List.cons_append, List.cons.injEq] at hupper
      exact ⟨more, by rw [hlower, hupper.1], hupper.2⟩
  · exact absurd (by rw [hupper]; simp) ho

/-- The opening brace of a block is one of the brackets of its line, behind those of the lines above. -/
theorem exists_front_of_isBlock {ms before lower upper : List Mark} {o c : Mark} {bs : List Bracket}
    {row : Nat} (h : IsBlock ms before o c)
    (hcut : ms = lower ++ (bs.map (Mark.mk · row) ++ upper)) (hlower : o ∉ lower) (hupper : o ∉ upper) :
    ∃ front behind, bs = front ++ o.toBracket :: behind ∧ o.char = '{' ∧
      before = lower ++ front.map (Mark.mk · row) := by
  obtain ⟨middle, after, hopen, -, -, hms⟩ := h
  -- The cuts in front of the line and behind it leave the brace among the brackets of the line.
  obtain ⟨front, hbefore, hline⟩ := exists_append_of_notMem_left (hms.symm.trans hcut) hlower
  obtain ⟨behind, hbs, -⟩ := exists_append_of_notMem_right hline.symm hupper
  obtain ⟨front', rest, rfl, rfl, hrest⟩ := List.map_eq_append_iff.mp hbs
  obtain ⟨b, behind', rfl, rfl, -⟩ := List.map_eq_cons_iff.mp hrest
  exact ⟨front', behind', rfl, hopen, hbefore⟩

/-- What stands between its opening brace and a place inside a block closes nothing that it did not open. -/
theorem exists_passed_of_isBlock {before lower upper : List Mark} {o c : Mark}
    (h : IsBlock (lower ++ upper) before o c) (ho : o ∉ upper) (hc : c ∉ lower) :
    ∃ passed, o.char = '{' ∧ lower = before ++ o :: passed ∧
      ∀ first, first <+: passed → 0 ≤ Mark.height first := by
  obtain ⟨middle, after, hopen, -, ⟨-, hbalanced⟩, hms⟩ := h
  obtain ⟨passed, hlower, hrest⟩ := exists_append_of_notMem_right hms.symm ho
  have hpassed : c ∉ passed := fun hmem => hc (by rw [hlower]; simp [hmem])
  obtain ⟨more, hmiddle, -⟩ := exists_append_of_notMem_left hrest hpassed
  exact ⟨passed, hopen, hlower, fun first hfirst =>
    hbalanced first (hfirst.trans ⟨more, hmiddle.symm⟩)⟩

/-- Brackets that close more than they open have a first brace that closes too much. -/
theorem exists_close {ms : List Mark} (h : Mark.height ms < 0) :
    ∃ middle c after, c.char = '}' ∧ IsBalanced middle ∧ ms = middle ++ c :: after := by
  -- The induction is on what still follows, with the brackets passed so far never below zero.
  have hscan : ∀ passed rest : List Mark, (∀ first, first <+: passed → 0 ≤ Mark.height first) →
      Mark.height (passed ++ rest) < 0 →
      ∃ middle c after, c.char = '}' ∧ IsBalanced middle ∧ passed ++ rest = middle ++ c :: after := by
    intro passed rest
    induction rest generalizing passed with
    | nil =>
      intro hpassed hneg
      rw [List.append_nil] at hneg
      exact absurd (hpassed passed List.prefix_rfl) (by omega)
    | cons m rest ih =>
      intro hpassed hneg
      by_cases hm : 0 ≤ Mark.height (passed ++ [m])
      · have hnext : ∀ first, first <+: passed ++ [m] → 0 ≤ Mark.height first := by
          intro first hfirst
          rcases List.prefix_concat_iff.mp hfirst with rfl | hfirst
          · exact hm
          · exact hpassed first hfirst
        simpa using ih (passed ++ [m]) hnext (by simpa using hneg)
      · have hge := hpassed passed List.prefix_rfl
        rw [Mark.height_append, Mark.height_cons, Mark.height_nil] at hm
        obtain ⟨hclose, hrise⟩ := Bracket.rise_of_neg (b := m.toBracket) (by omega)
        exact ⟨passed, m, rest, hclose, ⟨by omega, hpassed⟩, rfl⟩
  simpa using hscan [] ms (by simp) (by simpa using h)

/-- What is never below zero and then goes below it closes the brace before it. -/
theorem exists_isBlock {before passed closing : List Mark} {o : Mark} (hopen : o.char = '{')
    (hpassed : ∀ first, first <+: passed → 0 ≤ Mark.height first)
    (hclosing : Mark.height (passed ++ closing) < 0) :
    ∃ c ∈ closing, IsBlock (before ++ o :: (passed ++ closing)) before o c := by
  obtain ⟨middle, c, after, hclose, hbalanced, hms⟩ := exists_close hclosing
  have hblock : IsBlock (before ++ o :: (passed ++ closing)) before o c :=
    ⟨middle, after, hopen, hclose, hbalanced, by rw [hms]⟩
  refine ⟨c, ?_, hblock⟩
  rcases List.append_eq_append_iff.mp hms with ⟨more, hmiddle, hafter⟩ | ⟨more, hmore, hafter⟩
  · rw [hafter]
    simp
  · cases more with
    | nil =>
      rw [List.nil_append] at hafter
      rw [← hafter]
      exact List.mem_cons_self
    | cons m more =>
      -- The brace would close within what is never below zero.
      rw [List.cons_append, List.cons.injEq] at hafter
      have hprefix : middle ++ [c] <+: passed := ⟨more, by rw [hmore, hafter.1]; simp⟩
      have hnonneg := hpassed _ hprefix
      rw [Mark.height_append, hbalanced.1, Mark.height_cons, Mark.height_nil,
        Bracket.rise_close hclose] at hnonneg
      omega

section

variable {before lower upper : List Mark} {o c : Mark}

/-- A block ends on the line it begins on or below. -/
theorem IsBlock.row_le {lexis : Lexis} {text : List Char} (h : IsBlock (marks lexis text) before o c) :
    o.row ≤ c.row := by
  obtain ⟨middle, after, -, -, -, hms⟩ := h
  have hrows := pairwise_row_marksFrom lexis .code 0 (Text.lines text)
  rw [← marks, hms, List.pairwise_append, List.pairwise_cons] at hrows
  exact hrows.2.1.1 c (by simp)

/-- A block depends on nothing behind it. -/
theorem IsBlock.of_append (h : IsBlock (lower ++ upper) before o c) (hc : c ∉ upper) :
    IsBlock lower before o c := by
  obtain ⟨middle, after, hopen, hclose, hbalanced, hms⟩ := h
  have hms' : (before ++ o :: middle) ++ c :: after = lower ++ upper := by rw [hms]; simp
  obtain ⟨more, hlower, -⟩ := exists_append_of_notMem_right hms' hc
  exact ⟨middle, more, hopen, hclose, hbalanced, by rw [hlower]; simp⟩

/-- A block stays one when the text goes on. -/
theorem IsBlock.append (h : IsBlock lower before o c) (upper : List Mark) :
    IsBlock (lower ++ upper) before o c := by
  obtain ⟨middle, after, hopen, hclose, hbalanced, rfl⟩ := h
  exact ⟨middle, after ++ upper, hopen, hclose, hbalanced, by simp⟩

/-- A brace has one brace that belongs to it. -/
theorem IsBlock.unique {ms : List Mark} {c' : Mark} (h : IsBlock ms before o c)
    (h' : IsBlock ms before o c') : c = c' := by
  obtain ⟨middle, after, -, hclose, hbalanced, rfl⟩ := h
  obtain ⟨middle', after', -, hclose', hbalanced', hms⟩ := h'
  -- If one of the two closed before the other, it would close too much for the other.
  have hlong : ∀ {xs ys more : List Mark} {d : Mark}, IsBalanced xs → IsBalanced ys → d.char = '}' →
      xs ++ d :: more ≠ ys := by
    intro xs ys more d hxs hys hd heq
    have hnonneg := hys.2 (xs ++ [d]) ⟨more, by rw [← heq]; simp⟩
    rw [Mark.height_append, hxs.1, Mark.height_cons, Mark.height_nil, Bracket.rise_close hd] at hnonneg
    omega
  have hmiddles : middle ++ c :: after = middle' ++ c' :: after' := by simpa using hms
  rcases List.append_eq_append_iff.mp hmiddles with ⟨more, hmiddle, hafter⟩ | ⟨more, hmiddle, hafter⟩
  · cases more with
    | nil => exact (List.cons.inj hafter).1
    | cons m more =>
      rw [List.cons_append, List.cons.injEq] at hafter
      exact absurd (by rw [hmiddle, hafter.1]) (hlong hbalanced hbalanced' hclose)
  · cases more with
    | nil => exact ((List.cons.inj hafter).1).symm
    | cons m more =>
      rw [List.cons_append, List.cons.injEq] at hafter
      exact absurd (by rw [hmiddle, hafter.1]) (hlong hbalanced' hbalanced hclose')

end

end RepoScope.Outline
