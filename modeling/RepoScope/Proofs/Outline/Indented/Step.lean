import RepoScope.Outline.Indented
import RepoScope.Proofs.Outline.Selections

/-!
# What one line of an indented language can do

As for the languages with braces, each branch of the outliner is one case of a relation between the state
before a line and the state after it (`LevelStep` for lines at outline level, `Step` for all lines). What
holds after every step is proved from these cases.
-/

namespace RepoScope.Outline.Indented

open Text

/-! ## What is asked of a line

Each test of the outliner has a name here, so that the branches can be told by what was found.
-/

/-- Whether there is no code in a text: blanks, and perhaps a comment behind them. -/
def isBare (behind : List Char) : Bool :=
  (trim behind).isEmpty || (trim behind).head? = some '#'

/-- Whether a line starts inside a literal or a bracket that was opened above it. -/
def Reading.isContinued (r : Reading) : Bool := r.startsInside || r.start > 0

/-- Whether a line starts a statement. -/
def Reading.isStatement (r : Reading) : Bool :=
  !r.isContinued && !r.trimmed.isEmpty && r.trimmed.head? != some '#' && r.trimmed.head? != some '@'

/-- Whether a line starts a class or a function. -/
def Reading.isHeader (r : Reading) : Bool :=
  !moduleImport.isIn r.trimmed && (isClassHeader r.trimmed || defHeader.isIn r.trimmed)

/-- Whether a line ends a header that was opened above it. -/
def Reading.endsHeader (r : Reading) : Bool := r.depth = 0 ∧ r.trimmed.getLast? = some ':'

/-- Whether a line is taken as one of outline level. -/
def State.isLevel (s : State) (r : Reading) : Bool :=
  match s.mode with
  | .outline => true
  | .body indent _ => !r.isInBody indent
  | .header .. | .continuing => false

/-- The classes that are still open where a statement starts. -/
def State.openClasses (s : State) (r : Reading) : List Nat := s.classes.dropWhile (r.indent ≤ ·)

/-- Whether a statement is kept with all its lines: an import, a field of a class or a constant. -/
def State.keepsStatement (s : State) (r : Reading) : Bool :=
  moduleImport.isIn r.trimmed ||
  (!r.isHeader &&
    (((s.openClasses r).head?.any (· < r.indent) && memberField.isIn r.trimmed) ||
      (r.indent == 0 && moduleConstant.isIn r.trimmed)))

/-- The state behind a line, as far as it does not depend on what becomes of the line. -/
def State.moved (s : State) (r : Reading) : State := { s with inside := r.inside, depth := r.depth }

/-- The state behind a statement at outline level, as far as it does not depend on the statement. -/
def State.passed (s : State) (r : Reading) : State :=
  { s.moved r with classes := s.openClasses r, mode := .outline, waitingOpen := false }

/-- The state behind a statement whose first line is kept. -/
def State.kept (s : State) (r : Reading) : State :=
  { s.passed r with selection := s.selection.keep r.line }

/-! ## Lines at outline level

A line that goes on with what was opened above is told first, then blank lines, comments and decorators, and then
statements: those that are kept for what they are, and those that start a class or a function.
-/

/-- What a line at outline level does to the state. -/
inductive LevelStep (s : State) (r : Reading) : State → Prop
  | waiting (hin : r.isContinued = true) (hopen : s.waitingOpen = true) :
      LevelStep s r
        { s.moved r with
          mode := .outline, selection := s.selection.hold r.line, waitingOpen := r.depth > 0 }
  | within (hin : r.isContinued = true) (hopen : s.waitingOpen = false) :
      LevelStep s r { s.moved r with mode := .outline }
  | blank (hin : r.isContinued = false) (hnil : r.trimmed = []) :
      LevelStep s r
        { s.moved r with
          mode := .outline, selection := s.selection.blank r.line.row, waitingOpen := false }
  | decorator (hin : r.isContinued = false) (hne : r.trimmed ≠ [])
      (hhead : r.trimmed.head? = some '#' ∨ r.trimmed.head? = some '@') :
      LevelStep s r
        { s.passed r with selection := s.selection.hold r.line, waitingOpen := r.depth > 0 }
  | statement (hstarts : r.isStatement = true) (hkept : s.keepsStatement r = true) :
      LevelStep s r { s.kept r with mode := if r.depth > 0 then .continuing else .outline }
  | block {column : Nat} (hstarts : r.isStatement = true) (hheader : r.isHeader = true)
      (hcolon : headerColon? r.trimmed = some column)
      (hbare : isBare (r.trimmed.drop (column + 1)) = true) :
      LevelStep s r ((s.kept r).enterBlock r.indent (isClassHeader r.trimmed))
  | oneLineClass {column : Nat} (hstarts : r.isStatement = true) (hheader : r.isHeader = true)
      (hcolon : headerColon? r.trimmed = some column)
      (hbare : isBare (r.trimmed.drop (column + 1)) = false)
      (hclass : isClassHeader r.trimmed = true) :
      LevelStep s r (s.kept r)
  | oneLineDef {column : Nat} (hstarts : r.isStatement = true) (hheader : r.isHeader = true)
      (hcolon : headerColon? r.trimmed = some column)
      (hbare : isBare (r.trimmed.drop (column + 1)) = false)
      (hclass : isClassHeader r.trimmed = false) :
      LevelStep s r { s.passed r with selection := s.selection.keep (cutAtColon r column) }
  | header (hstarts : r.isStatement = true) (hheader : r.isHeader = true)
      (hcolon : headerColon? r.trimmed = none) (hdepth : 0 < r.depth) :
      LevelStep s r { s.kept r with mode := .header r.indent (isClassHeader r.trimmed) }
  | noColon (hstarts : r.isStatement = true) (hheader : r.isHeader = true)
      (hcolon : headerColon? r.trimmed = none) (hdepth : r.depth = 0) :
      LevelStep s r (s.kept r)
  | other (hstarts : r.isStatement = true) (hheader : r.isHeader = false)
      (hkept : s.keepsStatement r = false) :
      LevelStep s r { s.passed r with selection := s.selection.discard }

/-- A statement that starts a class or a function. -/
theorem levelStep_openHeader {s : State} {r : Reading} (hstarts : r.isStatement = true)
    (hheader : r.isHeader = true) :
    LevelStep s r ((s.passed r).openHeader r (isClassHeader r.trimmed)) := by
  rw [State.openHeader]
  cases hcolon : headerColon? r.trimmed with
  | none =>
    simp only
    split
    · next hdepth => exact .header hstarts hheader hcolon hdepth
    · next hdepth => exact .noColon hstarts hheader hcolon (by omega)
  | some column =>
    simp only
    split
    · next hbare => exact .block hstarts hheader hcolon hbare
    · next hbare =>
      have hbare : isBare (r.trimmed.drop (column + 1)) = false := Bool.eq_false_iff.mpr hbare
      split
      · next hclass => exact .oneLineClass hstarts hheader hcolon hbare hclass
      · next hclass =>
        exact .oneLineDef hstarts hheader hcolon hbare (Bool.eq_false_iff.mpr hclass)

/-- A line that starts outside brackets and literals and is not blank. -/
theorem levelStep_statement {s : State} {r : Reading} (hin : r.isContinued = false)
    (hne : r.trimmed ≠ []) :
    LevelStep s r (State.statement { s.moved r with mode := .outline, waitingOpen := false } r) := by
  -- The tests are made in the order of the steps: a decorator, an import, a header, another statement that is
  -- kept, and all else.
  rw [State.statement]
  simp only
  split
  · next hhead => exact .decorator hin hne hhead
  · next hhead =>
    have hstarts : r.isStatement = true := by
      rw [not_or] at hhead
      simp [Reading.isStatement, hin, hne, hhead.1, hhead.2]
    split
    · next himport => exact .statement hstarts (by rw [State.keepsStatement, himport]; rfl)
    · next himport =>
      have himport : moduleImport.isIn r.trimmed = false := Bool.eq_false_iff.mpr himport
      split
      · next hheader =>
        exact levelStep_openHeader hstarts (by rw [Reading.isHeader, himport]; exact hheader)
      · next hheader =>
        have hheader : r.isHeader = false := by
          rw [Reading.isHeader, himport]
          exact Bool.eq_false_iff.mpr hheader
        split
        · next hkept =>
          refine .statement hstarts ?_
          rw [State.keepsStatement, himport, hheader]
          exact hkept
        · next hkept =>
          refine .other hstarts hheader ?_
          rw [State.keepsStatement, himport, hheader]
          exact Bool.eq_false_iff.mpr hkept

/-- The branches of a line at outline level are all there are. -/
theorem levelStep_outlineLine (s : State) (r : Reading) :
    LevelStep s r (State.outlineLine { s.moved r with mode := .outline } r) := by
  rw [State.outlineLine]
  split
  · next hin =>
    have hin : r.isContinued = true := by simpa [Reading.isContinued] using hin
    split
    · next hopen => exact .waiting hin hopen
    · next hopen => exact .within hin (Bool.eq_false_iff.mpr hopen)
  · next hin =>
    have hin : r.isContinued = false := by simpa [Reading.isContinued] using hin
    simp only
    split
    · next hblank => exact .blank hin (List.isEmpty_iff.mp hblank)
    · next hblank =>
      exact levelStep_statement hin fun hnil => hblank (List.isEmpty_iff.mpr hnil)

/-! ## All lines

A header, a statement that goes on and the body of a function each have a mode of their own. A line that is
indented no further than the function whose body is being read is one of outline level.
-/

/-- What a line does to the state. -/
inductive Step (s : State) (r : Reading) : State → Prop
  | header {indent : Nat} {isClass : Bool} (hmode : s.mode = .header indent isClass)
      (hopen : r.endsHeader = false) :
      Step s r { s.moved r with selection := s.selection.keep r.line }
  | headerEnd {indent : Nat} {isClass : Bool} (hmode : s.mode = .header indent isClass)
      (hends : r.endsHeader = true) :
      Step s r
        (State.enterBlock { s.moved r with selection := s.selection.keep r.line } indent isClass)
  | continuing (hmode : s.mode = .continuing) :
      Step s r
        { s.moved r with
          selection := s.selection.keep r.line
          mode := if r.depth > 0 then .continuing else .outline }
  | mark {indent : Nat} (hmode : s.mode = .body indent false) (hin : r.isInBody indent = true)
      (hne : r.trimmed ≠ []) :
      Step s r
        { s.moved r with
          selection := s.selection.keep (elideLine r.line), mode := .body indent true }
  | body {indent : Nat} {marked : Bool} (hmode : s.mode = .body indent marked)
      (hin : r.isInBody indent = true) (hquiet : marked = true ∨ r.trimmed = []) :
      Step s r (s.moved r)
  | level {s' : State} (hlevel : s.isLevel r = true) (hstep : LevelStep s r s') : Step s r s'

/-- The cases of a line are all there are. -/
theorem step_apply (s : State) (r : Reading) : Step s r (s.apply r) := by
  obtain ⟨inside, depth, classes, mode, waitingOpen, selection⟩ := s
  -- One case for each mode, as the outliner has it.
  cases mode with
  | outline => exact .level rfl (levelStep_outlineLine _ r)
  | header indent isClass =>
    simp only [State.apply]
    split
    · next hends => exact .headerEnd rfl (decide_eq_true hends)
    · next hopen => exact .header rfl (decide_eq_false hopen)
  | continuing => exact .continuing rfl
  | body indent marked =>
    simp only [State.apply]
    split
    · next hin =>
      split
      · next hmark =>
        simp only [Bool.and_eq_true, Bool.not_eq_true', List.isEmpty_eq_false_iff] at hmark
        obtain ⟨rfl, hne⟩ := hmark
        exact .mark rfl hin hne
      · next hmark =>
        refine .body rfl hin ?_
        cases marked with
        | true => exact .inl rfl
        | false => exact .inr (by simpa using hmark)
    · next hin => exact .level (by simpa [State.isLevel] using hin) (levelStep_outlineLine _ r)

/-- A line that is taken as one of outline level makes a step of this level. -/
theorem Step.levelStep {s s' : State} {r : Reading} (h : Step s r s') (hlevel : s.isLevel r = true) :
    LevelStep s r s' := by
  rw [State.isLevel] at hlevel
  cases h with
  | header hmode _ =>
    rw [hmode] at hlevel
    cases hlevel
  | headerEnd hmode _ =>
    rw [hmode] at hlevel
    cases hlevel
  | continuing hmode =>
    rw [hmode] at hlevel
    cases hlevel
  | mark hmode hin _ =>
    rw [hmode] at hlevel
    simp [hin] at hlevel
  | body hmode hin _ =>
    rw [hmode] at hlevel
    simp [hin] at hlevel
  | level _ hstep => exact hstep

/-- A step at outline level takes over the depth of the reading, and what its end is inside of. -/
theorem LevelStep.inside {s s' : State} {r : Reading} (h : LevelStep s r s') :
    s'.inside = r.inside ∧ s'.depth = r.depth := by
  cases h with
  | block _ _ _ _ =>
    rw [State.enterBlock]
    split <;> exact ⟨rfl, rfl⟩
  | _ => exact ⟨rfl, rfl⟩

/-- A step takes over the depth of the reading, and what its end is inside of. -/
theorem Step.inside {s s' : State} {r : Reading} (h : Step s r s') :
    s'.inside = r.inside ∧ s'.depth = r.depth := by
  cases h with
  | headerEnd _ _ =>
    rw [State.enterBlock]
    split <;> exact ⟨rfl, rfl⟩
  | level _ hstep => exact hstep.inside
  | _ => exact ⟨rfl, rfl⟩

/-! ## What a line adds

From the cases it can be read off that each step is one of the four updates of a selection.
-/

/-- What an outline can show of a line. -/
inductive Shows (r : Reading) : Line → Prop
  | whole : Shows r r.line
  | cut {column : Nat} (h : headerColon? r.trimmed = some column) : Shows r (cutAtColon r column)
  | mark : Shows r (elideLine r.line)
  | blank (h : r.trimmed = []) : Shows r ⟨r.line.row, []⟩

/-- What is shown of a line has its number. -/
theorem Shows.row_eq {r : Reading} {l : Line} (h : Shows r l) : l.row = r.line.row := by
  cases h <;> rfl

/-- Entering a block selects nothing. -/
theorem State.selection_enterBlock (s : State) (indent : Nat) (isClass : Bool) :
    (s.enterBlock indent isClass).selection = s.selection := by
  rw [enterBlock]
  split <;> rfl

/-- Of the line that is read, a step at outline level selects at most one line that an outline can show. -/
theorem LevelStep.update {s s' : State} {r : Reading} (h : LevelStep s r s') :
    Selection.Update (Shows r) s.selection s'.selection := by
  cases h with
  | waiting _ _ => exact .hold .whole
  | within _ _ => exact .none
  | blank _ hnil => exact .blank (.blank hnil)
  | decorator _ _ _ => exact .hold .whole
  | statement _ _ => exact .keep .whole
  | block _ _ _ _ =>
    rw [State.selection_enterBlock]
    exact .keep .whole
  | oneLineClass _ _ _ _ _ => exact .keep .whole
  | oneLineDef _ _ hcolon _ _ => exact .keep (.cut hcolon)
  | header _ _ _ _ => exact .keep .whole
  | noColon _ _ _ _ => exact .keep .whole
  | other _ _ _ => exact .discard

/-- Of the line that is read, a step selects at most one line that an outline can show. -/
theorem Step.update {s s' : State} {r : Reading} (h : Step s r s') :
    Selection.Update (Shows r) s.selection s'.selection := by
  cases h with
  | header _ _ => exact .keep .whole
  | headerEnd _ _ =>
    rw [State.selection_enterBlock]
    exact .keep .whole
  | continuing _ => exact .keep .whole
  | mark _ _ _ => exact .keep .mark
  | body _ _ _ => exact .none
  | level _ hstep => exact hstep.update

end RepoScope.Outline.Indented
