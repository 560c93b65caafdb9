import RepoScope.Proofs.Outline.Indented.Run
import RepoScope.Proofs.Outline.Run

/-!
# The numbers of lines

A line of a selection carries the number of its source line, so that it can be said where it comes from. The
outliners only write these numbers and never read them: with the numbers taken away, a state goes on to the
same state without numbers (`Braces.unnumbered_step?`, `Indented.unnumbered_step?`). So two runs over the same
lines with different numbers end in states that are the same but for the numbers
(`Outliner.map_run?_eq_of_unnumbered`), and an outline is finished without them (`Selection.finish_unnumbered`).
-/

namespace RepoScope.Outline

open Text

/-! ## Selections

Taking the numbers away goes through each way to change a selection. A blank line is the only one that gets its
number by itself, and is given zero.
-/

/-- A line without its number. -/
def Line.unnumbered (l : Line) : Line := { l with row := 0 }

@[simp] theorem Line.text_unnumbered (l : Line) : l.unnumbered.text = l.text := rfl

namespace Selection

/-- A selection without the numbers of its lines. -/
def unnumbered (s : Selection) : Selection := ⟨s.kept.map Line.unnumbered, s.waiting.map Line.unnumbered⟩

@[simp] theorem unnumbered_empty : empty.unnumbered = empty := rfl

@[simp] theorem unnumbered_keep (s : Selection) (l : Line) :
    (s.keep l).unnumbered = s.unnumbered.keep l.unnumbered := by
  simp [unnumbered, keep]

@[simp] theorem unnumbered_hold (s : Selection) (l : Line) :
    (s.hold l).unnumbered = s.unnumbered.hold l.unnumbered := rfl

@[simp] theorem unnumbered_discard (s : Selection) : s.discard.unnumbered = s.unnumbered.discard := rfl

@[simp] theorem unnumbered_blank (s : Selection) (row : Nat) :
    (s.blank row).unnumbered = s.unnumbered.blank 0 := by
  obtain ⟨kept, waiting⟩ := s
  cases kept with
  | nil => rfl
  | cons last rest =>
    simp only [blank, unnumbered, List.map_cons, Line.text_unnumbered]
    split <;> rfl

/-- The lines of a selection have the same texts without their numbers. -/
theorem texts_lines_unnumbered (s : Selection) :
    s.unnumbered.lines.map (·.text) = s.lines.map (·.text) := by
  rw [lines, unnumbered, List.dropWhile_map, ← List.map_reverse, List.map_map, lines]
  rfl

/-- The numbers of lines are no part of an outline. -/
theorem finish_unnumbered (s : Selection) (source : List Char) :
    s.unnumbered.finish source = s.finish source := by
  have htexts := s.texts_lines_unnumbered
  have hempty : s.unnumbered.lines.isEmpty = s.lines.isEmpty := by
    rw [← List.isEmpty_map, htexts, List.isEmpty_map]
  rw [finish, finish, htexts, hempty]

end Selection

/-! ## Runs -/

/-- Two runs over the same lines that differ in numbers only end alike, or fail both. -/
theorem Outliner.map_run?_eq_of_unnumbered {σ : Type} {O : Outliner σ} {unnumbered : σ → σ}
    (hstep : ∀ s line, (O.step? s line).map unnumbered = O.step? (unnumbered s) line.unnumbered)
    {s s' : σ} (hs : unnumbered s = unnumbered s') (row row' : Nat) (ls : List (List Char)) :
    (O.run? s row ls).map unnumbered = (O.run? s' row' ls).map unnumbered := by
  induction ls generalizing s s' row row' with
  | nil => exact congrArg some hs
  | cons line rest ih =>
    have hnext : (O.step? s ⟨row, line⟩).map unnumbered = (O.step? s' ⟨row', line⟩).map unnumbered := by
      rw [hstep, hstep, hs]
      rfl
    rw [run?, run?]
    cases ht : O.step? s ⟨row, line⟩ with
    | none =>
      rw [ht, Option.map_none, eq_comm, Option.map_eq_none_iff] at hnext
      rw [hnext]
      rfl
    | some t =>
      rw [ht, Option.map_some, eq_comm, Option.map_eq_some_iff] at hnext
      obtain ⟨t', ht', htt'⟩ := hnext
      rw [ht']
      exact ih htt'.symm (row + 1) (row' + 1)

/-! ## Both outliners

A step is put together from a few functions on states, of which each is shown to go the same way without numbers.
No test in them looks at the number of a line, so the cases of both sides are the same.
-/

namespace Braces

/-- A reading without the number of its line. -/
def Reading.unnumbered (r : Reading) : Reading := { r with line := r.line.unnumbered }

/-- A state without the numbers of the lines that it has selected. -/
def State.unnumbered (s : State) : State := { s with selection := s.selection.unnumbered }

section

variable (s : State) (r : Reading)

theorem State.unnumbered_openBlock (column : Nat) :
    (s.openBlock r column).unnumbered = s.unnumbered.openBlock r.unnumbered column := by
  unfold State.openBlock
  simp only [apply_ite State.unnumbered]
  refine if_congr Iff.rfl ?container ?body
  case container =>
    rw [State.unnumbered, Selection.unnumbered_keep]
    rfl
  case body =>
    rw [State.unnumbered, apply_ite Selection.unnumbered, Selection.unnumbered_keep,
      Selection.unnumbered_discard]
    rfl

theorem State.unnumbered_declare : (s.declare r).unnumbered = s.unnumbered.declare r.unnumbered := by
  have hopen : r.unnumbered.openAt = r.openAt := rfl
  have hheader : s.unnumbered.header = s.header := rfl
  rw [State.declare, State.declare, hopen, hheader]
  cases r.openAt with
  | some column => exact s.unnumbered_openBlock r column
  | none =>
    cases s.header with
    | some h =>
      simp only [State.unnumbered, Selection.unnumbered_keep]
      rfl
    | none =>
      simp only [apply_ite State.unnumbered]
      refine if_congr Iff.rfl ?member (if_congr Iff.rfl ?declaration rfl)
      case member =>
        rw [State.unnumbered, Selection.unnumbered_keep]
        rfl
      case declaration =>
        rw [State.unnumbered, Selection.unnumbered_keep]
        rfl

theorem State.unnumbered_elideValue (h : Header) :
    (s.elideValue r h).unnumbered = s.unnumbered.elideValue r.unnumbered h := by
  simp only [State.elideValue, State.unnumbered, Selection.unnumbered_keep]
  rfl

theorem State.unnumbered_continueHeader :
    (s.continueHeader r).unnumbered = s.unnumbered.continueHeader r.unnumbered := by
  have hheader : s.unnumbered.header = s.header := rfl
  rw [State.continueHeader, State.continueHeader, hheader]
  cases s.header with
  | none => exact s.unnumbered_declare r
  | some h =>
    simp only [apply_ite State.unnumbered]
    exact if_congr Iff.rfl (State.unnumbered_declare { s with header := none } r)
      (if_congr Iff.rfl (s.unnumbered_elideValue r h) (s.unnumbered_declare r))

theorem State.unnumbered_outlineLine :
    (s.outlineLine r).unnumbered = s.unnumbered.outlineLine r.unnumbered := by
  unfold State.outlineLine
  simp only [apply_ite State.unnumbered]
  refine if_congr Iff.rfl ?blank (if_congr Iff.rfl ?literal (if_congr Iff.rfl rfl
    (if_congr Iff.rfl ?close (if_congr Iff.rfl ?importing (s.unnumbered_continueHeader r)))))
  case blank =>
    rw [State.unnumbered, Selection.unnumbered_blank]
    rfl
  case literal =>
    rw [State.unnumbered, apply_ite Selection.unnumbered, Selection.unnumbered_keep]
    rfl
  case close =>
    rw [State.unnumbered, Selection.unnumbered_keep]
    rfl
  case importing =>
    rw [State.unnumbered, Selection.unnumbered_keep]
    rfl

theorem State.unnumbered_apply : (s.apply r).unnumbered = s.unnumbered.apply r.unnumbered := by
  have hmode : s.unnumbered.mode = s.mode := rfl
  unfold State.apply
  simp only [hmode]
  cases s.mode with
  | outline =>
    exact State.unnumbered_outlineLine { s with inside := r.inside, depth := r.depth, mode := .outline } r
  | skip floor => rfl
  | importing floor parens =>
    rw [State.unnumbered, Selection.unnumbered_keep]
    rfl
  | value floor parens indent =>
    simp only [apply_ite State.unnumbered]
    exact if_congr Iff.rfl (State.unnumbered_outlineLine _ r) rfl

/-- What a line does to the state does not depend on the numbers of lines. -/
theorem unnumbered_step? (lexis : Lexis) (line : Line) :
    (step? lexis s line).map State.unnumbered = step? lexis s.unnumbered line.unnumbered := by
  have hread : Reading.of? lexis s.inside s.depth line.unnumbered =
      (Reading.of? lexis s.inside s.depth line).map Reading.unnumbered := by
    simp only [Reading.of?, Option.map_map]
    rfl
  have happly : State.unnumbered ∘ s.apply = s.unnumbered.apply ∘ Reading.unnumbered :=
    funext fun r => s.unnumbered_apply r
  change _ = (Reading.of? lexis s.inside s.depth line.unnumbered).map s.unnumbered.apply
  rw [step?, hread, Option.map_map, Option.map_map, happly]

end

end Braces

namespace Indented

/-- A reading without the number of its line. -/
def Reading.unnumbered (r : Reading) : Reading := { r with line := r.line.unnumbered }

/-- A state without the numbers of the lines that it has selected. -/
def State.unnumbered (s : State) : State := { s with selection := s.selection.unnumbered }

section

variable (s : State) (r : Reading)

theorem State.unnumbered_enterBlock (indent : Nat) (isClass : Bool) :
    (s.enterBlock indent isClass).unnumbered = s.unnumbered.enterBlock indent isClass := by
  unfold State.enterBlock
  simp only [apply_ite State.unnumbered]
  rfl

theorem State.unnumbered_openHeader (isClass : Bool) :
    (s.openHeader r isClass).unnumbered = s.unnumbered.openHeader r.unnumbered isClass := by
  have htrimmed : r.unnumbered.trimmed = r.trimmed := rfl
  have hkept : State.unnumbered { s with selection := s.selection.keep r.line } =
      { s.unnumbered with selection := s.selection.unnumbered.keep r.line.unnumbered } := by
    rw [State.unnumbered, Selection.unnumbered_keep]
    rfl
  unfold State.openHeader
  rw [htrimmed]
  cases headerColon? r.trimmed with
  | some column =>
    simp only [apply_ite State.unnumbered]
    refine if_congr Iff.rfl ?block (if_congr Iff.rfl hkept ?cut)
    case block =>
      rw [State.unnumbered_enterBlock, hkept]
      rfl
    case cut =>
      rw [State.unnumbered, Selection.unnumbered_keep]
      rfl
  | none =>
    simp only [apply_ite State.unnumbered]
    refine if_congr Iff.rfl ?header hkept
    rw [State.unnumbered, Selection.unnumbered_keep]
    rfl

theorem State.unnumbered_keepStatement :
    (s.keepStatement r).unnumbered = s.unnumbered.keepStatement r.unnumbered := by
  rw [State.keepStatement, State.unnumbered, Selection.unnumbered_keep]
  rfl

theorem State.unnumbered_statement :
    (s.statement r).unnumbered = s.unnumbered.statement r.unnumbered := by
  unfold State.statement
  simp only [apply_ite State.unnumbered]
  exact if_congr Iff.rfl rfl (if_congr Iff.rfl (State.unnumbered_keepStatement _ r)
    (if_congr Iff.rfl (State.unnumbered_openHeader _ r _)
      (if_congr Iff.rfl (State.unnumbered_keepStatement _ r) rfl)))

theorem State.unnumbered_outlineLine :
    (s.outlineLine r).unnumbered = s.unnumbered.outlineLine r.unnumbered := by
  unfold State.outlineLine
  simp only [apply_ite State.unnumbered]
  refine if_congr Iff.rfl (if_congr Iff.rfl rfl rfl) (if_congr Iff.rfl ?blank (State.unnumbered_statement _ r))
  rw [State.unnumbered, Selection.unnumbered_blank]
  rfl

theorem State.unnumbered_apply : (s.apply r).unnumbered = s.unnumbered.apply r.unnumbered := by
  have hmode : s.unnumbered.mode = s.mode := rfl
  unfold State.apply
  simp only [hmode]
  cases s.mode with
  | outline =>
    exact State.unnumbered_outlineLine { s with inside := r.inside, depth := r.depth, mode := .outline } r
  | header indent isClass =>
    simp only [apply_ite State.unnumbered]
    refine if_congr Iff.rfl ?ends ?goesOn
    case ends =>
      rw [State.unnumbered_enterBlock, State.unnumbered, Selection.unnumbered_keep]
      rfl
    case goesOn =>
      rw [State.unnumbered, Selection.unnumbered_keep]
      rfl
  | continuing =>
    rw [State.unnumbered, Selection.unnumbered_keep]
    rfl
  | body indent marked =>
    simp only [apply_ite State.unnumbered]
    refine if_congr Iff.rfl (if_congr Iff.rfl ?mark rfl) (State.unnumbered_outlineLine _ r)
    rw [State.unnumbered, Selection.unnumbered_keep]
    rfl

/-- What a line does to the state does not depend on the numbers of lines. -/
theorem unnumbered_step? (lexis : Lexis) (line : Line) :
    (step? lexis s line).map State.unnumbered = step? lexis s.unnumbered line.unnumbered := by
  have hread : Reading.of? lexis s.inside s.depth line.unnumbered =
      (Reading.of? lexis s.inside s.depth line).map Reading.unnumbered := by
    simp only [Reading.of?, Option.map_map]
    rfl
  have happly : State.unnumbered ∘ s.apply = s.unnumbered.apply ∘ Reading.unnumbered :=
    funext fun r => s.unnumbered_apply r
  change _ = (Reading.of? lexis s.inside s.depth line.unnumbered).map s.unnumbered.apply
  rw [step?, hread, Option.map_map, Option.map_map, happly]

end

end Indented

end RepoScope.Outline
