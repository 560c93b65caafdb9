import Mathlib.Order.Nat
import RepoScope.Outline
import RepoScope.Proofs.Lines
import RepoScope.Proofs.Outline.Indented.Step
import RepoScope.Proofs.Outline.Outliner

/-!
# A run over the lines of an indented text

The outliner of an indented language obeys the law of outliners (`outliner`), since what it cuts off a
header stands behind a colon (`getElem?_of_headerColon?`). A text is outlined by a run over its lines that
ends where a text may end (`select?_eq_some`), and each of its lines is read in the state behind the lines
above it (`exists_readAt?`).
-/

namespace RepoScope.Outline.Indented

open Text

deriving instance DecidableEq for Reading

/-! ## Readings

A reading comes from the brackets of its line, and fails if one of them closes what is not open.
-/

/-- What a reading of a line consists of. -/
theorem Reading.of?_eq_some {lexis : Lexis} {inside : Inside} {start : Nat} {line : Line} {r : Reading}
    (h : Reading.of? lexis inside start line = some r) :
    ∃ depth, (scanLine lexis inside line.text).1.foldlM deepen? start = some depth ∧
      r = { line, trimmed := trim line.text, indent := indentWidth line.text,
            startsInside := inside != .code, inside := (scanLine lexis inside line.text).2, start,
            depth } := by
  rw [Reading.of?, Option.map_eq_some_iff] at h
  obtain ⟨depth, hdepth, rfl⟩ := h
  exact ⟨depth, hdepth, rfl⟩

section

variable {lexis : Lexis} {inside : Inside} {start : Nat} {line : Line} {r : Reading}

/-- A reading is one of its line. -/
theorem Reading.line_eq (h : Reading.of? lexis inside start line = some r) : r.line = line := by
  obtain ⟨depth, -, rfl⟩ := Reading.of?_eq_some h
  rfl

theorem Reading.trimmed_eq (h : Reading.of? lexis inside start line = some r) :
    r.trimmed = trim line.text := by
  obtain ⟨depth, -, rfl⟩ := Reading.of?_eq_some h
  rfl

/-- It starts at the depth it was given. -/
theorem Reading.start_eq (h : Reading.of? lexis inside start line = some r) : r.start = start := by
  obtain ⟨depth, -, rfl⟩ := Reading.of?_eq_some h
  rfl

/-- It ends inside of what the scanner does. -/
theorem Reading.inside_eq (h : Reading.of? lexis inside start line = some r) :
    r.inside = (scanLine lexis inside line.text).2 := by
  obtain ⟨depth, -, rfl⟩ := Reading.of?_eq_some h
  rfl

theorem Reading.startsInside_eq (h : Reading.of? lexis inside start line = some r) :
    r.startsInside = (inside != .code) := by
  obtain ⟨depth, -, rfl⟩ := Reading.of?_eq_some h
  rfl

end

/-- What the search finds is a colon. -/
theorem getElem?_of_headerColonFrom {column n : Nat} {s : ColonSearch} {cs : List Char}
    (h : headerColonFrom column s cs = some n) : column ≤ n ∧ cs[n - column]? = some ':' := by
  induction cs generalizing column s with
  | nil =>
    rw [headerColonFrom] at h
    cases h
  | cons c rest ih =>
    -- Whatever the state of the search, a colon that is found later is found in the rest.
    have hlater : ∀ {t : ColonSearch}, headerColonFrom (column + 1) t rest = some n →
        column ≤ n ∧ (c :: rest)[n - column]? = some ':' := by
      intro t ht
      obtain ⟨hle, hget⟩ := ih ht
      have hshift : n - column = n - (column + 1) + 1 := by omega
      refine ⟨by omega, ?_⟩
      rw [hshift, List.getElem?_cons_succ]
      exact hget
    rw [headerColonFrom] at h
    split at h
    · exact hlater h
    · split at h
      · exact hlater h
      · split at h
        · exact hlater h
        · split at h
          · exact hlater h
          · split at h
            · next hcolon =>
              cases h
              simp [hcolon.1]
            · split at h
              · cases h
              · exact hlater h

theorem getElem?_of_headerColon? {column : Nat} {trimmed : List Char}
    (h : headerColon? trimmed = some column) : trimmed[column]? = some ':' :=
  (getElem?_of_headerColonFrom h).2

/-! ## The outliner

A line is shown as it is, up to a colon with the elision mark behind it, as the mark alone, or as a blank line.
-/

/-- What an outline shows of a line is what is left of the line when something is taken away. -/
theorem Shows.abridges {lexis : Lexis} {inside : Inside} {start : Nat} {line l : Line} {r : Reading}
    (hr : Reading.of? lexis inside start line = some r) (h : Shows r l) : l.Abridges line := by
  have hline := Reading.line_eq hr
  have htrimmed := Reading.trimmed_eq hr
  refine ⟨hline ▸ h.row_eq, ?_⟩
  cases h with
  | whole => exact hline ▸ .whole
  | @cut column hcolon =>
    have htake : r.trimmed.take (column + 1) = r.trimmed.take column ++ [':'] := by
      rw [List.take_add_one, getElem?_of_headerColon? hcolon, Option.toList_some]
    have hfront : leadingBlanks line.text ++ r.trimmed.take column ++ [':'] <+: line.text := by
      rw [List.append_assoc, ← htake, htrimmed]
      exact ((List.prefix_append_right_inj _).mpr (List.take_prefix _ _)).trans
        (isPrefix_leadingBlanks_append_trim line.text)
    have hcut := Abridged.suite hfront
    rw [List.append_assoc _ _ [':'], ← htake] at hcut
    rw [cutAtColon, hline]
    exact hcut
  | mark => exact hline ▸ .mark
  | blank hnil =>
    refine .blank (List.all_eq_true.mpr (trim_eq_nil_iff.mp ?_))
    rw [← htrimmed, hnil]

/-- A step reads the line, and fails if that does. -/
theorem step?_eq_some {lexis : Lexis} {s s' : State} {line : Line} :
    step? lexis s line = some s' ↔
      ∃ r, Reading.of? lexis s.inside s.depth line = some r ∧ s.apply r = s' := by
  rw [step?, Option.map_eq_some_iff]

/-- The outliner of an indented language. -/
def outliner (lexis : Lexis) : Outliner State where
  step? := step? lexis
  selection := State.selection
  update h := by
    obtain ⟨r, hr, rfl⟩ := step?_eq_some.mp h
    exact (step_apply _ r).update.mono fun l hl => hl.abridges hr

/-! ## Runs

The run of the outliner over a text, and the state and the reading at each of its lines, as for the languages with
braces.
-/

section

variable {lexis : Lexis} {text : List Char} {s s' : State} {r : Reading} {row : Nat}

/-- The state after lines of which the first has the number `row`. -/
def run? (lexis : Lexis) : State → Nat → List (List Char) → Option State := (outliner lexis).run?

/-- A run over a line and those below it is a step and a run over these. -/
theorem run?_cons {line : List Char} {rest : List (List Char)} :
    run? lexis s row (line :: rest) = some s' ↔
      ∃ r, Reading.of? lexis s.inside s.depth ⟨row, line⟩ = some r ∧
        run? lexis (s.apply r) (row + 1) rest = some s' := by
  rw [run?, Outliner.run?_cons]
  constructor
  · rintro ⟨next, hstep, hrest⟩
    obtain ⟨r, hr, rfl⟩ := step?_eq_some.mp hstep
    exact ⟨r, hr, hrest⟩
  · rintro ⟨r, hr, hrest⟩
    exact ⟨s.apply r, step?_eq_some.mpr ⟨r, hr, rfl⟩, hrest⟩

/-- A text is outlined by a run that ends where the text may end. -/
theorem select?_eq_some {selection : Selection} :
    select? lexis text = some selection ↔
      ∃ s, run? lexis .initial 0 (lines text) = some s ∧ s.isClosed = true ∧
        s.selection = selection := by
  have hfold : (numbered text).foldlM (step? lexis) State.initial
      = run? lexis .initial 0 (lines text) := (outliner lexis).foldlM_numbered _ text
  rw [select?, hfold]
  cases run? lexis .initial 0 (lines text) with
  | none => simp
  | some s =>
    by_cases hclosed : s.isClosed = true <;> simp [hclosed]

/-- The state before the line with the number `row`, and the reading of this line. -/
def readAt? (lexis : Lexis) (text : List Char) (row : Nat) : Option (State × Reading) := do
  let s ← run? lexis .initial 0 ((lines text).take row)
  let line ← (lines text)[row]?
  let r ← Reading.of? lexis s.inside s.depth ⟨row, line⟩
  some (s, r)

/-- A line is read in the state that the lines above it lead to. -/
theorem readAt?_eq_some :
    readAt? lexis text row = some (s, r) ↔
      run? lexis .initial 0 ((lines text).take row) = some s ∧
      ∃ line, (lines text)[row]? = some line ∧
        Reading.of? lexis s.inside s.depth ⟨row, line⟩ = some r := by
  simp only [readAt?, Option.bind_eq_bind, Option.bind_eq_some_iff, Option.some.injEq,
    Prod.mk.injEq]
  constructor
  · rintro ⟨s', hs, line, hline, r', hr, rfl, rfl⟩
    exact ⟨hs, line, hline, hr⟩
  · rintro ⟨hs, line, hline, hr⟩
    exact ⟨s, hs, line, hline, r, hr, rfl, rfl⟩

/-- A line is read in one way. -/
theorem readAt?_inj {t : State} {q : Reading} (hread : readAt? lexis text row = some (s, r))
    (hread' : readAt? lexis text row = some (t, q)) : s = t ∧ r = q :=
  Prod.mk.inj (Option.some.inj (hread.symm.trans hread'))

/-- The reading is one of the line with this number. -/
theorem line_of_readAt? (hread : readAt? lexis text row = some (s, r)) :
    r.line.row = row ∧ (lines text)[row]? = some r.line.text := by
  obtain ⟨-, line, hline, hr⟩ := readAt?_eq_some.mp hread
  rw [Reading.line_eq hr]
  exact ⟨rfl, hline⟩

theorem trimmed_of_readAt? (hread : readAt? lexis text row = some (s, r)) :
    r.trimmed = trim r.line.text := by
  obtain ⟨-, line, -, hr⟩ := readAt?_eq_some.mp hread
  rw [Reading.trimmed_eq hr, Reading.line_eq hr]

theorem line_eq_of_readAt? {line : List Char} (hread : readAt? lexis text row = some (s, r))
    (hline : (lines text)[row]? = some line) : r.line = ⟨row, line⟩ := by
  obtain ⟨hrow, htext⟩ := line_of_readAt? hread
  rw [Line.mk.injEq]
  exact ⟨hrow, Option.some.inj (htext.symm.trans hline)⟩

/-- Each line of a text that is outlined is read in some state. -/
theorem exists_readAt? (hrun : run? lexis .initial 0 (lines text) = some s')
    (hrow : row < (lines text).length) : ∃ s r, readAt? lexis text row = some (s, r) := by
  obtain ⟨s, next, hs, hnext, -, -⟩ := Outliner.exists_run?_take hrun hrow
  obtain ⟨r, hr, -⟩ := step?_eq_some.mp hnext
  exact ⟨s, r, readAt?_eq_some.mpr ⟨hs, _, List.getElem?_eq_getElem hrow, hr⟩⟩

/-- Behind a line that was read, the run goes on with the state after it. -/
theorem run?_of_readAt? (hread : readAt? lexis text row = some (s, r))
    (hrun : run? lexis .initial 0 (lines text) = some s') :
    run? lexis .initial 0 ((lines text).take (row + 1)) = some (s.apply r) ∧
      run? lexis (s.apply r) (row + 1) ((lines text).drop (row + 1)) = some s' := by
  obtain ⟨hs, line, hline, hr⟩ := readAt?_eq_some.mp hread
  obtain ⟨hlength, rfl⟩ := List.getElem?_eq_some_iff.mp hline
  obtain ⟨t, next, ht, hnext, htake, hdrop⟩ := Outliner.exists_run?_take hrun hlength
  have hsame : s = t := Option.some.inj (hs.symm.trans ht)
  subst hsame
  obtain ⟨r', hr', rfl⟩ := step?_eq_some.mp hnext
  rw [hr, Option.some.injEq] at hr'
  subst hr'
  exact ⟨htake, hdrop⟩

/-- The step on a line leads to the state in which the next one is read. -/
theorem apply_of_readAt?_succ {t : State} {q : Reading} (hread : readAt? lexis text row = some (s, r))
    (hnext : readAt? lexis text (row + 1) = some (t, q)) : s.apply r = t := by
  obtain ⟨hs, line, hline, hr⟩ := readAt?_eq_some.mp hread
  obtain ⟨ht, -⟩ := readAt?_eq_some.mp hnext
  obtain ⟨hlength, rfl⟩ := List.getElem?_eq_some_iff.mp hline
  obtain ⟨s', hs', hstep⟩ := (Outliner.run?_take_succ_eq_some hlength).mp ht
  have hsame : s = s' := Option.some.inj (hs.symm.trans hs')
  subst hsame
  obtain ⟨r', hr', rfl⟩ := step?_eq_some.mp hstep
  rw [hr, Option.some.injEq] at hr'
  rw [hr']

/-- A line is read by the lines up to it. -/
theorem readAt?_congr {text' : List Char} {n : Nat} (h : (lines text').take n = (lines text).take n)
    (hrow : row < n) : readAt? lexis text' row = readAt? lexis text row := by
  have htake : (lines text').take row = (lines text).take row := by
    have := congrArg (List.take row) h
    rwa [List.take_take, List.take_take, Nat.min_eq_left (Nat.le_of_lt hrow)] at this
  have hget : (lines text')[row]? = (lines text)[row]? := by
    have := congrArg (·[row]?) h
    simpa [List.getElem?_take, hrow] using this
  rw [readAt?, readAt?, htake, hget]

/-- What an outline shows of a line is selected when the line is read, and not before. -/
theorem has_apply_of_mem_lines (hread : readAt? lexis text row = some (s, r))
    (hrun : run? lexis .initial 0 (lines text) = some s') {l : Line} (hl : l ∈ s'.selection.lines)
    (hrow : l.row = row) : (s.apply r).selection.Has l ∧ ¬s.selection.Has l :=
  Outliner.has_of_has_run? (O := outliner lexis) rfl (readAt?_eq_some.mp hread).1
    (run?_of_readAt? hread hrun).2 (.inl (Selection.mem_kept_of_mem_lines hl)) hrow

/-- What holds before a line and is kept by the lines from there on holds before each later line. -/
theorem readAt?_invariant {P : State → Prop} {first last : Nat} {t : State} {q : Reading}
    (hrun : run? lexis .initial 0 (lines text) = some s')
    (hfirst : readAt? lexis text first = some (s, r)) (hs : P s) (hle : first ≤ last)
    (hstep : ∀ j s r, first ≤ j → j < last → readAt? lexis text j = some (s, r) → P s → P (s.apply r))
    (hlast : readAt? lexis text last = some (t, q)) : P t := by
  induction last, hle using Nat.le_induction generalizing t q with
  | base =>
    exact (readAt?_inj hfirst hlast).1 ▸ hs
  | succ last hle ih =>
    obtain ⟨-, line, hline, -⟩ := readAt?_eq_some.mp hlast
    have hlength := (List.getElem?_eq_some_iff.mp hline).1
    obtain ⟨u, v, hread⟩ := exists_readAt? hrun (Nat.lt_of_succ_lt hlength)
    have hu : P u := ih (fun j s r hj hlt => hstep j s r hj (Nat.lt_succ_of_lt hlt)) hread
    rw [← apply_of_readAt?_succ hread hlast]
    exact hstep last u v hle (Nat.lt_succ_self last) hread hu

end

end RepoScope.Outline.Indented
