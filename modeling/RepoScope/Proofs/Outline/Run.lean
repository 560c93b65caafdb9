import RepoScope.Proofs.Outline.Outliner
import RepoScope.Proofs.Outline.Readings
import RepoScope.Proofs.Outline.Step

/-!
# A run over the lines of a text

The outliner goes through the lines of a text one by one (`run?`). What it remembers of them:

* the scanner's state and the brace depth are those of the brackets so far (`run?_inside`,
  `run?_depth`);
* a line of the selection has the number of the source line that it was made from (`has_of_run?`), so a
  source line that adds nothing when it is read does not come back later;
* what is kept stays kept (`mem_kept_of_run?`).
-/

namespace RepoScope.Outline

namespace Braces

/-! ## Steps

What a step does is split by mode (`Step`), and at outline level by the kind of line (`LevelStep`). The lemmas here
hold of every case: the scanner's state and the depth behind the line are those of its reading, and the selection
changes by an update with what can be shown of this line.
-/

variable {s s' : State} {r : Reading}

/-- A step at outline level takes over the depth of the reading, and what its end is inside of. -/
theorem LevelStep.inside (h : LevelStep s r s') : s'.inside = r.inside ∧ s'.depth = r.depth := by
  cases h <;> exact ⟨rfl, rfl⟩

/-- A step takes over the depth of the reading, and what its end is inside of. -/
theorem Step.inside (h : Step s r s') : s'.inside = r.inside ∧ s'.depth = r.depth := by
  cases h with
  | level _ hstep => exact hstep.inside
  | skip _ => exact ⟨rfl, rfl⟩
  | importing _ => exact ⟨rfl, rfl⟩
  | value _ _ => exact ⟨rfl, rfl⟩

/-- What an outline can show of a line. -/
inductive Shows (r : Reading) : Line → Prop
  | whole : Shows r r.line
  | cut {column : Nat} (h : r.openAt = some column) : Shows r (cutAtBrace r.line column)
  | mark : Shows r (elideLine r.line)
  | blank (h : r.trimmed = []) : Shows r ⟨r.line.row, []⟩

/-- What is shown of a line has its number. -/
theorem Shows.row_eq {l : Line} (h : Shows r l) : l.row = r.line.row := by
  cases h <;> rfl

/-- Of the line that is read, a step at outline level selects at most one line that an outline can show. -/
theorem LevelStep.update (h : LevelStep s r s') :
    Selection.Update (Shows r) s.selection s'.selection := by
  cases h with
  | blank hnil => exact .blank (.blank hnil)
  | literal _ _ _ _ =>
    simp only
    split
    · exact .keep .whole
    · exact .none
  | hold _ _ _ => exact .hold .whole
  | close _ _ _ => exact .keepAlone .whole
  | elide _ _ _ => exact .keep .mark
  | body _ _ hopen _ =>
    simp only
    split
    · exact .keep (.cut hopen)
    · exact .discard
  | other _ _ _ _ _ => exact .discard
  | importing _ _ _ _ => exact .keep .whole
  | container _ _ _ _ => exact .keep .whole
  | header _ _ _ _ => exact .keep .whole
  | member _ _ _ _ => exact .keep .whole
  | declaration _ _ _ _ _ => exact .keep .whole

/-- Of the line that is read, a step selects at most one line that an outline can show. -/
theorem Step.update (h : Step s r s') : Selection.Update (Shows r) s.selection s'.selection := by
  cases h with
  | level _ hstep => exact hstep.update
  | skip _ => exact .none
  | value _ _ => exact .none
  | importing _ => exact .keep .whole

/-- What is selected behind a step has been selected before, or is shown of the line. -/
theorem Step.has (h : Step s r s') {l : Line} (hl : s'.selection.Has l) :
    s.selection.Has l ∨ Shows r l :=
  h.update.has hl

/-- A line that waits has waited before, or the outliner is at outline level. -/
theorem Step.waiting (h : Step s r s') {l : Line} (hl : l ∈ s'.selection.waiting) :
    l ∈ s.selection.waiting ∨ s'.mode = .outline := by
  cases h with
  | skip _ => exact .inl hl
  | value _ _ => exact .inl hl
  | importing _ => exact absurd hl List.not_mem_nil
  | level _ hstep =>
    cases hstep with
    | elide _ _ _ => exact absurd hl List.not_mem_nil
    | importing _ _ _ _ => exact absurd hl List.not_mem_nil
    | body _ _ _ _ =>
      simp only at hl
      split at hl <;> exact absurd hl List.not_mem_nil
    | _ => exact .inr rfl

/-- A step reads the line, and fails if that does. -/
theorem step?_eq_some {lexis : Lexis} {line : Line} :
    step? lexis s line = some s' ↔
      ∃ r, Reading.of? lexis s.inside s.depth line = some r ∧ s.apply r = s' := by
  rw [step?, Option.map_eq_some_iff]

/-- What an outline shows of a line is what is left of the line when something is taken away. -/
theorem Shows.abridges {lexis : Lexis} {inside : Inside} {start : Nat} {line l : Line}
    (hr : Reading.of? lexis inside start line = some r) (h : Shows r l) : l.Abridges line := by
  have hline := Reading.line_eq hr
  refine ⟨hline ▸ h.row_eq, ?_⟩
  cases h with
  | whole => exact hline ▸ .whole
  | @cut column hopen =>
    have hbrace := Reading.getElem?_of_openAt hr hopen
    have htake : line.text.take (column + 1) = line.text.take column ++ ['{'] := by
      rw [List.take_add_one, hbrace, Option.toList_some]
    rw [cutAtBrace, hline, htake]
    exact .body (htake ▸ List.take_prefix _ _)
  | mark => exact hline ▸ .mark
  | blank hnil =>
    refine .blank (List.all_eq_true.mpr (Text.trim_eq_nil_iff.mp ?_))
    rw [← Reading.trimmed_eq hr, hnil]

/-- What is shown of a line that is not blank is not blank. -/
theorem Shows.isBlankText_eq_false {l : Line} (h : Shows r l) (hne : r.trimmed ≠ [])
    (htrimmed : r.trimmed = Text.trim r.line.text) : Text.isBlankText l.text = false := by
  cases h with
  | whole => exact Text.isBlankText_eq_false_iff.mpr (htrimmed ▸ hne)
  | cut _ =>
    exact Text.isBlankText_eq_false_of_mem (c := '.') (by simp [cutAtBrace, elision]) (by decide)
  | mark => exact Text.isBlankText_eq_false_of_mem (c := '.') (by simp [elideLine, elision]) (by decide)
  | blank hnil => exact absurd hnil hne

/-- The outliner of a brace language. -/
def outliner (lexis : Lexis) : Outliner State where
  step? := step? lexis
  selection := State.selection
  update h := by
    obtain ⟨r, hr, rfl⟩ := step?_eq_some.mp h
    exact (step_apply _ r).update.mono fun l hl => hl.abridges hr

/-! ## Runs

Both kinds of outliners are runs of a step function over numbered lines, and most of what follows is that of
`Outliner`. Stated for the outliner of a brace language, it can be used without naming the step function.
-/

/-- The state after lines of which the first has the number `row`. -/
def run? (lexis : Lexis) : State → Nat → List (List Char) → Option State
  | s, _, [] => some s
  | s, row, line :: rest => (step? lexis s ⟨row, line⟩).bind (run? lexis · (row + 1) rest)

variable {lexis : Lexis}

/-- A run is one of the outliner. -/
theorem run?_eq_run? (s : State) (row : Nat) (ls : List (List Char)) :
    run? lexis s row ls = (outliner lexis).run? s row ls := by
  induction ls generalizing s row with
  | nil => rfl
  | cons line rest ih =>
    rw [run?, Outliner.run?]
    exact congrArg (Option.bind _) (funext fun next => ih next (row + 1))

/-- A run over a line and those below it is a step and a run over these. -/
theorem run?_cons {s s' : State} {row : Nat} {line : List Char} {rest : List (List Char)} :
    run? lexis s row (line :: rest) = some s' ↔
      ∃ next, step? lexis s ⟨row, line⟩ = some next ∧ run? lexis next (row + 1) rest = some s' := by
  rw [run?, Option.bind_eq_some_iff]

/-- A run over lines is put together from runs over the first and the last of them. -/
theorem run?_append (s : State) (row : Nat) (xs ys : List (List Char)) :
    run? lexis s row (xs ++ ys) =
      (run? lexis s row xs).bind (run? lexis · (row + xs.length) ys) := by
  simp only [run?_eq_run?, Outliner.run?_append]

theorem run?_append_eq_some {s s' : State} {row : Nat} {xs ys : List (List Char)} :
    run? lexis s row (xs ++ ys) = some s' ↔
      ∃ next, run? lexis s row xs = some next ∧ run? lexis next (row + xs.length) ys = some s' := by
  rw [run?_append, Option.bind_eq_some_iff]

/-- Going through the numbered lines of a text is a run from its first line. -/
theorem foldlM_numbered (s : State) (text : List Char) :
    (numbered text).foldlM (step? lexis) s = run? lexis s 0 (Text.lines text) := by
  rw [run?_eq_run?]
  exact (outliner lexis).foldlM_numbered s text

/-- A text is outlined by a run that ends where the text may end. -/
theorem select?_eq_some {text : List Char} {selection : Selection} :
    select? lexis text = some selection ↔
      ∃ s, run? lexis .initial 0 (Text.lines text) = some s ∧ s.isClosed = true ∧
        s.selection = selection := by
  rw [select?, ← foldlM_numbered]
  cases (numbered text).foldlM (step? lexis) State.initial with
  | none => simp
  | some s =>
    by_cases hclosed : s.isClosed = true <;> simp [hclosed]

/-- Behind a run, the scanner is inside of what the lines end inside of. -/
theorem run?_inside {s s' : State} {row : Nat} {ls : List (List Char)}
    (h : run? lexis s row ls = some s') : s'.inside = insideAfter lexis s.inside ls := by
  induction ls generalizing s row with
  | nil =>
    cases h
    rfl
  | cons line rest ih =>
    obtain ⟨next, hstep, hrest⟩ := run?_cons.mp h
    obtain ⟨r, hr, rfl⟩ := step?_eq_some.mp hstep
    rw [ih hrest, (step_apply s r).inside.1, Reading.inside_eq hr]
    rfl

/-- The depth after some lines is that before them and the height of their brackets. -/
theorem run?_depth {s s' : State} {row : Nat} {ls : List (List Char)}
    (h : run? lexis s row ls = some s') :
    (s'.depth : Int) = s.depth + Mark.height (marksFrom lexis s.inside row ls) := by
  induction ls generalizing s row with
  | nil =>
    cases h
    simp [marksFrom]
  | cons line rest ih =>
    obtain ⟨next, hstep, hrest⟩ := run?_cons.mp h
    obtain ⟨r, hr, rfl⟩ := step?_eq_some.mp hstep
    obtain ⟨hinside, hdepth⟩ := (step_apply s r).inside
    have hline := Reading.depth_eq hr
    have hafter : r.inside = (scanLine lexis s.inside line).2 := Reading.inside_eq hr
    rw [ih hrest, hdepth, hline, hinside, hafter, marksFrom, Mark.height_append, Mark.height_map,
      Int.add_assoc]

/-- A run adds lines with the numbers of the lines that are read, and no others. -/
theorem has_of_run? {s s' : State} {row : Nat} {ls : List (List Char)}
    (h : run? lexis s row ls = some s') {l : Line} (hl : s'.selection.Has l) :
    s.selection.Has l ∨ row ≤ l.row ∧ l.row < row + ls.length := by
  rw [run?_eq_run?] at h
  refine (Outliner.has_of_run? h hl).imp_right ?_
  rintro ⟨i, line, hline, hrow, -⟩
  have := (List.getElem?_eq_some_iff.mp hline).1
  simp only at hrow
  omega

/-- What is kept stays kept. -/
theorem mem_kept_of_run? {s s' : State} {row : Nat} {ls : List (List Char)}
    (h : run? lexis s row ls = some s') {l : Line} (hl : l ∈ s.selection.kept) :
    l ∈ s'.selection.kept := by
  rw [run?_eq_run?] at h
  exact Outliner.mem_kept_of_run? h hl

/-- Before a line is read, the selection holds none with its number or a later one. -/
theorem row_lt_of_run?_initial {s : State} {ls : List (List Char)}
    (h : run? lexis .initial 0 ls = some s) {l : Line} (hl : s.selection.Has l) :
    l.row < ls.length := by
  rcases has_of_run? h hl with hinitial | hrow
  · exact hinitial.elim (fun hk => absurd hk List.not_mem_nil) fun hw => absurd hw List.not_mem_nil
  · omega

/-! ## One line of a text

To say what becomes of one line of a text, the run over the text is cut in front of it: `readAt?` gives the state
that the lines above lead to, together with the reading of the line in that state. A run over the whole text gives
one for each line.
-/

/-- The state before the line with the number `row`, and the reading of this line. -/
def readAt? (lexis : Lexis) (text : List Char) (row : Nat) : Option (State × Reading) := do
  let s ← run? lexis .initial 0 ((Text.lines text).take row)
  let line ← (Text.lines text)[row]?
  let r ← Reading.of? lexis s.inside s.depth ⟨row, line⟩
  some (s, r)

/-- A line is read in the state that the lines above it lead to. -/
theorem readAt?_eq_some {text : List Char} {row : Nat} {s : State} {r : Reading} :
    readAt? lexis text row = some (s, r) ↔
      run? lexis .initial 0 ((Text.lines text).take row) = some s ∧
      ∃ line, (Text.lines text)[row]? = some line ∧
        Reading.of? lexis s.inside s.depth ⟨row, line⟩ = some r := by
  simp only [readAt?, Option.bind_eq_bind, Option.bind_eq_some_iff, Option.some.injEq,
    Prod.mk.injEq]
  constructor
  · rintro ⟨s', hs, line, hline, r', hr, rfl, rfl⟩
    exact ⟨hs, line, hline, hr⟩
  · rintro ⟨hs, line, hline, hr⟩
    exact ⟨s, hs, line, hline, r, hr, rfl, rfl⟩

/-- The reading starts at the depth of the state. -/
theorem start_of_readAt? {text : List Char} {row : Nat} {s : State} {r : Reading}
    (h : readAt? lexis text row = some (s, r)) : r.start = s.depth := by
  obtain ⟨-, line, -, hr⟩ := readAt?_eq_some.mp h
  exact Reading.start_eq hr

theorem trimmed_of_readAt? {text : List Char} {row : Nat} {s : State} {r : Reading}
    (h : readAt? lexis text row = some (s, r)) : r.trimmed = Text.trim r.line.text := by
  obtain ⟨-, line, -, hr⟩ := readAt?_eq_some.mp h
  rw [Reading.trimmed_eq hr, Reading.line_eq hr]

theorem line_eq_of_readAt? {text line : List Char} {row : Nat} {s : State} {r : Reading}
    (h : readAt? lexis text row = some (s, r)) (hline : (Text.lines text)[row]? = some line) :
    r.line = ⟨row, line⟩ := by
  obtain ⟨-, line', hline', hr⟩ := readAt?_eq_some.mp h
  rw [Reading.line_eq hr, Option.some.inj (hline'.symm.trans hline)]

/-- A run over a text passes through the state before each of its lines. -/
theorem exists_run?_take {s' : State} {ls : List (List Char)} (h : run? lexis .initial 0 ls = some s')
    {row : Nat} (hrow : row ≤ ls.length) :
    ∃ s, run? lexis .initial 0 (ls.take row) = some s ∧ run? lexis s row (ls.drop row) = some s' := by
  rw [← List.take_append_drop row ls] at h
  obtain ⟨s, hs, hrest⟩ := run?_append_eq_some.mp h
  rw [List.length_take, Nat.min_eq_left hrow, Nat.zero_add] at hrest
  exact ⟨s, hs, hrest⟩

/-- A run over a text that reaches a line reads it and goes on behind it. -/
theorem exists_run?_succ {s : State} {ls : List (List Char)} {row : Nat} (hrow : row < ls.length)
    (hs : run? lexis .initial 0 (ls.take row) = some s) {s' : State}
    (h : run? lexis s row (ls.drop row) = some s') :
    ∃ r, Reading.of? lexis s.inside s.depth ⟨row, ls[row]⟩ = some r ∧
      run? lexis .initial 0 (ls.take (row + 1)) = some (s.apply r) ∧
      run? lexis (s.apply r) (row + 1) (ls.drop (row + 1)) = some s' := by
  rw [List.drop_eq_getElem_cons hrow] at h
  obtain ⟨next, hstep, hrest⟩ := run?_cons.mp h
  obtain ⟨r, hr, rfl⟩ := step?_eq_some.mp hstep
  refine ⟨r, hr, ?_, hrest⟩
  rw [run?_eq_run?] at hs ⊢
  exact (Outliner.run?_take_succ_eq_some hrow).mpr ⟨s, hs, hstep⟩

/-- From the start of a text, the depth is the height of the brackets so far. -/
theorem depth_of_run?_initial {s : State} {ls : List (List Char)}
    (h : run? lexis .initial 0 ls = some s) :
    (s.depth : Int) = Mark.height (marksFrom lexis .code 0 ls) := by
  have hdepth := run?_depth h
  simpa [State.initial] using hdepth

end Braces

end RepoScope.Outline
