import RepoScope.Proofs.Outline.Bodies

/-!
# What a mode says of the state

A header is open at outline level only, the depth inside an elided body is above its floor, and an import
that goes on has a brace or a parenthesis open (`State.IsSound`). Every step keeps this (`Step.isSound`), so
it holds before each line of a text (`isSound_of_readAt?`).

A line at the top of a text (`StartsAtTop`) is therefore never read inside an elided body. It is read at
outline level, as part of an import, or as part of an elided initializer (`State.isInValue`).
-/

namespace RepoScope.Outline.Braces

/-- What holds of every state that a run reaches. -/
structure State.IsSound (s : State) : Prop where
  header : s.mode ≠ .outline → s.header = none
  skip : ∀ floor, s.mode = .skip floor → floor < s.depth
  importing : ∀ floor parens, s.mode = .importing floor parens → floor < s.depth ∨ 0 < parens

namespace State.IsSound

variable {s : State} {floor indent : Nat} {parens : Int}

/-- At outline level, nothing is asked of a state. -/
theorem of_outline (hmode : s.mode = .outline) : s.IsSound where
  header h := absurd hmode h
  skip _ h := by rw [hmode] at h; cases h
  importing _ _ h := by rw [hmode] at h; cases h

/-- In an elided body, no header is open and the depth is above the floor. -/
theorem of_skip (hmode : s.mode = .skip floor) (hheader : s.header = none) (hfloor : floor < s.depth) :
    s.IsSound where
  header _ := hheader
  skip _ h := by rw [hmode] at h; cases h; exact hfloor
  importing _ _ h := by rw [hmode] at h; cases h

/-- In an elided initializer, no header is open. -/
theorem of_value (hmode : s.mode = .value floor parens indent) (hheader : s.header = none) :
    s.IsSound where
  header _ := hheader
  skip _ h := by rw [hmode] at h; cases h
  importing _ _ h := by rw [hmode] at h; cases h

/-- In an import that goes on, no header is open, but a brace or a parenthesis is. -/
theorem of_importing (hmode : s.mode = .importing floor parens) (hheader : s.header = none)
    (hopen : floor < s.depth ∨ 0 < parens) : s.IsSound where
  header _ := hheader
  skip _ h := by rw [hmode] at h; cases h
  importing _ _ h := by rw [hmode] at h; cases h; exact hopen

theorem initial : State.initial.IsSound := of_outline rfl

end State.IsSound

section

variable {s s' : State} {r : Reading}

/--
A step at outline level leads to a sound state: it goes on with a mode only if it leaves open what this mode is to
close.
-/
theorem LevelStep.isSound (h : LevelStep s r s') : s'.IsSound := by
  cases h with
  | importing _ _ _ himport =>
    have hheader := State.header_of_startsImport himport
    split
    · next hopens =>
      refine .of_importing rfl hheader ?_
      simpa [Reading.deepens, State.moved] using hopens
    · exact .of_outline rfl
  | elide _ _ _ =>
    split
    · exact .of_value rfl rfl
    · exact .of_outline rfl
  | body _ _ _ _ =>
    split
    · next hdeepens =>
      refine .of_skip rfl rfl ?_
      simpa [Reading.deepens, State.moved] using hdeepens
    · exact .of_outline rfl
  | _ => exact .of_outline rfl

/-- Every step keeps soundness. In a body and in an import the mode stays only as long as its condition holds. -/
theorem Step.isSound (h : Step s r s') (hs : s.IsSound) : s'.IsSound := by
  cases h with
  | level _ hstep => exact hstep.isSound
  | skip hmode =>
    have hheader : s.header = none := hs.header (by simp [hmode])
    split
    · exact .of_outline rfl
    · next hdepth => exact .of_skip rfl hheader (Nat.lt_of_not_le hdepth)
  | importing hmode =>
    have hheader : s.header = none := hs.header (by simp [hmode])
    split
    · exact .of_outline rfl
    · next hopen =>
      refine .of_importing rfl hheader ?_
      simp only [State.moved]
      omega
  | value hmode _ =>
    have hheader : s.header = none := hs.header (by simp [hmode])
    split
    · exact .of_outline rfl
    · exact .of_value rfl hheader

end

section

variable {lexis : Lexis} {text : List Char} {row : Nat} {s s' : State} {r : Reading}

/-- Every state that a run reaches is sound. -/
theorem isSound_of_run? {ls : List (List Char)} (h : run? lexis .initial 0 ls = some s) :
    s.IsSound := by
  rw [run?_eq_run?] at h
  refine Outliner.run?_invariant (P := fun _ t => t.IsSound) h .initial ?_
  intro i line t t' _ ht ht'
  obtain ⟨r, -, rfl⟩ := step?_eq_some.mp ht'
  exact (step_apply t r).isSound ht

/-- A line of a text is read in a sound state. -/
theorem isSound_of_readAt? (h : readAt? lexis text row = some (s, r)) : s.IsSound :=
  isSound_of_run? (readAt?_eq_some.mp h).1

/-- Where a line is read, the line above has been read, and led there. -/
theorem exists_readAt?_above (h : readAt? lexis text (row + 1) = some (s, r)) :
    ∃ t q, readAt? lexis text row = some (t, q) ∧ t.apply q = s := by
  obtain ⟨hrun, line, hline, -⟩ := readAt?_eq_some.mp h
  have hlength : row < (Text.lines text).length :=
    Nat.lt_of_succ_lt (List.getElem?_eq_some_iff.mp hline).1
  rw [run?_eq_run?, Outliner.run?_take_succ_eq_some hlength] at hrun
  obtain ⟨t, ht, hstep⟩ := hrun
  obtain ⟨q, hq, rfl⟩ := step?_eq_some.mp hstep
  rw [← run?_eq_run?] at ht
  exact ⟨t, q, readAt?_eq_some.mpr ⟨ht, _, List.getElem?_eq_getElem hlength, hq⟩, rfl⟩

/-- When a line is read, nothing of it has been selected. -/
theorem not_has_of_readAt? (hread : readAt? lexis text row = some (s, r)) {l : Line}
    (hrow : l.row = row) : ¬s.selection.Has l := by
  intro hhas
  have hlt := row_lt_of_run?_initial (readAt?_eq_some.mp hread).1 hhas
  rw [List.length_take] at hlt
  omega

/-- What an outline shows of a line is selected when the line is read, and not before. -/
theorem has_apply_of_mem_lines (hread : readAt? lexis text row = some (s, r))
    (hrun : run? lexis .initial 0 (Text.lines text) = some s') {l : Line}
    (hl : l ∈ s'.selection.lines) (hrow : l.row = row) :
    (s.apply r).selection.Has l ∧ ¬s.selection.Has l := by
  refine ⟨?_, not_has_of_readAt? hread hrow⟩
  rcases has_of_run? (run?_take_succ_of_readAt? hread hrun).2
    (.inl (Selection.mem_kept_of_mem_lines hl)) with hhas | hbehind
  · exact hhas
  · omega

/-- A line that is kept when it is read is a line of the outline, unless it is blank. -/
theorem mem_lines_of_mem_apply (hread : readAt? lexis text row = some (s, r))
    (hrun : run? lexis .initial 0 (Text.lines text) = some s') {l : Line}
    (hl : l ∈ (s.apply r).selection.kept) (hblank : Text.isBlankText l.text = false) :
    l ∈ s'.selection.lines :=
  Selection.mem_lines_of_mem_kept
    (mem_kept_of_run? (run?_take_succ_of_readAt? hread hrun).2 hl) hblank

end

/-! ## The top of a text

At depth zero no container is open, and by soundness no body is being left out either, since its floor would have
to be below zero. What is left is outline level, an import that still has parentheses open, and an initializer
whose parentheses do not come out even (`State.IsSound.mode_cases`).
-/

/-- Whether a line starts outside all braces, literals and comments. -/
structure StartsAtTop (lexis : Lexis) (text : List Char) (row : Nat) : Prop where
  height : Mark.height (marksFrom lexis .code 0 ((Text.lines text).take row)) = 0
  inside : insideAfter lexis .code ((Text.lines text).take row) = .code

/-- Whether a line goes on with an elided initializer. -/
def State.isInValue (s : State) (r : Reading) : Bool :=
  match s.mode with
  | .value floor parens indent => !r.isPastValue floor parens indent
  | _ => false

section

variable {lexis : Lexis} {text : List Char} {row : Nat} {s s' : State} {r : Reading}

/-- At the top of a text, the outliner reads code at depth zero. -/
theorem StartsAtTop.start_eq (h : StartsAtTop lexis text row)
    (hread : readAt? lexis text row = some (s, r)) : r.start = 0 ∧ r.startsInside = false := by
  obtain ⟨hrun, line, -, hr⟩ := readAt?_eq_some.mp hread
  have hdepth := depth_of_run?_initial hrun
  have hinside : s.inside = insideAfter lexis .code ((Text.lines text).take row) := run?_inside hrun
  rw [h.height] at hdepth
  rw [h.inside] at hinside
  obtain ⟨t, -, rfl⟩ := Reading.of?_eq_some hr
  exact ⟨by simpa using hdepth, by simp [hinside]⟩

/-- At the top of a text, a line is read at outline level, in an import or in an initializer. -/
theorem State.IsSound.mode_cases (hs : s.IsSound) (hdepth : s.depth = 0) :
    s.isLevel r = true ∨ s.isInValue r = true ∨
      ∃ floor parens, s.mode = .importing floor parens ∧ 0 < parens := by
  rw [State.isLevel, State.isInValue]
  cases hmode : s.mode with
  | outline => exact .inl rfl
  | skip floor =>
    have := hs.skip floor hmode
    omega
  | importing floor parens =>
    have := hs.importing floor parens hmode
    exact .inr (.inr ⟨floor, parens, rfl, by omega⟩)
  | value floor parens indent =>
    cases hpast : r.isPastValue floor parens indent with
    | true => exact .inl hpast
    | false => exact .inr (.inl (by simp [hpast]))

/-- A line that starts at depth zero closes no container. -/
theorem Reading.stillOpen_of_start_eq_zero (h : r.start = 0) (containers : List Nat) :
    r.stillOpen containers = containers := by
  simp [Reading.stillOpen, h]

/-- A line that goes on with an elided initializer only counts its parentheses. -/
theorem Step.selection_of_isInValue (h : Step s r s') (hvalue : s.isInValue r = true) :
    s'.selection = s.selection := by
  rw [State.isInValue] at hvalue
  split at hvalue
  · next hmode =>
    rw [h.eq_of_value hmode (by simpa using hvalue)]
    rfl
  · cases hvalue

end

end RepoScope.Outline.Braces
