import RepoScope.Proofs.Outline.Abridgement
import RepoScope.Proofs.Outline.Groups
import RepoScope.Proofs.Outline.Modes
import RepoScope.Proofs.Outline.Words

/-!
# Imports of languages with braces

An import at the top of a text that is no part of an initializer is read at outline level, or as one more
line of an import that goes on. At outline level the outliner looks for imports only where no header above
may go on. So the line itself is shown exactly as `State.ShowsImport` says, and with the lines up to the one
that closes it if it is taken for an import (`keepsImports_of_select?`).

The second half is an induction over the lines of the import. The outliner counts braces from the top of the
text and parentheses from the line that opened the import, and `State.HasOpen` compares both counts with the
brackets of the lines since the import began.
-/

namespace RepoScope.Outline.Braces

open Text

/-- Whether brackets leave neither a brace nor a parenthesis open. -/
def Closes (ms : List Mark) : Prop := Mark.height ms ≤ 0 ∧ Mark.parenHeight ms ≤ 0

instance : DecidablePred Closes := fun _ => inferInstanceAs (Decidable (_ ∧ _))

/-- Whether a line brings names in from elsewhere, at the top of the text. -/
structure ImportsAt (lexis : Lexis) (text : List Char) (row : Nat) (line : List Char) : Prop where
  getElem? : (lines text)[row]? = some line
  top : StartsAtTop lexis text row
  imports : importLine.isIn (trim line) = true

/-! ## Imports of several lines

The invariant is `State.HasOpen`: after some lines of an import, the depth of the outliner is the height of the
braces in these lines, and the parentheses that it counts are at least as many as are open in them. A line either
keeps the invariant or closes everything (`Step.hasOpen`), and an outline is made only of a run that does not end
in an import, so one of the lines does close it.
-/

section

variable {lexis : Lexis} {text line : List Char} {row : Nat} {s s' : State} {r : Reading}

/-- What is open behind some lines of an import, of which the first has the number `row`. -/
def State.HasOpen (s : State) (lexis : Lexis) (row : Nat) (done : List (List Char)) : Prop :=
  s.inside = insideAfter lexis .code done ∧
    (s.depth : Int) = Mark.height (marksFrom lexis .code row done) ∧
    ∃ parens, s.mode = .importing 0 parens ∧ Mark.parenHeight (marksFrom lexis .code row done) ≤ parens

/-- What is open behind one more line, where `done` stands above it and starts at depth `floor` in code. -/
theorem Reading.open_of_done {done : List (List Char)} {inside : Inside} {start : Nat} {floor : Int}
    (hr : Reading.of? lexis inside start ⟨row + done.length, line⟩ = some r)
    (hinside : inside = insideAfter lexis .code done)
    (hstart : (start : Int) = floor + Mark.height (marksFrom lexis .code row done)) :
    r.inside = insideAfter lexis .code (done ++ [line]) ∧
      (r.depth : Int) = floor + Mark.height (marksFrom lexis .code row (done ++ [line])) ∧
      Mark.parenHeight (marksFrom lexis .code row (done ++ [line])) =
        Mark.parenHeight (marksFrom lexis .code row done) + r.parens := by
  have hdepth := Reading.depth_eq hr
  have hparens := Reading.parens_eq hr
  have hmarks : marksFrom lexis .code row (done ++ [line]) = marksFrom lexis .code row done ++
      (scanLine lexis (insideAfter lexis .code done) line).1.map (Mark.mk · (row + done.length)) := by
    rw [marksFrom_append, marksFrom, marksFrom, List.append_nil]
  rw [hinside] at hdepth hparens
  refine ⟨?_, ?_, ?_⟩
  · rw [Reading.inside_eq hr, insideAfter, List.foldl_append, hinside]
    rfl
  · rw [hmarks, Mark.height_append, Mark.height_map, ← Int.add_assoc, ← hstart]
    exact hdepth
  · rw [hmarks, Mark.parenHeight_append, Mark.parenHeight_map, hparens]

/-- A line of an import that goes on is kept, and either the import goes on below it or all is closed. -/
theorem Step.hasOpen {done : List (List Char)} (h : Step s r s') (hs : s.HasOpen lexis row done)
    (hr : Reading.of? lexis s.inside s.depth ⟨row + done.length, line⟩ = some r) :
    ⟨row + done.length, line⟩ ∈ s'.selection.kept ∧
      (s'.HasOpen lexis row (done ++ [line]) ∨ Closes (marksFrom lexis .code row (done ++ [line]))) := by
  obtain ⟨hinside, hdepth, parens, hmode, hparens⟩ := hs
  have hnext := h.eq_of_importing hmode
  obtain ⟨hinside', hdepth'⟩ := h.inside
  obtain ⟨hline, hheight, hparen⟩ := Reading.open_of_done hr hinside (by rw [hdepth, Int.zero_add])
  rw [Int.zero_add] at hheight
  refine ⟨?_, ?_⟩
  · rw [hnext, Reading.line_eq hr]
    exact List.mem_cons_self
  · by_cases hend : r.depth ≤ 0 ∧ parens + r.parens ≤ 0
    · exact .inr ⟨by omega, by omega⟩
    · refine .inl ⟨hinside'.trans hline, by rw [hdepth', hheight], parens + r.parens, ?_, by omega⟩
      rw [hnext]
      exact if_neg hend

/-! ## The line

Here the import is read as the first line of its own. Of the steps at outline level, only those remain that a line
in code whose text starts like an import can make: it is taken for an import, or a header above takes it in, as a
declaration or as one of its lines. In which of these cases the line is kept whole is what `State.ShowsImport`
says.
-/

/-- What is known of the reading of an import. -/
structure Reading.Imports (r : Reading) : Prop where
  start_eq : r.start = 0
  startsInside : r.startsInside = false
  imports : importLine.isIn r.trimmed = true

/-- An import at the top of a text is read in code, at depth zero. -/
theorem ImportsAt.reading (h : ImportsAt lexis text row line)
    (hread : readAt? lexis text row = some (s, r)) : r.Imports := by
  obtain ⟨hstart, hinside⟩ := h.top.start_eq hread
  refine ⟨hstart, hinside, ?_⟩
  rw [trimmed_of_readAt? hread, line_eq_of_readAt? hread h.getElem?]
  exact h.imports

namespace Reading.Imports

/-- Its text is not blank. -/
theorem ne_nil (h : r.Imports) : r.trimmed ≠ [] := ne_nil_of_importLine h.imports

/-- It is read as code: no import looks like an annotation. -/
theorem isCode (h : r.Imports) : r.isCode = true := by
  rw [Reading.isCode, h.startsInside, isAnnotation_of_importLine h.imports]
  rfl

/-- It is taken for an import if no header stands above it. -/
theorem startsImport (h : r.Imports) : s.startsImport r = s.header.isNone := by
  rw [State.startsImport, h.imports, Bool.and_true]

end Reading.Imports

/-- Whether an import that is no part of an initializer is shown whole. -/
def State.ShowsImport (s : State) (r : Reading) : Prop :=
  s.header = none ∨
    s.isDeclared r = true ∧ ∀ column, r.openAt = some column → s.opensContainer r = false →
      cutAtBrace r.line column = r.line

/-- A line that starts an import is kept, and the import goes on if the line leaves something open. -/
theorem LevelStep.eq_of_startsImport (h : LevelStep s r s') (hcode : r.isCode = true)
    (hstill : r.stillOpen s.containers = s.containers) (himport : s.startsImport r = true) :
    s' = { s.moved r with
      selection := s.selection.keep r.line
      mode := if r.deepens || r.parens > 0 then .importing r.start r.parens else .outline } := by
  have hstarts : s.startsImport r ≠ false := by simp [himport]
  rw [State.startsImport, Bool.and_eq_true] at himport
  have hne := ne_nil_of_importLine himport.2
  cases h with
  | blank hnil => exact absurd hnil hne
  | literal _ hin _ _ => simp [Reading.isCode, hin] at hcode
  | hold _ hcode' _ => exact absurd hcode (by simp [hcode'])
  | close _ _ hclosed => exact absurd hstill hclosed
  | importing _ _ _ _ => rfl
  | elide hdecl _ _ => exact absurd hdecl.startsImport hstarts
  | container hdecl _ _ _ => exact absurd hdecl.startsImport hstarts
  | body hdecl _ _ _ => exact absurd hdecl.startsImport hstarts
  | header hdecl _ _ _ => exact absurd hdecl.startsImport hstarts
  | member hdecl _ _ _ => exact absurd hdecl.startsImport hstarts
  | declaration hdecl _ _ _ _ => exact absurd hdecl.startsImport hstarts
  | other hdecl _ _ _ _ => exact absurd hdecl.startsImport hstarts

/-- At the top of a text nothing is closed by the line, so it starts an import where no header stands above it. -/
theorem LevelStep.eq_of_imports (h : LevelStep s r s') (hr : r.Imports) (hheader : s.header = none) :
    s' = { s.moved r with
      selection := s.selection.keep r.line
      mode := if r.deepens || r.parens > 0 then .importing r.start r.parens else .outline } :=
  h.eq_of_startsImport hr.isCode (Reading.stillOpen_of_start_eq_zero hr.start_eq _)
    (by rw [hr.startsImport, hheader]; rfl)

/-- An import at outline level is kept whole if and only if the header above lets it. -/
theorem LevelStep.showsImport (h : LevelStep s r s') (hr : r.Imports)
    (helide : s.elidesValue r = false) (hnew : ¬s.selection.Has r.line) :
    (s.ShowsImport r → r.line ∈ s'.selection.kept) ∧ (s'.selection.Has r.line → s.ShowsImport r) := by
  by_cases hheader : s.header = none
  · rw [h.eq_of_imports hr hheader]
    exact ⟨fun _ => List.mem_cons_self, fun _ => .inl hheader⟩
  -- Behind a header the import is read like any other line, and it depends on the step what is kept of it.
  · have hwhole : r.line ∈ (s.selection.keep r.line).kept := List.mem_cons_self
    have hshows : s.ShowsImport r ↔ s.isDeclared r = true ∧ ∀ column, r.openAt = some column →
        s.opensContainer r = false → cutAtBrace r.line column = r.line := or_iff_right hheader
    rw [hshows]
    cases h with
    | blank hnil => exact absurd hnil hr.ne_nil
    | literal _ hin _ _ => exact absurd hr.startsInside (by simp [hin])
    | hold _ hcode _ => exact absurd hr.isCode (by simp [hcode])
    | close _ _ hclosed => exact absurd (Reading.stillOpen_of_start_eq_zero hr.start_eq _) hclosed
    | importing _ _ _ himport =>
      rw [hr.startsImport, Option.isNone_iff_eq_none] at himport
      exact absurd himport hheader
    | elide _ _ helide' => exact absurd helide (by simp [helide'])
    | container _ _ _ hcontainer =>
      refine ⟨fun _ => hwhole, fun _ => ⟨State.isDeclared_of_opensContainer hcontainer, ?_⟩⟩
      intro column _ hnot
      rw [hcontainer] at hnot
      cases hnot
    | @body column _ _ hopen hcontainer =>
      simp only
      -- A body may open on the line, which is then cut at its brace: all of the line is kept only if there is
      -- nothing to cut off.
      split
      · next hdeclared =>
        constructor
        · rintro ⟨-, hcut⟩
          rw [hcut column hopen hcontainer]
          exact hwhole
        · intro hhas
          have hcut : r.line = cutAtBrace r.line column :=
            (Selection.has_keep hhas).resolve_right hnew
          refine ⟨hdeclared, fun column' hopen' _ => ?_⟩
          rw [hopen, Option.some.injEq] at hopen'
          rw [← hopen', ← hcut]
      · next hdeclared =>
        exact ⟨fun hshown => absurd hshown.1 hdeclared,
          fun hhas => absurd (Selection.has_discard hhas) hnew⟩
    | header _ _ hopen hopenHeader =>
      refine ⟨fun _ => hwhole, fun _ => ⟨by simp [State.isDeclared, hopenHeader], ?_⟩⟩
      intro column hopen'
      rw [hopen] at hopen'
      cases hopen'
    | member _ _ _ hstart => exact absurd hr.start_eq (by omega)
    | declaration _ hopen _ _ hdeclared =>
      refine ⟨fun _ => hwhole, fun _ => ⟨by simp [State.isDeclared, hdeclared], ?_⟩⟩
      intro column hopen'
      rw [hopen] at hopen'
      cases hopen'
    | other _ _ hopenHeader hstart hdeclared =>
      have hnot : s.isDeclared r ≠ true := by
        simp [State.isDeclared, hopenHeader, hstart, hdeclared]
      exact ⟨fun hshown => absurd hshown.1 hnot,
        fun hhas => absurd (Selection.has_discard hhas) hnew⟩

/-! ## The lines up to the one that closes the import

An import may be met at outline level or as one more line of an import that has not been closed. To treat both
alike, the first is turned into the second: the step on the first line of an import is the step that it would be in
an import with nothing open (`State.OpensImport.apply_eq`). From there the run over the lines below is that of
`Outliner.exists_closed_of_run?`, with `State.HasOpen` for the invariant.
-/

/-- Whether an import is taken for one, and kept up to the line that closes it. -/
def State.takesImport (s : State) : Bool :=
  s.header.isNone &&
  match s.mode with
  | .importing floor _ => floor == 0
  | _ => true

/-- Whether the outliner takes a line for the first of an import. -/
structure State.OpensImport (s : State) (r : Reading) : Prop where
  isLevel : s.isLevel r = true
  startsInside : r.startsInside = false
  stillOpen : r.stillOpen s.containers = s.containers
  startsImport : s.startsImport r = true

/-- The first line of an import is read like one more line of an import that has nothing open. -/
theorem State.OpensImport.apply_eq (h : s.OpensImport r) :
    s.apply r = State.apply { s with mode := .importing r.start 0 } r := by
  have himport : importLine.isIn r.trimmed = true := by
    have hstarts := h.startsImport
    rw [State.startsImport, Bool.and_eq_true] at hstarts
    exact hstarts.2
  have hcode : r.isCode = true := by
    rw [Reading.isCode, h.startsInside, isAnnotation_of_importLine himport]
    rfl
  rw [((step_apply s r).levelStep h.isLevel).eq_of_startsImport hcode h.stillOpen h.startsImport,
    (step_apply { s with mode := .importing r.start 0 } r).eq_of_importing rfl]
  by_cases hend : r.depth ≤ r.start ∧ r.parens ≤ 0
  · have hcloses : ¬(r.start < r.depth ∨ 0 < r.parens) := by omega
    simp [Reading.deepens, hend, hcloses, State.moved]
  · have hopens : r.start < r.depth ∨ 0 < r.parens := by omega
    simp [Reading.deepens, hend, hopens, State.moved]

/-- So an import at the top of a text is read as one more line of an import with nothing open. -/
theorem State.apply_eq_of_imports (hr : r.Imports) (hheader : s.header = none)
    (hlevel : s.isLevel r = true) : s.apply r = State.apply { s with mode := .importing 0 0 } r := by
  have hopens : s.OpensImport r := ⟨hlevel, hr.startsInside,
    Reading.stillOpen_of_start_eq_zero hr.start_eq _, by rw [hr.startsImport, hheader]; rfl⟩
  rw [hopens.apply_eq, hr.start_eq]

/--
In a run that may end, an import that is taken for one is followed by a line that closes what it opens, and all
lines up to that one are kept.
-/
theorem exists_close_of_imports (hread : readAt? lexis text row = some (s, r))
    (hrun : run? lexis .initial 0 (lines text) = some s') (hclosed : s'.isClosed = true)
    (hr : r.Imports) (hvalue : s.isInValue r = false) (htakes : s.takesImport = true) :
    ∃ n, n < ((lines text).drop row).length ∧
      Closes (marksFrom lexis .code row (((lines text).drop row).take (n + 1))) ∧
      ∀ m ≤ n, ∀ line, ((lines text).drop row)[m]? = some line →
        ⟨row + m, line⟩ ∈ s'.selection.kept := by
  rw [State.takesImport, Bool.and_eq_true, Option.isNone_iff_eq_none] at htakes
  obtain ⟨hheader, hfloor⟩ := htakes
  have hs := isSound_of_readAt? hread
  have hdepth : s.depth = 0 := by rw [← start_of_readAt? hread, hr.start_eq]
  obtain ⟨hbefore, line, hline, hof⟩ := readAt?_eq_some.mp hread
  have hinside : s.inside = .code := by
    have hcode := hr.startsInside
    obtain ⟨_, -, rfl⟩ := Reading.of?_eq_some hof
    simpa using hcode
  obtain ⟨hlength, hlineEq⟩ := List.getElem?_eq_some_iff.mp hline
  -- In either mode, the import is read as one that goes on, with at least no parentheses closed.
  obtain ⟨t, hopen, hrest⟩ : ∃ t, t.HasOpen lexis row [] ∧
      run? lexis t row ((lines text).drop row) = some s' := by
    have hdrop := (run?_take_succ_of_readAt? hread hrun).2
    rw [List.drop_eq_getElem_cons hlength, hlineEq]
    rcases hs.mode_cases hdepth with hlevel | hin | ⟨floor, parens, hmode, hparens⟩
    · refine ⟨{ s with mode := .importing 0 0 }, ⟨hinside, by simp [hdepth, marksFrom], 0, rfl, ?_⟩, ?_⟩
      · simp [marksFrom]
      · refine run?_cons.mpr ⟨_, step?_eq_some.mpr ⟨r, hof, rfl⟩, ?_⟩
        rw [← State.apply_eq_of_imports hr hheader hlevel]
        exact hdrop
    · rw [hvalue] at hin
      cases hin
    · rw [hmode, beq_iff_eq] at hfloor
      subst hfloor
      refine ⟨s, ⟨hinside, by simp [hdepth, marksFrom], parens, hmode, ?_⟩, ?_⟩
      · simp only [marksFrom, Mark.parenHeight_nil]
        omega
      · exact run?_cons.mpr ⟨_, step?_eq_some.mpr ⟨r, hof, rfl⟩, hdrop⟩
  have hend : ¬s'.HasOpen lexis row ([] ++ (lines text).drop row) := by
    rintro ⟨-, -, parens, hmode, -⟩
    rw [State.isClosed, hmode, Bool.and_false] at hclosed
    cases hclosed
  have hrest : (outliner lexis).run? t (row + ([] : List (List Char)).length) ((lines text).drop row) =
      some s' := by rwa [run?_eq_run?] at hrest
  have hclose := Outliner.exists_closed_of_run? (P := fun done t => t.HasOpen lexis row done)
    (C := fun done => Closes (marksFrom lexis .code row done)) hrest hopen
    (fun m line hm => absurd hm (by simp)) hend fun done line t t' ht ht' => by
      obtain ⟨q, hq, rfl⟩ := step?_eq_some.mp ht'
      exact (step_apply t q).hasOpen ht hq
  rwa [List.nil_append] at hclose

/-! ## The outline -/

/--
The same for any step on an import at the top of a text: an import that goes on keeps the line too, and its header
is none.
-/
theorem Step.showsImport (h : Step s r s') (hs : s.IsSound) (hdepth : s.depth = 0) (hr : r.Imports)
    (hvalue : s.isInValue r = false) (helide : s.elidesValue r = false)
    (hnew : ¬s.selection.Has r.line) :
    (s.ShowsImport r → r.line ∈ s'.selection.kept) ∧ (s'.selection.Has r.line → s.ShowsImport r) := by
  rcases hs.mode_cases hdepth with hlevel | hin | ⟨floor, parens, hmode, -⟩
  · exact (h.levelStep hlevel).showsImport hr helide hnew
  · rw [hvalue] at hin
    cases hin
  · rw [h.eq_of_importing hmode]
    exact ⟨fun _ => List.mem_cons_self, fun _ => .inl (hs.header (by simp [hmode]))⟩

/--
Whether an outline shows each import at the top of a text that is no part of an initializer: the line itself
as `State.ShowsImport` says, and an import that is taken for one up to the line that closes it.
-/
def KeepsImports (lexis : Lexis) (text : List Char) (selection : Selection) : Prop :=
  ∀ row line, ImportsAt lexis text row line →
    ∃ s r, readAt? lexis text row = some (s, r) ∧ r.line = ⟨row, line⟩ ∧
      (s.isInValue r = false → s.elidesValue r = false →
        (⟨row, line⟩ ∈ selection.lines ↔ s.ShowsImport r) ∧
        (s.takesImport = true → selection.ShowsGroup Closes lexis text row))

/--
The outline of a text with braces shows its imports as `KeepsImports` says. A line is among the lines of the
outline if and only if the step on it has selected it, since no later step selects a line of an earlier row or
drops one that is kept.
-/
theorem keepsImports_of_select? {selection : Selection} (h : select? lexis text = some selection) :
    KeepsImports lexis text selection := by
  obtain ⟨final, hrun, hclosed, rfl⟩ := select?_eq_some.mp h
  intro row line himports
  obtain ⟨hlength, -⟩ := List.getElem?_eq_some_iff.mp himports.getElem?
  obtain ⟨s, r, hread⟩ := exists_readAt? hrun row hlength
  have hline := line_eq_of_readAt? hread himports.getElem?
  have hr := himports.reading hread
  have hs := isSound_of_readAt? hread
  have hdepth : s.depth = 0 := by rw [← start_of_readAt? hread, hr.start_eq]
  have hblank : isBlankText line = false :=
    isBlankText_eq_false_iff.mpr (ne_nil_of_importLine himports.imports)
  refine ⟨s, r, hread, hline, fun hvalue helide => ⟨?_, fun htakes => ?_⟩⟩
  -- The line is new to the selection, so if it is there in the end it was taken when it was read.
  · have hnew : ¬s.selection.Has r.line := not_has_of_readAt? hread (by rw [hline])
    obtain ⟨hshows, hshown⟩ :=
      (step_apply s r).showsImport hs hdepth hr hvalue helide hnew
    rw [hline] at hshows hshown
    constructor
    · intro hmem
      exact hshown (has_apply_of_mem_lines hread hrun hmem rfl).1
    · intro hshow
      exact mem_lines_of_mem_apply hread hrun (hshows hshow) hblank
  · obtain ⟨n, hn, hcloses, hkept⟩ := exists_close_of_imports hread hrun hclosed hr hvalue htakes
    have hselect : Outline.select? (.braces lexis) text = some final.selection := h
    exact Selection.showsGroup_of_kept (abridged_of_select? hselect).1 himports.getElem? hblank hn
      hcloses hkept

end

end RepoScope.Outline.Braces
