import RepoScope.Proofs.Outline.Abridgement
import RepoScope.Proofs.Outline.Continuations

/-!
# Which bodies outlines hide

A body is hidden if the outline shows no line that begins inside it, and nothing behind the brace of the
line that opens it (`Hides`). An outline does not hide every body. One that opens on a line which starts
with a comment or an annotation, or ends inside a literal that was opened above, is never entered. Nor is
one that opens behind a brace that closes a container on the same line.

* **`hides_body_iff`**: a body is hidden, however the text goes on behind the line that opens it, if and
  only if the outliner enters it, or it ends on its own line and nothing of the line is selected behind
  the brace.
* **`exists_body_shown`**: a function with an annotation on its own line is shown whole.
-/

namespace RepoScope.Outline.Braces

open Text

/--
Whether a selection shows nothing of the body between `o` and `c`, which opens on the line `opening`: no
line that begins inside it, and of this line nothing behind the brace.
-/
def Hides (selection : Selection) (opening : List Char) (o c : Mark) : Prop :=
  ∀ l ∈ selection.lines, ¬(o.row < l.row ∧ l.row ≤ c.row) ∧
    (l.row = o.row → IsCutAt o.column opening l.text)

/-- Whether nothing that a state has selected of the line shows it behind the column. -/
def State.CutsAt (s : State) (line : Line) (column : Nat) : Prop :=
  ∀ l, s.selection.Has l → l.row = line.row → IsCutAt column line.text l.text

/-! ## Bodies that are not entered

If the outliner does not enter a body where it opens, the mode behind the line leaves out nothing that opened at
this depth: it is outline level, or one whose floor lies above (`Mode.Exposes`). The proof goes through the cases
of the step.
-/

section

variable {s s' : State} {r : Reading} {depth : Int}

/-- A line at outline level that opens a body below its start exposes it. -/
theorem LevelStep.exposes (h : LevelStep s r s') (himport : s.startsImport r = false)
    (hstart : depth < r.start) : s'.mode.Exposes depth := by
  cases h with
  | importing _ _ _ himport' =>
    rw [himport] at himport'
    cases himport'
  | elide _ _ _ =>
    simp only
    split
    · exact hstart
    · trivial
  | body _ _ _ _ =>
    simp only
    split
    · exact hstart
    · trivial
  | _ => trivial

/-- A body that is not entered where it opens is exposed behind its line. -/
theorem Step.exposes (h : Step s r s') (hbody : s.opensBodies r = true)
    (henters : ¬s.entersAt r depth) (hne : r.trimmed ≠ []) : s'.mode.Exposes depth := by
  rw [State.entersAt, not_and] at henters
  cases h with
  | @skip floor hmode =>
    have hlevel : s.isLevel r = false := by rw [State.isLevel, hmode]
    have hfloor : s.floorOf r = floor := by rw [State.floorOf, hmode]
    have hlt : depth < floor := by
      by_contra hge
      exact henters (by omega) (by simp [hlevel])
    simp only
    split
    · trivial
    · exact hlt
  | importing hmode =>
    rw [State.opensBodies, hmode] at hbody
    cases hbody
  | @value floor parens indent hmode hpast =>
    have hlevel : s.isLevel r = false := by rw [State.isLevel, hmode]; exact hpast
    have hfloor : s.floorOf r = floor := by rw [State.floorOf, hmode]; exact if_neg (by simp [hpast])
    have hlt : depth < floor := by
      by_contra hge
      exact henters (by omega) (by simp [hlevel])
    simp only
    split
    · trivial
    · exact hlt
  | level hlevel hstep =>
    -- A line that is not read as code leaves the outliner at outline level, whatever it opens.
    cases hcode : r.isCode with
    | true =>
      rw [State.floorOf_of_isLevel hlevel] at henters
      rw [State.opensBodies_of_isLevel hlevel, hcode, Bool.true_and, Bool.not_eq_true',
        Bool.or_eq_false_iff] at hbody
      have hlt : depth < r.start := by
        by_contra hge
        exact henters (by omega) fun _ => hcode
      exact hstep.exposes hbody.1 hlt
    | false =>
      rcases hstep.of_isCode_eq_false hne hcode with rfl | rfl | rfl <;> trivial

end

/-! ## Other texts with the same first lines

The claim is on all texts that go on behind the line in some way. A path from the state behind the line, put behind
the first lines, makes such a text (`exists_text_of_path`).
-/

section

variable {lexis : Lexis} {text text' : List Char} {row : Nat} {s s' : State} {r : Reading}

/-- A line is read by the lines up to it. -/
theorem readAt?_congr (h : (lines text').take (row + 1) = (lines text).take (row + 1)) :
    readAt? lexis text' row = readAt? lexis text row := by
  have htake : (lines text').take row = (lines text).take row := by
    have := congrArg (List.take row) h
    rwa [List.take_take, List.take_take, Nat.min_eq_left (Nat.le_succ row)] at this
  have hline : (lines text')[row]? = (lines text)[row]? := by
    have := congrArg (·[row]?) h
    simpa [List.getElem?_take] using this
  rw [readAt?, readAt?, htake, hline]

/-- The brackets of the first lines are the same as those of another text with these lines. -/
theorem marks_eq_append_of_take (lexis : Lexis) (hrow : row ≤ (lines text).length)
    (h : (lines text').take row = (lines text).take row) :
    ∃ upper, marks lexis text' = marksFrom lexis .code 0 ((lines text).take row) ++ upper := by
  have hrow' : row ≤ (lines text').length := by
    have := congrArg List.length h
    rw [List.length_take, List.length_take, Nat.min_eq_left hrow] at this
    omega
  rw [marks_eq_append lexis text' hrow', h]
  exact ⟨_, rfl⟩

/-- A path that ends where a text may end is the rest of a text with an outline. -/
theorem exists_text_of_path {ls : List (List Char)} {depth : Int} (hrow : row ≤ (lines text).length)
    (hs : run? lexis .initial 0 ((lines text).take row) = some s)
    (hpath : Path lexis depth s row ls s') (hclosed : s'.isClosed = true) :
    ∃ text', (lines text').take row = (lines text).take row ∧
      Braces.select? lexis text' = some s'.selection ∧
      marks lexis text' = marksFrom lexis .code 0 ((lines text).take row) ++
        marksFrom lexis s.inside row ls := by
  -- The text is written anew from its lines, so none of them may have a line feed.
  have hlf : ∀ line ∈ (lines text).take row ++ ls, '\n' ∉ line := by
    intro line hline
    rcases List.mem_append.mp hline with hline | hline
    · exact lf_notMem_of_mem_lines (List.mem_of_mem_take hline)
    · exact hpath.lf_notMem line hline
  have hlength : ((lines text).take row).length = row := by
    rw [List.length_take, Nat.min_eq_left hrow]
  refine ⟨writeLines ((lines text).take row ++ ls), ?_, select?_eq_some.mpr ⟨s', ?_, hclosed, rfl⟩, ?_⟩
  · rw [lines_writeLines hlf, List.take_append_of_le_length (by omega), List.take_take, Nat.min_self]
  · rw [lines_writeLines hlf, run?_append_eq_some]
    exact ⟨s, hs, by rw [hlength, Nat.zero_add]; exact hpath.run?⟩
  · have hinside : s.inside = insideAfter lexis .code ((lines text).take row) := run?_inside hs
    rw [marks, lines_writeLines hlf, marksFrom_append, hlength, Nat.zero_add, hinside]

end

/-! ## The bodies that are hidden

If the body is entered, it is hidden whatever follows. If it is not, some continuation shows a line of it: one that
leads back to outline level while the block is still open and writes a word there. And a body that ends on its own
line is told by what is selected of that line.
-/

section

variable {lexis : Lexis} {text : List Char} {before : List Mark} {o c : Mark} {s s' : State}
  {r : Reading}

/-- The depth at which a block opens is not below zero. -/
theorem height_before_nonneg (h : IsBlock (marks lexis text) before o c)
    (hread : readAt? lexis text o.row = some (s, r)) : 0 ≤ Mark.height before := by
  obtain ⟨front, behind, hbrackets, -, hheight, hr, -⟩ := exists_front_of_readAt? h hread
  -- The tally of the line passes this depth, and it fails below zero.
  obtain ⟨t, ht, -⟩ := Reading.of?_eq_some hr
  rw [tally?, hbrackets, List.foldlM_append] at ht
  obtain ⟨tfront, hfront, -⟩ := Option.bind_eq_some_iff.mp ht
  have hdepth := foldlM_add?_depth hfront
  simp only at hdepth
  omega

/-- A body that is exposed behind the line that opens it is shown if the right lines follow. -/
theorem exists_shown_of_exposes (hlexis : lexis.lineComment = "//".toList)
    (h : IsBlock (marks lexis text) before o c) (hread : readAt? lexis text o.row = some (s, r))
    (hrun : run? lexis .initial 0 (lines text) = some s') (hrow : o.row < c.row)
    (hexposes : (s.apply r).mode.Exposes (Mark.height before)) :
    ∃ text' selection c', (lines text').take (o.row + 1) = (lines text).take (o.row + 1) ∧
      Braces.select? lexis text' = some selection ∧ IsBlock (marks lexis text') before o c' ∧
      ∃ l ∈ selection.lines, o.row < l.row ∧ l.row ≤ c'.row := by
  have hlength := row_lt_of_isBlock h
  have hnonneg := height_before_nonneg h hread
  have htake := (run?_take_succ_of_readAt? hread hrun).1
  have hdepth := lt_depth_of_isBlock h (Nat.lt_succ_self _) hrow htake
  obtain ⟨passed, hopen, hmarks, hpassed⟩ := exists_passed_of_row h (Nat.lt_succ_self _) hrow
  have hstart : ((s.apply r).depth : Int) = Mark.height before + 1 + Mark.height passed := by
    rw [depth_of_run?_initial htake, hmarks, Mark.height_append, Mark.height_cons,
      Bracket.rise_open hopen, Int.add_assoc]
  -- First a line that is kept, then everything is closed.
  obtain ⟨ls, t, l, hpath, hexposes', hkept, hlow, hhigh, hblank⟩ :=
    exists_path_kept hlexis (o.row + 1) hexposes hnonneg hdepth
  obtain ⟨rest, final, hrest, hclosed⟩ :=
    exists_path_end hlexis (o.row + 1 + ls.length) (hexposes'.mono (by omega : -1 ≤ Mark.height before))
  have hall := (hpath.mono (by omega)).append hrest
  obtain ⟨text', hsame, hselect, hmarks'⟩ :=
    exists_text_of_path (Nat.succ_le_of_lt hlength.1) htake hall hclosed
  have hzero : final.depth = 0 := by
    simp only [State.isClosed, Bool.and_eq_true, beq_iff_eq] at hclosed
    exact hclosed.1.1
  have hends := run?_depth hall.run?
  rw [marksFrom_append] at hmarks' hends
  -- Up to the line that is kept, nothing closes the block, and behind it something does.
  have hopened : ∀ first, first <+: passed ++ marksFrom lexis (s.apply r).inside (o.row + 1) ls →
      0 ≤ Mark.height first := by
    intro first hfirst
    rcases List.prefix_or_prefix_of_prefix hfirst (List.prefix_append _ _) with hfirst | ⟨more, rfl⟩
    · exact hpassed first hfirst
    · rw [List.prefix_append_right_inj] at hfirst
      have hmore := hpath.lt_height hfirst
      rw [Mark.height_append]
      omega
  have hcloses : Mark.height ((passed ++ marksFrom lexis (s.apply r).inside (o.row + 1) ls) ++
      marksFrom lexis (insideAfter lexis (s.apply r).inside ls) (o.row + 1 + ls.length) rest) < 0 := by
    rw [Mark.height_append] at hends
    rw [Mark.height_append, Mark.height_append]
    omega
  obtain ⟨c', hc', hblock⟩ := exists_isBlock hopen hopened hcloses
  have hafter := row_of_mem_marksFrom hc'
  refine ⟨text', final.selection, c', hsame, hselect, ?_, l, ?_, by omega, by omega⟩
  · rw [hmarks', hmarks]
    simpa using hblock
  · exact Selection.mem_lines_of_mem_kept (mem_kept_of_run? hrest.run? hkept) hblank

/-- What is selected of the line that a body opens and ends on is shown if the right lines follow. -/
theorem exists_shown_of_has (hlexis : lexis.lineComment = "//".toList)
    (h : IsBlock (marks lexis text) before o c) (hread : readAt? lexis text o.row = some (s, r))
    (hrun : run? lexis .initial 0 (lines text) = some s') (hbody : s.opensBodies r = true)
    (hrow : c.row = o.row) {l : Line} (hl : (s.apply r).selection.Has l) (hlrow : l.row = o.row) :
    ∃ text' selection, (lines text').take (o.row + 1) = (lines text).take (o.row + 1) ∧
      Braces.select? lexis text' = some selection ∧ IsBlock (marks lexis text') before o c ∧
      l ∈ selection.lines := by
  have hlength := row_lt_of_isBlock h
  obtain ⟨htake, -⟩ := run?_take_succ_of_readAt? hread hrun
  obtain ⟨hs, line, -, hr⟩ := readAt?_eq_some.mp hread
  have hne := trimmed_ne_nil_of_readAt? h hread
  have hnew : ¬s.selection.Has l := by
    intro hbefore
    have hlt := row_lt_of_run?_initial hs hbefore
    rw [List.length_take] at hlt
    omega
  have hblank : isBlankText l.text = false := by
    have hshows := ((step_apply s r).has hl).resolve_left hnew
    exact hshows.isBlankText_eq_false hne (trimmed_of_readAt? hread)
  -- What the line has written can be brought into the outline by lines that close all that is open.
  have hexposes : (s.apply r).mode.Exposes (-1) :=
    (step_apply s r).exposes hbody (fun henters => by have := henters.1; omega) hne
  have hwaiting : l ∈ (s.apply r).selection.waiting → (s.apply r).mode = .outline := fun hwaits =>
    ((step_apply s r).waiting hwaits).resolve_left fun hwaited => hnew (.inr hwaited)
  obtain ⟨ls, final, hpath, hclosed, hkept⟩ :=
    exists_path_of_has hlexis (o.row + 1) hexposes hl hwaiting
  -- These lines, behind the ones read so far, are the text that is looked for.
  obtain ⟨text', hsame, hselect, hmarks⟩ :=
    exists_text_of_path (Nat.succ_le_of_lt hlength.1) htake hpath hclosed
  refine ⟨text', final.selection, hsame, hselect, ?_, Selection.mem_lines_of_mem_kept hkept hblank⟩
  rw [marks_eq_append lexis text (Nat.succ_le_of_lt hlength.1)] at h
  rw [hmarks]
  refine IsBlock.append (h.of_append fun hmem => ?_) _
  have := row_of_mem_marksFrom hmem
  omega

/-- A body that ends on its own line ends there whatever follows. -/
theorem close_eq_of_take {text' : List Char} {c' : Mark} (h : IsBlock (marks lexis text) before o c)
    (hrow : c.row = o.row) (hsame : (lines text').take (o.row + 1) = (lines text).take (o.row + 1))
    (h' : IsBlock (marks lexis text') before o c') : c' = c := by
  have hlength := row_lt_of_isBlock h
  obtain ⟨upper, hmarks⟩ := marks_eq_append_of_take lexis (Nat.succ_le_of_lt hlength.1) hsame
  rw [marks_eq_append lexis text (Nat.succ_le_of_lt hlength.1)] at h
  rw [hmarks] at h'
  refine h'.unique (IsBlock.append (h.of_append fun hmem => ?_) upper)
  have := row_of_mem_marksFrom hmem
  omega

end

/-- All brace languages have slashes for comments. -/
theorem lineComment_of_layout? {extension : String} {lexis : Lexis}
    (hlayout : layout? extension = some (.braces lexis)) : lexis.lineComment = "//".toList := by
  rw [layout?, Option.map_eq_some_iff] at hlayout
  obtain ⟨entry, hfind, hentry⟩ := hlayout
  have hmem := List.mem_of_find?_eq_some hfind
  have hall : ∀ entry ∈ layouts, ∀ lexis, entry.1 = .braces lexis →
      lexis.lineComment = "//".toList := by
    simp [layouts, Lexis.slashes, Lexis.slashesAndBackticks, Lexis.slashesAndTicks]
  exact hall entry hmem lexis hentry

/--
A body is hidden, however the text goes on behind the line that opens it, if and only if the outliner
enters it, or it ends on its own line and nothing that is selected of this line shows it behind the brace.
-/
theorem hides_body_iff {extension : String} {lexis : Lexis} {text out : List Char} {before : List Mark}
    {o c : Mark} {s : State} {r : Reading} (hlayout : layout? extension = some (.braces lexis))
    (hout : outline? text (some extension) = some out)
    (hblock : IsBlock (marks lexis text) before o c)
    (hread : readAt? lexis text o.row = some (s, r)) (hbody : s.opensBodies r = true) :
    (∀ text' selection c', (lines text').take (o.row + 1) = (lines text).take (o.row + 1) →
        Outline.select? (.braces lexis) text' = some selection →
        IsBlock (marks lexis text') before o c' → Hides selection r.line.text o c') ↔
      s.entersAt r (Mark.height before) ∨
        (c.row = o.row ∧ (s.apply r).CutsAt r.line o.column) := by
  have hlexis := lineComment_of_layout? hlayout
  obtain ⟨selection, hselect, -⟩ := (outline?_eq_some_iff hlayout).mp hout
  obtain ⟨final, hrun, -, -⟩ := select?_eq_some.mp hselect
  have hrow : r.line.row = o.row := by
    obtain ⟨-, line, -, hr⟩ := readAt?_eq_some.mp hread
    rw [Reading.line_eq hr]
  constructor
  · intro hhides
    by_contra hnot
    rw [not_or] at hnot
    obtain ⟨henters, hcuts⟩ := hnot
    rcases Nat.lt_or_eq_of_le hblock.row_le with hbelow | hsame
    · have hexposes := (step_apply s r).exposes hbody henters (trimmed_ne_nil_of_readAt? hblock hread)
      obtain ⟨text', selection', c', htake, hselect', hblock', l, hl, ho, hc⟩ :=
        exists_shown_of_exposes hlexis hblock hread hrun hbelow hexposes
      exact (hhides text' selection' c' htake hselect' hblock' l hl).1 ⟨ho, hc⟩
    · refine hcuts ⟨hsame.symm, fun l hl hlrow => ?_⟩
      rw [hrow] at hlrow
      obtain ⟨text', selection', htake, hselect', hblock', hshown⟩ :=
        exists_shown_of_has hlexis hblock hread hrun hbody hsame.symm hl hlrow
      exact (hhides text' selection' c htake hselect' hblock' l hshown).2 hlrow
  · intro hcases text' selection' c' htake hselect' hblock' l hl
    obtain ⟨final', hrun', -, rfl⟩ := select?_eq_some.mp hselect'
    have hread' : readAt? lexis text' o.row = some (s, r) := (readAt?_congr htake).trans hread
    have hhas : final'.selection.Has l := .inl (Selection.mem_kept_of_mem_lines hl)
    rcases hcases with henters | ⟨hsame, hcuts⟩
    · exact selection_of_body hblock' hread' hbody henters hrun' hhas
    · -- No line begins inside a body that ends on its own line.
      have hclose := close_eq_of_take hblock hsame htake hblock'
      subst hclose
      refine ⟨by omega, fun hlrow => ?_⟩
      rcases has_of_run? (run?_take_succ_of_readAt? hread' hrun').2 hhas with hhas | hbehind
      · exact hcuts l hhas (by omega)
      · omega

/-- Two functions, the second with an annotation on its own line. -/
def sampleText : List Char :=
  "fn f() \x7b\n    run();\n\x7d\n#[inline] fn g() \x7b\n    secret();\n\x7d\n".toList

/-- What the outline of the functions selects. -/
def sampleSelection : Selection :=
  { kept := [⟨5, ['}']⟩, ⟨4, "    secret();".toList⟩, ⟨3, "#[inline] fn g() \x7b".toList⟩,
      ⟨0, "fn f() \x7b ... \x7d".toList⟩]
    waiting := [] }

/-- The reading of a line with a function that opens a block in this column. -/
def functionReading (row : Nat) (opening : String) (column : Nat) : Reading :=
  { line := ⟨row, opening.toList⟩, trimmed := opening.toList, startsInside := false, inside := .code,
    start := 0, depth := 1, parens := 0, openAt := some column }

/-- The first function is entered, and so its body is hidden. -/
theorem hides_body_sample :
    Hides sampleSelection "fn f() \x7b".toList ⟨⟨7, '{'⟩, 0⟩ ⟨⟨0, '}'⟩, 2⟩ := by
  have hout : outline? sampleText (some "rs")
      = some "fn f() \x7b ... \x7d\n#[inline] fn g() \x7b\n    secret();\n\x7d\n".toList := by
    decide +kernel
  have hblock : IsBlock (marks .slashesAndTicks sampleText) [⟨⟨4, '('⟩, 0⟩, ⟨⟨5, ')'⟩, 0⟩]
      ⟨⟨7, '{'⟩, 0⟩ ⟨⟨0, '}'⟩, 2⟩ :=
    ⟨[⟨⟨7, '('⟩, 1⟩, ⟨⟨8, ')'⟩, 1⟩],
      [⟨⟨1, '['⟩, 3⟩, ⟨⟨8, ']'⟩, 3⟩, ⟨⟨14, '('⟩, 3⟩, ⟨⟨15, ')'⟩, 3⟩, ⟨⟨17, '{'⟩, 3⟩, ⟨⟨10, '('⟩, 4⟩,
        ⟨⟨11, ')'⟩, 4⟩, ⟨⟨0, '}'⟩, 5⟩], rfl, rfl, by decide, by decide +kernel⟩
  have hread : readAt? .slashesAndTicks sampleText 0
      = some (State.initial, functionReading 0 "fn f() \x7b" 7) := by decide +kernel
  have hbody : State.initial.opensBodies (functionReading 0 "fn f() \x7b" 7) = true := by decide +kernel
  have henters : State.initial.entersAt (functionReading 0 "fn f() \x7b" 7)
      (Mark.height [⟨⟨4, '('⟩, 0⟩, ⟨⟨5, ')'⟩, 0⟩]) := by decide +kernel
  exact (hides_body_iff (by decide +kernel) hout hblock hread hbody).mpr (.inl henters) sampleText
    sampleSelection _ rfl (by decide +kernel) hblock

/-- The second function is not entered, since its line is taken for an annotation: its body is shown. -/
theorem exists_body_shown :
    ∃ before o c s r,
      layout? "rs" = some (.braces .slashesAndTicks) ∧
      Outline.select? (.braces .slashesAndTicks) sampleText = some sampleSelection ∧
      outline? sampleText (some "rs") = some (sampleSelection.finish sampleText) ∧
      sampleSelection.finish sampleText ≠ sampleText ∧
      IsBlock (marks .slashesAndTicks sampleText) before o c ∧
      readAt? .slashesAndTicks sampleText o.row = some (s, r) ∧ s.opensBodies r = true ∧
      s.header = none ∧ containerHeader.isIn r.trimmed = false ∧ importLine.isIn r.trimmed = false ∧
      ¬Hides sampleSelection r.line.text o c := by
  refine ⟨[⟨⟨4, '('⟩, 0⟩, ⟨⟨5, ')'⟩, 0⟩, ⟨⟨7, '{'⟩, 0⟩, ⟨⟨7, '('⟩, 1⟩, ⟨⟨8, ')'⟩, 1⟩, ⟨⟨0, '}'⟩, 2⟩,
      ⟨⟨1, '['⟩, 3⟩, ⟨⟨8, ']'⟩, 3⟩, ⟨⟨14, '('⟩, 3⟩, ⟨⟨15, ')'⟩, 3⟩], ⟨⟨17, '{'⟩, 3⟩, ⟨⟨0, '}'⟩, 5⟩,
    { State.initial with selection := ⟨[⟨0, "fn f() \x7b ... \x7d".toList⟩], []⟩ },
    functionReading 3 "#[inline] fn g() \x7b" 17, by decide +kernel, by decide +kernel,
    by decide +kernel, by decide +kernel, ?_, by decide +kernel, by decide +kernel, rfl,
    by decide +kernel, by decide +kernel, ?_⟩
  · exact ⟨[⟨⟨10, '('⟩, 4⟩, ⟨⟨11, ')'⟩, 4⟩], [], rfl, rfl, by decide, by decide +kernel⟩
  · intro hhides
    exact (hhides ⟨4, "    secret();".toList⟩ (by decide +kernel)).1 (by decide)

end RepoScope.Outline.Braces
