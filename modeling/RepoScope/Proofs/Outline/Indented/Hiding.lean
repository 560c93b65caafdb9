import RepoScope.Proofs.Outline.Indented.Suites

/-!
# Which suites outlines hide

A header that stands on one line ends where the outliner finds its colon, and the suite behind it is hidden,
whether or not a comment follows. A header of several lines ends for the outliner only with a line that ends
with a colon. If a comment follows the colon, the outliner takes the block below for more of the header and
keeps its lines.

* **`hides_suite_iff`**: a suite is hidden, however the text goes on behind the header, if and only if the
  header stands on one line, or its last line ends with a colon and has no code behind the one that ends it.
* **`exists_suite_shown`**: a header of three lines with a comment behind the colon.
-/

namespace RepoScope.Outline.Indented

open Text

/-! ## A block that is shown

Where the outliner still waits for the end of the header, any line that ends with a colon ends it, and is kept with
the lines above. So one line can be written below the header that belongs to the block and is shown.
-/

/-- A line of a block that ends with a colon. -/
def blockLine (indent : Nat) : List Char := List.replicate (indent + 1) ' ' ++ "x:".toList

/-- An indentation of spaces is blank. -/
theorem isBlank_of_mem_replicate {n : Nat} : ∀ c ∈ List.replicate n ' ', isBlank c = true := by
  intro c hc
  rw [List.eq_of_mem_replicate hc]
  rfl

/-- The line is indented by one more than the header. -/
theorem indentWidth_blockLine (indent : Nat) : indentWidth (blockLine indent) = indent + 1 := by
  have hblanks : leadingBlanks (blockLine indent) = List.replicate (indent + 1) ' ' := by
    rw [leadingBlanks, blockLine, List.takeWhile_append_of_pos isBlank_of_mem_replicate]
    exact List.append_nil _
  have hwidth : ∀ n, (List.replicate n ' ').foldr
      (fun c width => (if c = '\t' then 8 else 1) + width) 0 = n := by
    intro n
    induction n with
    | zero => rfl
    | succ n ih =>
      rw [List.replicate_succ, List.foldr_cons, ih]
      exact Nat.add_comm 1 n
  rw [indentWidth, hblanks, hwidth]

/-- The reading of the line, where it starts in code outside all brackets. -/
def blockReading (row indent : Nat) : Reading :=
  { line := ⟨row, blockLine indent⟩, trimmed := "x:".toList, indent := indent + 1, startsInside := false,
    inside := .code, start := 0, depth := 0 }

/-- How the line is read. -/
theorem of?_blockLine (row indent : Nat) :
    Reading.of? .hashes .code 0 ⟨row, blockLine indent⟩ = some (blockReading row indent) := by
  have hscan : scanLine .hashes .code (blockLine indent) = ([], .code) := by
    have hx := nextToken_of_plain (c := 'x') (by decide) (by decide) (by decide)
    have hcolon := nextToken_of_plain (c := ':') (by decide) (by decide) (by decide)
    have hxb : isBracket 'x' = false := rfl
    have hcb : isBracket ':' = false := rfl
    rw [scanLine, blockLine, scanFrom_append_left isBlank_of_mem_replicate]
    simp [scanFrom, hx, hcolon, hxb, hcb]
  have htrim : trim (blockLine indent) = "x:".toList := by
    rw [blockLine, trim_append_left isBlank_of_mem_replicate]
    rfl
  rw [Reading.of?, hscan, htrim, indentWidth_blockLine]
  rfl

section

variable {text : List Char} {row indent column : Nat} {s s' t : State} {r q : Reading}

/-- The line of a block that follows a header is kept if the outliner still waits for the end of the header. -/
theorem exists_shown_of_header (hread : readAt? .hashes text row = some (t, q))
    (hmode : (t.apply q).mode = .header indent false) (hdepth : q.depth = 0) (hinside : q.inside = .code)
    (hrun : run? .hashes .initial 0 (lines text) = some s') (hbare : endsBare q.line column = true) :
    ∃ text' selection, (lines text').take (row + 1) = (lines text).take (row + 1) ∧
      Outline.select? (.indented .hashes) text' = some selection ∧
      ¬HidesSuite selection .hashes text' indent q.line column := by
  obtain ⟨hrow, hline⟩ := line_of_readAt? hread
  obtain ⟨hlength, -⟩ := List.getElem?_eq_some_iff.mp hline
  obtain ⟨htake, -⟩ := run?_of_readAt? hread hrun
  obtain ⟨hinside', hdepth'⟩ := (step_apply t q).inside
  obtain ⟨text', hlines⟩ : ∃ text', lines text' = (lines text).take (row + 1) ++ [blockLine indent] := by
    refine ⟨_, lines_writeLines fun line hmem => ?_⟩
    rcases List.mem_append.mp hmem with hmem | hmem
    · exact lf_notMem_of_mem_lines (List.mem_of_mem_take hmem)
    · rw [List.mem_singleton.mp hmem]
      simp [blockLine, List.mem_replicate]
  have hcount : ((lines text).take (row + 1)).length = row + 1 := by
    rw [List.length_take, Nat.min_eq_left hlength]
  have htake' : (lines text').take (row + 1) = (lines text).take (row + 1) := by
    rw [hlines]
    exact List.take_left' hcount
  have hget : (lines text')[row + 1]? = some (blockLine indent) := by
    rw [hlines, List.getElem?_append_right (Nat.le_of_eq hcount), hcount, Nat.sub_self,
      List.getElem?_cons_zero]
  have hof : Reading.of? .hashes (t.apply q).inside (t.apply q).depth ⟨row + 1, blockLine indent⟩ =
      some (blockReading (row + 1) indent) := by
    rw [hinside', hdepth', hinside, hdepth]
    exact of?_blockLine (row + 1) indent
  have hread' : readAt? .hashes text' (row + 1) = some (t.apply q, blockReading (row + 1) indent) :=
    readAt?_eq_some.mpr ⟨by rw [htake']; exact htake, _, hget, hof⟩
  -- The line ends the header, so the text may end behind it.
  have hstep : (t.apply q).apply (blockReading (row + 1) indent) = State.enterBlock
      { (t.apply q).moved (blockReading (row + 1) indent) with
        selection := (t.apply q).selection.keep ⟨row + 1, blockLine indent⟩ } indent false :=
    (step_apply _ _).eq_of_header hmode
  have hrun' : run? .hashes .initial 0 (lines text') =
      some ((t.apply q).apply (blockReading (row + 1) indent)) := by
    rw [hlines, run?, Outliner.run?_append_eq_some]
    refine ⟨t.apply q, htake, ?_⟩
    rw [hcount, Nat.zero_add]
    exact run?_cons.mpr ⟨_, hof, rfl⟩
  have hclosed : ((t.apply q).apply (blockReading (row + 1) indent)).isClosed = true := by
    rw [hstep]
    rfl
  refine ⟨text', _, htake', select?_eq_some.mpr ⟨_, hrun', hclosed, rfl⟩, fun hhides => ?_⟩
  have hshown : (⟨row + 1, blockLine indent⟩ : Line) ∈
      ((t.apply q).apply (blockReading (row + 1) indent)).selection.lines := by
    refine Selection.mem_lines_of_mem_kept ?_ ?_
    · rw [hstep, State.selection_enterBlock]
      exact List.mem_cons_self
    · exact isBlankText_eq_false_of_mem (c := 'x') (by simp [blockLine]) (by decide)
  have hin : InSuite .hashes text' indent q.line column (row + 1) := by
    refine ⟨by rw [hrow]; exact Nat.lt_succ_self row, fun j hj hjle => ?_⟩
    rw [hrow] at hj
    obtain rfl : j = row + 1 := by omega
    refine ⟨_, _, hread', ?_⟩
    simp [hbare, Reading.isInBody, blockReading]
  obtain ⟨line, hline', hmark⟩ := hhides.below _ hshown hin
  have htext : blockLine indent = leadingBlanks line ++ elision := congrArg Line.text hmark
  have hlast := congrArg List.getLast? htext
  simp [blockLine, elision] at hlast

/-- Code behind the colon on the last of several lines is kept with the line. -/
theorem not_hidesSuite_of_code (hrun : run? .hashes .initial 0 (lines text) = some s')
    (hread : readAt? .hashes text row = some (t, q)) (hmode : t.mode = .header indent false)
    (hcolon : colonFrom .hashes t.inside t.depth 0 q.line.text = some column)
    (hcode : endsBare q.line column = false)
    (hmark : q.line.text.drop (column + 1) ≠ ' ' :: elision) :
    ¬HidesSuite s'.selection .hashes text indent q.line column := by
  intro hhides
  have hget := (getElem?_of_colonFrom hcolon).2
  rw [Nat.sub_zero] at hget
  have hmem : ':' ∈ q.line.text := List.mem_of_getElem? hget
  -- The last line of a header is kept as a whole, whatever stands behind the colon.
  have hkept : q.line ∈ (t.apply q).selection.kept := by
    rw [(step_apply t q).eq_of_header hmode]
    split
    · rw [State.selection_enterBlock]
      exact List.mem_cons_self
    · exact List.mem_cons_self
  have hblank : isBlankText q.line.text = false := isBlankText_eq_false_of_mem hmem (by decide)
  have hshown : q.line ∈ s'.selection.lines := Selection.mem_lines_of_mem_kept
    (Outliner.mem_kept_of_run? (O := outliner .hashes) (run?_of_readAt? hread hrun).2 hkept) hblank
  -- If the suite were hidden, the line would end with the mark, which it does not, or be the mark alone,
  -- which has no colon.
  rcases hhides.behind q.line hshown rfl hcode with htext | htext
  · have hsplit := (List.take_append_drop (column + 1) q.line.text).trans htext
    exact hmark (List.append_cancel_left hsplit)
  · rw [htext, elideLine, List.mem_append] at hmem
    rcases hmem with hmem | hmem
    · exact absurd (List.mem_takeWhile_imp hmem) (by decide)
    · exact absurd hmem (by decide)

/-! ## All headers

A header on one line needs no condition (`hidesSuite_of_startsDef`). For one of several lines, the outliner is
inside the header when it comes to the line of the colon, and everything is decided there: if it sees the end, the
suite is hidden; if not, the block above shows a line of it.
-/

/-- The suite behind a header that the outliner is still inside of, when it reads the line of the colon. -/
theorem hides_suite_of_header_iff (hrun : run? .hashes .initial 0 (lines text) = some s')
    (hclosed : s'.isClosed = true) (hread : readAt? .hashes text row = some (t, q))
    (hmode : t.mode = .header indent false)
    (hcolon : colonFrom .hashes t.inside t.depth 0 q.line.text = some column) :
    (∀ text' selection, (lines text').take (row + 1) = (lines text).take (row + 1) →
        Outline.select? (.indented .hashes) text' = some selection →
        HidesSuite selection .hashes text' indent q.line column) ↔
      endsBare q.line column = true ∧ q.trimmed.getLast? = some ':' ∨
        q.line.text.drop (column + 1) = ' ' :: elision := by
  constructor
  · intro hhides
    by_contra hnot
    rw [not_or, not_and] at hnot
    obtain ⟨hstuck, hmark⟩ := hnot
    cases hbare : endsBare q.line column with
    | true =>
      -- The header goes on below the line, so the text may go on with a line that is kept.
      obtain ⟨hdepth, hinside⟩ := depth_of_colonFrom hread hcolon (.inl hbare)
      have hopen : ¬q.endsHeader = true := by
        simp only [Reading.endsHeader, decide_eq_true_eq, not_and]
        exact fun _ => hstuck hbare
      have hstays : (t.apply q).mode = .header indent false := by
        rw [(step_apply t q).eq_of_header hmode, if_neg hopen]
        exact hmode
      obtain ⟨text', selection', htake, hselect', hshown⟩ :=
        exists_shown_of_header hread hstays hdepth hinside hrun hbare
      exact hshown (hhides text' selection' htake hselect')
    | false =>
      -- The code stands on the line, which is kept: the text itself shows it.
      exact not_hidesSuite_of_code hrun hread hmode hcolon hbare hmark
        (hhides text s'.selection rfl (select?_eq_some.mpr ⟨s', hrun, hclosed, rfl⟩))
  · intro hends text' selection' htake hselect'
    obtain ⟨final', hrun', -, rfl⟩ := select?_eq_some.mp hselect'
    have hsame : readAt? .hashes text' row = readAt? .hashes text row :=
      readAt?_congr htake (Nat.lt_succ_self row)
    exact hidesSuite_of_header hrun' (hsame.trans hread) hmode hcolon hends

/-- The first line of a header that has no colon of its own leaves the outliner inside the header. -/
theorem mode_of_startsDef (hread : readAt? .hashes text row = some (s, r)) (hdef : s.startsDef r = true)
    (hfence : HasNoFence r.line.text)
    (hcolon : colonFrom .hashes s.inside s.depth 0 r.line.text = none) (hdepth : 0 < r.depth) :
    (s.apply r).mode = .header r.indent false := by
  obtain ⟨hlevel, hstart, hdef, hinside, hzero⟩ := startsDef_eq_true hread hdef
  obtain ⟨-, line, -, hr⟩ := readAt?_eq_some.mp hread
  rw [hinside, hzero] at hr hcolon
  rw [← Reading.line_eq hr] at hr
  rw [colonFrom_eq_headerColon? hr hfence, Option.map_eq_none_iff] at hcolon
  have hstep := ((step_apply s r).levelStep hlevel).of_def hstart hdef
  rw [hcolon] at hstep
  exact hstep hdepth

end

/-- All languages whose blocks are indented have hashes for comments. -/
theorem eq_hashes_of_layout? {extension : String} {lexis : Lexis}
    (hlayout : layout? extension = some (.indented lexis)) : lexis = .hashes := by
  rw [layout?, Option.map_eq_some_iff] at hlayout
  obtain ⟨entry, hfind, hentry⟩ := hlayout
  have hmem := List.mem_of_find?_eq_some hfind
  have hall : ∀ entry ∈ layouts, ∀ lexis, entry.1 = .indented lexis → lexis = .hashes := by
    simp [layouts]
  exact hall entry hmem lexis hentry

/--
A suite is hidden, however the text goes on behind its header, if and only if the header stands on one line, or
its last line ends with a colon and no code stands behind the colon that ends the header. (A last line with an
elision mark for its code is its own abridgement.)

The first line of the header must not have three quotes side by side. This leaves out functions with a literal of that
kind on the line, as `def f(): """Does nothing."""`, since the outliner looks for the colon there without regard
to such literals. If the header has code behind its colon, the suite is this code with the lines on which it is
continued, so of a function on one line nothing below that line counts.
-/
theorem hides_suite_iff {extension : String} {lexis : Lexis} {text out : List Char}
    {row last column : Nat} {s t : State} {r q : Reading}
    (hlayout : layout? extension = some (.indented lexis))
    (hout : outline? text (some extension) = some out)
    (hread : readAt? lexis text row = some (s, r)) (hdef : s.startsDef r = true)
    (hfence : HasNoFence r.line.text) (hends : HeaderEnds lexis text row last column)
    (hlast : readAt? lexis text last = some (t, q)) :
    (∀ text' selection, (lines text').take (last + 1) = (lines text).take (last + 1) →
        Outline.select? (.indented lexis) text' = some selection →
        HidesSuite selection lexis text' r.indent q.line column) ↔
      row = last ∨ endsBare q.line column = true ∧ q.trimmed.getLast? = some ':' ∨
        q.line.text.drop (column + 1) = ' ' :: elision := by
  obtain rfl := eq_hashes_of_layout? hlayout
  obtain ⟨selection, hselect, -⟩ := (outline?_eq_some_iff hlayout).mp hout
  obtain ⟨final, hrun, hclosed, -⟩ := select?_eq_some.mp hselect
  have hcolon : colonFrom .hashes t.inside t.depth 0 q.line.text = some column := by
    obtain ⟨t', q', hlast', hcolon⟩ := hends.ends
    obtain ⟨rfl, rfl⟩ := readAt?_inj hlast hlast'
    exact hcolon
  -- The header ends on a later line, where its last line decides, or on its first one, where the suite is
  -- always hidden.
  rcases Nat.lt_or_eq_of_le hends.le with hlt | rfl
  · have hmode : (s.apply r).mode = .header r.indent false := by
      obtain ⟨s', r', hread', hnone, hdepth⟩ := hends.above row (Nat.le_refl row) hlt
      obtain ⟨rfl, rfl⟩ := readAt?_inj hread hread'
      exact mode_of_startsDef hread hdef hfence hnone hdepth
    have hheader := mode_of_headerEnds hrun hread hmode hends hlt hlast
    rw [or_iff_right (Nat.ne_of_lt hlt)]
    exact hides_suite_of_header_iff hrun hclosed hlast hheader hcolon
  · obtain ⟨rfl, rfl⟩ := readAt?_inj hread hlast
    refine iff_of_true (fun text' selection' htake hselect' => ?_) (.inl rfl)
    obtain ⟨final', hrun', -, rfl⟩ := select?_eq_some.mp hselect'
    have hsame : readAt? .hashes text' row = readAt? .hashes text row :=
      readAt?_congr htake (Nat.lt_succ_self row)
    have hread' := hsame.trans hread
    exact hidesSuite_of_startsDef hrun' hread' hdef hfence hcolon

/-- A function with a header of three lines and, on the last of them, `behind` behind the colon. -/
def suiteText (behind : String) : List Char :=
  "def f(\n    a,\n):".toList ++ behind.toList ++
    "\n    secret = 1\n    if secret:\n        pass\n".toList

def suiteHeader : List Line := [⟨1, "    a,".toList⟩, ⟨0, "def f(".toList⟩]

def suiteReading : Reading :=
  { line := ⟨0, "def f(".toList⟩, trimmed := "def f(".toList, indent := 0, startsInside := false,
    inside := .code, start := 0, depth := 1 }

def suiteState : State := ⟨.code, 1, [], .header 0 false, false, ⟨suiteHeader, []⟩⟩

def suiteEnding (behind : String) : Reading :=
  { line := ⟨2, "):".toList ++ behind.toList⟩, trimmed := "):".toList ++ behind.toList, indent := 0,
    startsInside := false, inside := .code, start := 1, depth := 0 }

def suiteParameter : Reading :=
  { line := ⟨1, "    a,".toList⟩, trimmed := "a,".toList, indent := 4, startsInside := false,
    inside := .code, start := 1, depth := 1 }

def suiteOpened : State := ⟨.code, 1, [], .header 0 false, false, ⟨[suiteReading.line], []⟩⟩

/-- The header ends with the second character of its third line, whatever stands behind that. -/
theorem headerEnds_of_suite {text : List Char} {behind : String}
    (hfirst : readAt? .hashes text 0 = some (State.initial, suiteReading))
    (hsecond : readAt? .hashes text 1 = some (suiteOpened, suiteParameter))
    (hlast : readAt? .hashes text 2 = some (suiteState, suiteEnding behind))
    (hcolon : colonFrom .hashes .code 1 0 (suiteEnding behind).line.text = some 1) :
    HeaderEnds .hashes text 0 2 1 where
  le := by decide
  above := by
    intro k _ hk
    match k, hk with
    | 0, _ => exact ⟨_, _, hfirst, by decide +kernel, by decide⟩
    | 1, _ => exact ⟨_, _, hsecond, by decide +kernel, by decide⟩
  ends := ⟨_, _, hlast, hcolon⟩

/-- With nothing behind the colon the suite is hidden. -/
theorem hides_suite_sample :
    HidesSuite ⟨⟨3, "    ...".toList⟩ :: ⟨2, "):".toList⟩ :: suiteHeader, []⟩ .hashes (suiteText "") 0
      (suiteEnding "").line 1 := by
  have hlayout : layout? "py" = some (.indented .hashes) := by decide +kernel
  have hout : outline? (suiteText "") (some "py") = some "def f(\n    a,\n):\n    ...\n".toList := by
    decide +kernel
  have hread : readAt? .hashes (suiteText "") 0 = some (State.initial, suiteReading) := by
    decide +kernel
  have hlast : readAt? .hashes (suiteText "") 2 = some (suiteState, suiteEnding "") := by decide +kernel
  have hfence : HasNoFence suiteReading.line.text := by
    rintro c (rfl | rfl) <;> decide
  have hends : HeaderEnds .hashes (suiteText "") 0 2 1 :=
    headerEnds_of_suite hread (by decide +kernel) hlast (by decide +kernel)
  exact (hides_suite_iff hlayout hout hread (by decide +kernel) hfence hends hlast).mpr
    (.inr (.inl ⟨by decide, by decide⟩)) _ _ rfl (by decide +kernel)

/-- With a comment behind the colon, the first line of the suite is shown. -/
theorem exists_suite_shown :
    ∃ (text out : List Char) (row last column : Nat) (s t : State) (r q : Reading) (selection : Selection),
      layout? "py" = some (.indented .hashes) ∧ outline? text (some "py") = some out ∧
      Outline.select? (.indented .hashes) text = some selection ∧
      readAt? .hashes text row = some (s, r) ∧ s.startsDef r = true ∧ HasNoFence r.line.text ∧
      HeaderEnds .hashes text row last column ∧ readAt? .hashes text last = some (t, q) ∧
      ¬HidesSuite selection .hashes text r.indent q.line column := by
  have hread : readAt? .hashes (suiteText "  # note") 0 = some (State.initial, suiteReading) := by
    decide +kernel
  have hlast : readAt? .hashes (suiteText "  # note") 2 = some (suiteState, suiteEnding "  # note") := by
    decide +kernel
  refine ⟨suiteText "  # note",
    "def f(\n    a,\n):  # note\n    secret = 1\n    if secret:\n        ...\n".toList,
    0, 2, 1, State.initial, suiteState, suiteReading, suiteEnding "  # note",
    ⟨⟨5, "        ...".toList⟩ :: ⟨4, "    if secret:".toList⟩ :: ⟨3, "    secret = 1".toList⟩ ::
      ⟨2, "):  # note".toList⟩ :: suiteHeader, []⟩, by decide +kernel, by decide +kernel,
    by decide +kernel, hread, by decide +kernel, ?_,
    headerEnds_of_suite hread (by decide +kernel) hlast (by decide +kernel), hlast, fun hhides => ?_⟩
  · rintro c (rfl | rfl) <;> decide
  · -- Row 3, the first of the suite, is emitted as it stands.
    have hin : InSuite .hashes (suiteText "  # note") 0 ⟨2, "):  # note".toList⟩ 1 3 := by
      refine ⟨by decide, fun j hj hjle => ?_⟩
      obtain rfl : j = 3 := Nat.le_antisymm hjle hj
      have hbelow : readAt? .hashes (suiteText "  # note") 3 = some
          (suiteState.apply (suiteEnding "  # note"),
            ⟨⟨3, "    secret = 1".toList⟩, "secret = 1".toList, 4, false, .code, 0, 0⟩) := by
        decide +kernel
      exact ⟨_, _, hbelow, by decide +kernel⟩
    obtain ⟨line, -, hmark⟩ := hhides.below ⟨3, "    secret = 1".toList⟩ (by decide) hin
    have htext : "    secret = 1".toList = leadingBlanks line ++ elision := congrArg Line.text hmark
    have hlast := congrArg List.getLast? htext
    simp [elision] at hlast

end RepoScope.Outline.Indented
