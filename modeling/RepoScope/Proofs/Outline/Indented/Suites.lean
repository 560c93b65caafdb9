import RepoScope.Proofs.Outline.Abridgement
import RepoScope.Proofs.Outline.Indented.Colons
import RepoScope.Proofs.Outline.Words

/-!
# Suites of functions

The suite of a function is what stands behind the colon that ends its header (`HeaderEnds`): the block below,
if no code stands behind the colon, and else that code with the lines that go on with it (`InSuite`). It is
hidden if nothing of it is shown but one elision mark (`HidesSuite`).

Behind a bare colon this takes no more than that the outliner enters the block: there is then one line on
which it puts the mark, and none of the others is shown (`hidesSuite_of_body`). It does so for a header of one
line (`hidesSuite_of_startsDef`), and for one of several lines if the last ends with a colon
(`hidesSuite_of_header`).
-/

namespace RepoScope.Outline.Indented

open Text

/-! ## Headers and suites

A suite is told from what follows it by indentation, if it is a block, or else by open brackets and literals. Both
are tests on the readings of the lines, so which lines belong to the suite does not depend on what the outliner
does with them.
-/

/-- Whether a line of outline level starts a function. -/
def State.startsDef (s : State) (r : Reading) : Bool :=
  s.isLevel r && !r.isContinued && defHeader.isIn r.trimmed

/--
Whether a header that starts on the line `first` ends with the colon in the column `column` of the line
`last`: the lines above leave a bracket open.
-/
structure HeaderEnds (lexis : Lexis) (text : List Char) (first last column : Nat) : Prop where
  le : first ≤ last
  above : ∀ k, first ≤ k → k < last → ∃ s r, readAt? lexis text k = some (s, r) ∧
    colonFrom lexis s.inside s.depth 0 r.line.text = none ∧ 0 < r.depth
  ends : ∃ s r, readAt? lexis text last = some (s, r) ∧
    colonFrom lexis s.inside s.depth 0 r.line.text = some column

/-- Whether there is no code behind the colon in the column `column` of a line. -/
def endsBare (ending : Line) (column : Nat) : Bool := isBare (ending.text.drop (column + 1))

/--
Whether the line `k` is below the colon in the column `column` of the line `ending`, and belongs to the suite
behind it, that of a function with the indentation `indent`. With no code behind the colon this is the block
below, and else only what goes on with that code.
-/
def InSuite (lexis : Lexis) (text : List Char) (indent : Nat) (ending : Line) (column k : Nat) : Prop :=
  ending.row < k ∧ ∀ j, ending.row < j → j ≤ k → ∃ s r, readAt? lexis text j = some (s, r) ∧
    (if endsBare ending column then r.isInBody indent else r.isContinued) = true

/-- Whether something of the suite stands on the line `k`, below the colon or behind it. -/
def HasSuite (lexis : Lexis) (text : List Char) (indent : Nat) (ending : Line) (column k : Nat) : Prop :=
  InSuite lexis text indent ending column k ∨ k = ending.row ∧ endsBare ending column = false

/-- Whether a selection shows nothing of a suite but one elision mark, on a line of its own or behind the colon. -/
structure HidesSuite (selection : Selection) (lexis : Lexis) (text : List Char) (indent : Nat)
    (ending : Line) (column : Nat) : Prop where
  behind : ∀ l ∈ selection.lines, l.row = ending.row → endsBare ending column = false →
    l.text = ending.text.take (column + 1) ++ ' ' :: elision ∨ l = elideLine ending
  below : ∀ l ∈ selection.lines, InSuite lexis text indent ending column l.row →
    ∃ line, (lines text)[l.row]? = some line ∧ l = elideLine ⟨l.row, line⟩
  once : ∀ l ∈ selection.lines, ∀ l' ∈ selection.lines, HasSuite lexis text indent ending column l.row →
    HasSuite lexis text indent ending column l'.row → l = l'

/-! ## The first line of a header

On the line where a function starts, the outliner knows the colon by its own search. There are three ways to go on:
into the block, if the colon is bare; past the code behind it; or, without a colon, into the header while a bracket
is open.
-/

section

variable {lexis : Lexis} {text line : List Char} {row indent column : Nat} {s s' : State} {r : Reading}

/-- What the first line of a function does to the state. -/
theorem LevelStep.of_def (h : LevelStep s r s') (hstart : r.isContinued = false)
    (hdef : defHeader.isIn r.trimmed = true) :
    match headerColon? r.trimmed with
    | some column =>
      if isBare (r.trimmed.drop (column + 1)) then s'.mode = .body r.indent false
      else s'.mode = .outline ∧ s'.waitingOpen = false ∧
        s'.selection = s.selection.keep (cutAtColon r column)
    | none => 0 < r.depth → s'.mode = .header r.indent false := by
  obtain ⟨c, rest, htrimmed, hc, hclass, himport⟩ := starts_of_defHeader hdef
  have hheader : r.isHeader = true := by simp [Reading.isHeader, himport, hdef]
  -- Only the steps of a header remain, and these are told apart by the colon and by what stands behind it.
  cases h with
  | waiting hin _ => exact absurd hin (by simp [hstart])
  | within hin _ => exact absurd hin (by simp [hstart])
  | blank _ hnil => exact absurd hnil (by simp [htrimmed])
  | decorator _ _ hhead =>
    rw [htrimmed, List.head?_cons, Option.some.injEq, Option.some.injEq] at hhead
    rcases hc with rfl | rfl <;> exact absurd hhead (by decide)
  | statement _ hkept => simp [State.keepsStatement, himport, hheader] at hkept
  | block _ _ hcolon hbare =>
    rw [hcolon, hclass]
    simp only [hbare, if_true]
    rfl
  | oneLineClass _ _ _ _ hclass' => exact absurd hclass' (by simp [hclass])
  | oneLineDef _ _ hcolon hbare _ =>
    rw [hcolon]
    simp only [hbare, Bool.false_eq_true, if_false]
    exact ⟨rfl, rfl, trivial⟩
  | header _ _ hcolon _ =>
    rw [hcolon, hclass]
    exact fun _ => rfl
  | noColon _ _ hcolon hdepth =>
    rw [hcolon]
    exact fun hopen => by omega
  | other _ hheader' _ => exact absurd hheader (by simp [hheader'])

/-- Inside a header every line is kept, and the header ends with a colon at the end of a line. -/
theorem Step.eq_of_header {isClass : Bool} (h : Step s r s') (hmode : s.mode = .header indent isClass) :
    s' = if r.endsHeader then
        State.enterBlock { s.moved r with selection := s.selection.keep r.line } indent isClass
      else { s.moved r with selection := s.selection.keep r.line } := by
  cases h with
  | header hmode' hopen => rw [hopen, if_neg Bool.false_ne_true]
  | headerEnd hmode' hends =>
    rw [hmode, Mode.header.injEq] at hmode'
    obtain ⟨rfl, rfl⟩ := hmode'
    rw [if_pos hends]
  | continuing hmode' => rw [hmode] at hmode'; cases hmode'
  | mark hmode' _ _ => rw [hmode] at hmode'; cases hmode'
  | body hmode' _ _ => rw [hmode] at hmode'; cases hmode'
  | level hlevel _ => rw [State.isLevel, hmode] at hlevel; cases hlevel

/-- Where the brackets of its first lines are open, a header reaches the line of its colon. -/
theorem mode_of_headerEnds {last : Nat} {t : State} {q : Reading} {isClass : Bool}
    (hrun : run? lexis .initial 0 (lines text) = some s')
    (hread : readAt? lexis text row = some (s, r)) (hmode : (s.apply r).mode = .header indent isClass)
    (hends : HeaderEnds lexis text row last column) (hlt : row < last)
    (hlast : readAt? lexis text last = some (t, q)) : t.mode = .header indent isClass := by
  obtain ⟨-, line, hline, -⟩ := readAt?_eq_some.mp hlast
  have hlength := (List.getElem?_eq_some_iff.mp hline).1
  have hnextlength : row + 1 < (lines text).length := by omega
  obtain ⟨u, v, hnext⟩ := exists_readAt? hrun hnextlength
  refine readAt?_invariant (P := fun t => t.mode = .header indent isClass) hrun hnext ?_ hlt ?_ hlast
  · rw [← apply_of_readAt?_succ hread hnext]
    exact hmode
  · intro j s r hj hjlt hj' hs
    obtain ⟨s₁, r₁, hread₁, -, hdepth⟩ := hends.above j (by omega) hjlt
    obtain ⟨rfl, rfl⟩ := readAt?_inj hj' hread₁
    have hopen : ¬r.endsHeader = true := by
      simp only [Reading.endsHeader, decide_eq_true_eq, not_and]
      omega
    rw [(step_apply s r).eq_of_header hs, if_neg hopen]
    exact hs

/-! ## The lines of a block

Inside a block, the elision mark takes the place of the first line that is not blank, and from then on no line is
shown until one is indented no further than the function.
-/

/-- A line of a block is not shown, or the elision mark stands for it and for all that follow. -/
theorem Step.of_body {marked : Bool} (h : Step s r s') (hmode : s.mode = .body indent marked)
    (hin : r.isInBody indent = true) :
    s' = s.moved r ∨ marked = false ∧
      s' = { s.moved r with selection := s.selection.keep (elideLine r.line), mode := .body indent true } := by
  cases h with
  | header hmode' _ => rw [hmode] at hmode'; cases hmode'
  | headerEnd hmode' _ => rw [hmode] at hmode'; cases hmode'
  | continuing hmode' => rw [hmode] at hmode'; cases hmode'
  | mark hmode' _ _ =>
    rw [hmode, Mode.body.injEq] at hmode'
    obtain ⟨rfl, rfl⟩ := hmode'
    exact .inr ⟨rfl, rfl⟩
  | body _ _ _ => exact .inl rfl
  | level hlevel _ =>
    rw [State.isLevel, hmode] at hlevel
    simp [hin] at hlevel

/-- A line that goes on with what was dropped is dropped. -/
theorem Step.of_isContinued (h : Step s r s') (hmode : s.mode = .outline)
    (hwaiting : s.waitingOpen = false) (hin : r.isContinued = true) :
    s' = { s.moved r with mode := .outline } := by
  have hnot : r.isStatement ≠ true := by simp [Reading.isStatement, hin]
  cases h.levelStep (by rw [State.isLevel, hmode]) with
  | waiting _ hopen => rw [hwaiting] at hopen; cases hopen
  | within _ _ => rfl
  | blank hin' _ => rw [hin] at hin'; cases hin'
  | decorator hin' _ _ => rw [hin] at hin'; cases hin'
  | statement hstarts _ => exact absurd hstarts hnot
  | block hstarts _ _ _ => exact absurd hstarts hnot
  | oneLineClass hstarts _ _ _ _ => exact absurd hstarts hnot
  | oneLineDef hstarts _ _ _ _ => exact absurd hstarts hnot
  | header hstarts _ _ _ => exact absurd hstarts hnot
  | noColon hstarts _ _ _ => exact absurd hstarts hnot
  | other hstarts _ _ => exact absurd hstarts hnot

/-! ## Suites that are hidden

A suite is hidden in one of two ways: the block is entered, and its lines become one mark, or the line is cut at
the colon, and all that goes on with it is dropped. Either way the lines of the suite are read in states that are
known from the line of the colon on.
-/

variable {t : State} {q : Reading}

/-- Of a block that the outliner is inside of, only the line is shown on which it puts the mark. -/
theorem shown_of_inSuite (hrun : run? lexis .initial 0 (lines text) = some s')
    (hread : readAt? lexis text row = some (t, q)) (hbare : endsBare q.line column = true)
    (hmode : (t.apply q).mode = .body indent false) {l : Line} (hl : l ∈ s'.selection.lines)
    (hin : InSuite lexis text indent q.line column l.row) :
    ∃ u v, readAt? lexis text l.row = some (u, v) ∧ u.mode = .body indent false ∧
      (u.apply v).mode = .body indent true ∧ l = elideLine v.line := by
  obtain ⟨hrow, -⟩ := line_of_readAt? hread
  obtain ⟨hlt, hlines⟩ := hin
  simp only [hbare, if_true, hrow] at hlt hlines
  obtain ⟨u₁, v₁, hnext, -⟩ := hlines (row + 1) (Nat.lt_succ_self row) hlt
  obtain ⟨u, v, hl', hbody⟩ := hlines l.row hlt (Nat.le_refl _)
  -- Up to this line the outliner has stayed in the body, with or without its elision mark.
  have hmodes : ∃ marked, u.mode = .body indent marked := by
    refine readAt?_invariant (P := fun u => ∃ marked, u.mode = .body indent marked) hrun hnext ?_ hlt
      ?_ hl'
    · rw [← apply_of_readAt?_succ hread hnext]
      exact ⟨false, hmode⟩
    · rintro j u v hj hjlt hread' ⟨marked, hu⟩
      obtain ⟨u', v', hread'', hbody'⟩ := hlines j hj (Nat.le_of_lt hjlt)
      obtain ⟨rfl, rfl⟩ := readAt?_inj hread' hread''
      rcases (step_apply u v).of_body hu hbody' with hstep | ⟨-, hstep⟩
      · exact ⟨marked, by rw [hstep]; exact hu⟩
      · exact ⟨true, by rw [hstep]⟩
  obtain ⟨marked, hu⟩ := hmodes
  obtain ⟨hhas, hnew⟩ := has_apply_of_mem_lines hl' hrun hl rfl
  rcases (step_apply u v).of_body hu hbody with hstep | ⟨rfl, hstep⟩
  · rw [hstep] at hhas
    exact absurd hhas hnew
  · rw [hstep] at hhas
    exact ⟨u, v, hl', hu, by rw [hstep], (Selection.has_keep hhas).resolve_right hnew⟩

/-- A suite is hidden if the outliner enters the block behind a bare colon. -/
theorem hidesSuite_of_body (hrun : run? lexis .initial 0 (lines text) = some s')
    (hread : readAt? lexis text row = some (t, q)) (hbare : endsBare q.line column = true)
    (hmode : (t.apply q).mode = .body indent false) :
    HidesSuite s'.selection lexis text indent q.line column := by
  have hshown := fun l => shown_of_inSuite hrun hread hbare hmode (l := l)
  have hsuite : ∀ {k}, HasSuite lexis text indent q.line column k →
      InSuite lexis text indent q.line column k := by
    rintro k (hin | ⟨-, hcode⟩)
    · exact hin
    · rw [hbare] at hcode
      cases hcode
  -- Below a line with the mark the block is marked, so no further line is.
  have hless : ∀ l ∈ s'.selection.lines, ∀ l' ∈ s'.selection.lines,
      InSuite lexis text indent q.line column l.row → InSuite lexis text indent q.line column l'.row →
      ¬l.row < l'.row := by
    intro l hl l' hl' hin hin' hlt
    obtain ⟨u, v, hlread, -, hmarked, -⟩ := hshown l hl hin
    obtain ⟨u', v', hlread', hopen, -, -⟩ := hshown l' hl' hin'
    have hlength : l.row + 1 < (lines text).length :=
      Nat.lt_of_le_of_lt hlt (List.getElem?_eq_some_iff.mp (line_of_readAt? hlread').2).1
    obtain ⟨u₁, v₁, hnext⟩ := exists_readAt? hrun hlength
    have hmarked' : u'.mode = .body indent true := by
      refine readAt?_invariant (P := fun u => u.mode = .body indent true) hrun hnext ?_ hlt ?_ hlread'
      · rw [← apply_of_readAt?_succ hlread hnext]
        exact hmarked
      · intro j u v hj hjlt hread' hu
        obtain ⟨u', v', hread'', hbody'⟩ := hin'.2 j (by have := hin.1; omega) (Nat.le_of_lt hjlt)
        obtain ⟨rfl, rfl⟩ := readAt?_inj hread' hread''
        rw [hbare, if_pos rfl] at hbody'
        rcases (step_apply u v).of_body hu hbody' with hstep | ⟨hno, -⟩
        · rw [hstep]
          exact hu
        · cases hno
    rw [hopen] at hmarked'
    cases hmarked'
  refine ⟨fun l hl hrow hcode => absurd hbare (by simp [hcode]), fun l hl hin => ?_, ?_⟩
  · obtain ⟨u, v, hlread, -, -, hmark⟩ := hshown l hl hin
    obtain ⟨hrow, hline⟩ := line_of_readAt? hlread
    refine ⟨v.line.text, hline, hmark.trans ?_⟩
    rw [← hrow]
  · intro l hl l' hl' hin hin'
    have hin := hsuite hin
    have hin' := hsuite hin'
    have hrow : l.row = l'.row := Nat.le_antisymm (Nat.le_of_not_lt (hless l' hl' l hl hin' hin))
      (Nat.le_of_not_lt (hless l hl l' hl' hin hin'))
    obtain ⟨u, v, hlread, -, -, hmark⟩ := hshown l hl hin
    obtain ⟨u', v', hlread', -, -, hmark'⟩ := hshown l' hl' hin'
    rw [← hrow] at hlread'
    rw [hmark, hmark', (readAt?_inj hlread hlread').2]

/-- A suite behind the colon is hidden if the line is cut at it and nothing is shown below. -/
theorem hidesSuite_of_behind {selection : Selection} {ending : Line}
    (hbehind : ∀ l ∈ selection.lines, l.row = ending.row →
      l.text = ending.text.take (column + 1) ++ ' ' :: elision)
    (hbelow : ∀ l ∈ selection.lines, ¬InSuite lexis text indent ending column l.row) :
    HidesSuite selection lexis text indent ending column := by
  refine ⟨fun l hl hrow _ => .inl (hbehind l hl hrow), fun l hl hin => absurd hin (hbelow l hl), ?_⟩
  intro l hl l' hl' hin hin'
  have hrow := (hin.resolve_left (hbelow l hl)).1
  have hrow' := (hin'.resolve_left (hbelow l' hl')).1
  have htext : l.text = l'.text := (hbehind l hl hrow).trans (hbehind l' hl' hrow').symm
  have heq : l.row = l'.row := hrow.trans hrow'.symm
  cases l
  cases l'
  rw [Line.mk.injEq]
  exact ⟨heq, htext⟩

/-- What is known where a function starts. -/
theorem startsDef_eq_true (hread : readAt? lexis text row = some (s, r))
    (hdef : s.startsDef r = true) :
    s.isLevel r = true ∧ r.isContinued = false ∧ defHeader.isIn r.trimmed = true ∧
      s.inside = .code ∧ s.depth = 0 := by
  simp only [State.startsDef, Bool.and_eq_true, Bool.not_eq_true'] at hdef
  obtain ⟨⟨hlevel, hstart⟩, hdef⟩ := hdef
  obtain ⟨-, line, -, hr⟩ := readAt?_eq_some.mp hread
  refine ⟨hlevel, hstart, hdef, ?_⟩
  rw [Reading.isContinued, Reading.startsInside_eq hr, Reading.start_eq hr] at hstart
  simpa using hstart

/-- What goes on with code behind the colon of a one-line header is dropped with it. -/
theorem not_inSuite_of_outline (hrun : run? lexis .initial 0 (lines text) = some s')
    (hread : readAt? lexis text row = some (t, q)) (hcode : endsBare q.line column = false)
    (hmode : (t.apply q).mode = .outline) (hwaiting : (t.apply q).waitingOpen = false) {l : Line}
    (hl : l ∈ s'.selection.lines) : ¬InSuite lexis text indent q.line column l.row := by
  rintro ⟨hlt, hlines⟩
  simp only [hcode, Bool.false_eq_true, if_false, (line_of_readAt? hread).1] at hlt hlines
  obtain ⟨u₁, v₁, hnext, -⟩ := hlines (row + 1) (Nat.lt_succ_self row) hlt
  obtain ⟨u, v, hl', hin⟩ := hlines l.row hlt (Nat.le_refl _)
  obtain ⟨hu, huwaiting⟩ : u.mode = .outline ∧ u.waitingOpen = false := by
    refine readAt?_invariant (P := fun u => u.mode = .outline ∧ u.waitingOpen = false) hrun hnext ?_ hlt
      ?_ hl'
    · rw [← apply_of_readAt?_succ hread hnext]
      exact ⟨hmode, hwaiting⟩
    · rintro j u v hj hjlt hread' ⟨hu, huwaiting⟩
      obtain ⟨u', v', hread'', hin'⟩ := hlines j hj (Nat.le_of_lt hjlt)
      obtain ⟨rfl, rfl⟩ := readAt?_inj hread' hread''
      rw [(step_apply u v).of_isContinued hu huwaiting hin']
      exact ⟨rfl, huwaiting⟩
  obtain ⟨hhas, hnew⟩ := has_apply_of_mem_lines hl' hrun hl rfl
  rw [(step_apply u v).of_isContinued hu huwaiting hin] at hhas
  exact hnew hhas

/-- Nothing goes on with code behind the colon if the line ends outside all brackets and literals. -/
theorem not_inSuite_of_code (hread : readAt? lexis text row = some (t, q))
    (hcode : endsBare q.line column = false) (hdepth : q.depth = 0) (hinside : q.inside = .code)
    (k : Nat) : ¬InSuite lexis text indent q.line column k := by
  rintro ⟨hlt, hlines⟩
  simp only [hcode, Bool.false_eq_true, if_false, (line_of_readAt? hread).1] at hlt hlines
  obtain ⟨u, v, hnext, hin⟩ := hlines (row + 1) (Nat.lt_succ_self row) hlt
  obtain ⟨-, line, -, hv⟩ := readAt?_eq_some.mp hnext
  obtain ⟨hinside', hdepth'⟩ := (step_apply t q).inside
  rw [← apply_of_readAt?_succ hread hnext, hinside', hdepth', hinside, hdepth] at hv
  rw [Reading.isContinued, Reading.startsInside_eq hv, Reading.start_eq hv] at hin
  cases hin

/-- A one-line header hides its suite, whatever stands behind its colon. -/
theorem hidesSuite_of_startsDef (hrun : run? .hashes .initial 0 (lines text) = some s')
    (hread : readAt? .hashes text row = some (s, r)) (hdef : s.startsDef r = true)
    (hfence : HasNoFence r.line.text)
    (hcolon : colonFrom .hashes s.inside s.depth 0 r.line.text = some column) :
    HidesSuite s'.selection .hashes text r.indent r.line column := by
  obtain ⟨hlevel, hstart, hdef, hinside, hdepth⟩ := startsDef_eq_true hread hdef
  obtain ⟨-, line, -, hr⟩ := readAt?_eq_some.mp hread
  rw [hinside, hdepth] at hr hcolon
  rw [← Reading.line_eq hr] at hr
  rw [colonFrom_eq_headerColon? hr hfence, Option.map_eq_some_iff] at hcolon
  obtain ⟨c, hsearch, rfl⟩ := hcolon
  have hbare : endsBare r.line ((leadingBlanks r.line.text).length + c) =
      isBare (r.trimmed.drop (c + 1)) := isBare_drop hr hsearch
  have hstep := ((step_apply s r).levelStep hlevel).of_def hstart hdef
  rw [hsearch] at hstep
  simp only at hstep
  split at hstep
  · next hblock => exact hidesSuite_of_body hrun hread (hbare.trans hblock) hstep
  · next hcode =>
    obtain ⟨hmode, hwaiting, hselection⟩ := hstep
    refine hidesSuite_of_behind (fun l hl hrow => ?_) fun l hl =>
      not_inSuite_of_outline hrun hread (hbare.trans (Bool.eq_false_iff.mpr hcode)) hmode hwaiting hl
    obtain ⟨hhas, hnew⟩ := has_apply_of_mem_lines hread hrun hl (hrow.trans (line_of_readAt? hread).1)
    rw [hselection] at hhas
    rw [(Selection.has_keep hhas).resolve_right hnew]
    exact text_cutAtColon hr hsearch

/-- Behind a bare colon, or one that the elision mark stands behind already, a line ends in code. -/
theorem depth_of_colonFrom (hread : readAt? .hashes text row = some (t, q))
    (hcolon : colonFrom .hashes t.inside t.depth 0 q.line.text = some column)
    (hquiet : endsBare q.line column = true ∨ q.line.text.drop (column + 1) = ' ' :: elision) :
    q.depth = 0 ∧ q.inside = .code := by
  obtain ⟨-, line, -, hq⟩ := readAt?_eq_some.mp hread
  rw [Reading.line_eq hq] at hcolon hquiet
  obtain ⟨depth, hvalid, rfl⟩ := Reading.of?_eq_some hq
  refine scanFrom_of_colonFrom hcolon (fun k => ?_) hvalid
  rcases hquiet with hbare | hmark
  · exact scanFrom_of_isBare hbare k
  · have hdrop : line.drop (column + 1 - 0) = [' '] ++ elision := hmark
    have hblank : ∀ c ∈ [' '], isBlank c = true := by
      intro c hc
      rw [List.mem_singleton.mp hc]
      rfl
    rw [hdrop, scanFrom_append_left hblank]
    have htoken := nextToken_of_plain (c := '.') (by decide) (by decide) (by decide)
    have hbracket : isBracket '.' = false := rfl
    simp [elision, scanFrom, htoken, hbracket]

/-- A header of several lines hides its suite if its last line ends with a colon, and no code stands behind it. -/
theorem hidesSuite_of_header (hrun : run? .hashes .initial 0 (lines text) = some s')
    (hread : readAt? .hashes text row = some (t, q)) (hmode : t.mode = .header indent false)
    (hcolon : colonFrom .hashes t.inside t.depth 0 q.line.text = some column)
    (hends : endsBare q.line column = true ∧ q.trimmed.getLast? = some ':' ∨
      q.line.text.drop (column + 1) = ' ' :: elision) :
    HidesSuite s'.selection .hashes text indent q.line column := by
  obtain ⟨hdepth, hinside⟩ := depth_of_colonFrom hread hcolon (hends.imp_left And.left)
  have hstep := (step_apply t q).eq_of_header hmode
  -- The line ends the header and the body begins behind it, or it holds the elision mark already and is kept
  -- as it is.
  rcases hends with ⟨hbare, hlast⟩ | hmark
  · have hend : q.endsHeader = true := decide_eq_true ⟨hdepth, hlast⟩
    refine hidesSuite_of_body hrun hread hbare ?_
    rw [hstep, if_pos hend]
    rfl
  · have hcode : endsBare q.line column = false := by
      rw [endsBare, hmark]
      rfl
    refine hidesSuite_of_behind (fun l hl hrow => ?_) fun l _ =>
      not_inSuite_of_code hread hcode hdepth hinside l.row
    obtain ⟨hhas, hnew⟩ := has_apply_of_mem_lines hread hrun hl (hrow.trans (line_of_readAt? hread).1)
    have hkept : (t.apply q).selection = t.selection.keep q.line := by
      rw [hstep]
      split
      · exact State.selection_enterBlock _ _ _
      · rfl
    rw [hkept] at hhas
    rw [(Selection.has_keep hhas).resolve_right hnew, ← hmark, List.take_append_drop]

end

end RepoScope.Outline.Indented
