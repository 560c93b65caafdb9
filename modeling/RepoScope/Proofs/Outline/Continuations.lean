import RepoScope.Outline
import RepoScope.Proofs.Outline.Bodies

/-!
# Lines that bring the outliner back

Whatever an outliner that is not inside an import has read, a few short lines bring it back to outline
level, and a few more close all braces. A body that the outliner does not cover stays open all along, so
the line that comes next stands inside the body and is selected (`exists_path_kept`). A line that still
waits is kept if a declaration follows (`exists_path_flushed`).

The continuations are paths: runs that stay above a depth, over lines with at most one bracket each.
-/

namespace RepoScope.Outline.Braces

/-! ## Paths

A text that is cut off behind any line may be told apart from others only by how it goes on. So that what follows
can be chosen freely, a path is a run over chosen lines with two promises: it stays above a depth, and no line has
more than one bracket. By the second, the depths at the ends of lines are all the depths there are (`lt_height`),
so the first says that nothing that is open at that depth is closed by the path.
-/

/-- A run over lines with at most one bracket each that stays above a depth. -/
inductive Path (lexis : Lexis) (depth : Int) : State → Nat → List (List Char) → State → Prop
  | nil {s : State} {row : Nat} (h : depth < s.depth) : Path lexis depth s row [] s
  | cons {s next s' : State} {row : Nat} {line : List Char} {rest : List (List Char)}
      (h : depth < s.depth) (hlf : '\n' ∉ line) (hone : (scanLine lexis s.inside line).1.length ≤ 1)
      (hstep : step? lexis s ⟨row, line⟩ = some next)
      (hrest : Path lexis depth next (row + 1) rest s') : Path lexis depth s row (line :: rest) s'

namespace Path

variable {lexis : Lexis} {depth : Int} {s s' : State} {row : Nat} {ls : List (List Char)}

/-- A path is a run. -/
theorem run? (h : Path lexis depth s row ls s') : Braces.run? lexis s row ls = some s' := by
  induction h with
  | nil _ => rfl
  | cons _ _ _ hstep _ ih => exact run?_cons.mpr ⟨_, hstep, ih⟩

/-- The lines of a path can be written one below the other. -/
theorem lf_notMem (h : Path lexis depth s row ls s') : ∀ line ∈ ls, '\n' ∉ line := by
  induction h with
  | nil _ => simp
  | cons _ hlf _ _ _ ih => simpa using ⟨hlf, ih⟩

theorem lt_depth (h : Path lexis depth s row ls s') : depth < s.depth := by
  cases h with
  | nil h => exact h
  | cons h _ _ _ _ => exact h

theorem lt_depth_end (h : Path lexis depth s row ls s') : depth < s'.depth := by
  induction h with
  | nil h => exact h
  | cons _ _ _ _ _ ih => exact ih

/-- A path that stays above a depth stays above any lower one. -/
theorem mono {depth' : Int} (h : Path lexis depth s row ls s') (hle : depth' ≤ depth) :
    Path lexis depth' s row ls s' := by
  induction h with
  | nil h => exact .nil (Int.lt_of_le_of_lt hle h)
  | cons h hlf hone hstep _ ih => exact .cons (Int.lt_of_le_of_lt hle h) hlf hone hstep ih

/-- Paths are put together where one ends in the state that the other starts from. -/
theorem append {s'' : State} {ls' : List (List Char)} (h : Path lexis depth s row ls s')
    (h' : Path lexis depth s' (row + ls.length) ls' s'') :
    Path lexis depth s row (ls ++ ls') s'' := by
  induction h with
  | nil _ => exact h'
  | @cons s next s' row line rest h hlf hone hstep _ ih =>
    rw [List.length_cons, Nat.add_comm rest.length, ← Nat.add_assoc] at h'
    exact .cons h hlf hone hstep (ih h')

/-- A path over one line. -/
theorem single {next : State} {line : List Char} (h : depth < s.depth) (hlf : '\n' ∉ line)
    (hone : (scanLine lexis s.inside line).1.length ≤ 1)
    (hstep : step? lexis s ⟨row, line⟩ = some next) (hnext : depth < next.depth) :
    Path lexis depth s row [line] next :=
  .cons h hlf hone hstep (.nil hnext)

/-- At every point of a path, the brackets so far leave the depth above its bound. -/
theorem lt_height (h : Path lexis depth s row ls s') {first : List Mark}
    (hfirst : first <+: marksFrom lexis s.inside row ls) :
    depth < s.depth + Mark.height first := by
  -- A line has one bracket at most, so its depths are those at its ends.
  induction h generalizing first with
  | nil h =>
    rw [marksFrom, List.prefix_nil] at hfirst
    subst hfirst
    simpa using h
  | @cons s next s' row line rest h hlf hone hstep hrest ih =>
    obtain ⟨r, hr, rfl⟩ := step?_eq_some.mp hstep
    have hinside : (s.apply r).inside = (scanLine lexis s.inside line).2 :=
      (step_apply s r).inside.1.trans (Reading.inside_eq hr)
    have hdepth : ((s.apply r).depth : Int)
        = s.depth + height (scanLine lexis s.inside line).1 := by
      rw [(step_apply s r).inside.2, Reading.depth_eq hr]
    have hends : depth < (s.apply r).depth := hrest.lt_depth
    rw [marksFrom] at hfirst
    -- A prefix ends with the brackets of the line or before, or goes on behind them.
    rcases List.prefix_or_prefix_of_prefix hfirst (List.prefix_append _ _) with hline | ⟨more, rfl⟩
    · rcases hbs : (scanLine lexis s.inside line).1 with _ | ⟨b, _ | ⟨b', bs⟩⟩
      · rw [hbs, List.map_nil, List.prefix_nil] at hline
        subst hline
        simpa using h
      · rw [hbs, List.map_singleton] at hline
        rcases List.prefix_cons_iff.mp hline with rfl | ⟨tail, rfl, htail⟩
        · simpa using h
        · rw [List.prefix_nil.mp htail]
          rw [hdepth, hbs] at hends
          simpa using hends
      · rw [hbs] at hone
        simp at hone
    · rw [List.prefix_append_right_inj, ← hinside] at hfirst
      have hmore := ih hfirst
      rw [Mark.height_append, Mark.height_map]
      omega

end Path

/-! ## Short lines

All continuations are put together from five lines: the delimiter that ends what a position is inside of, a blank
line, a closing brace, a closing parenthesis and a word. Each is read in the same way in every language with braces
(`scanLine_short`), so a step over it depends on the mode alone. The lemmas go from one step (`exists_step_…`) to
runs out of each mode (`exists_path_of_skip`, `exists_path_of_value`), by induction on what is still open, and from
there to runs that show a line or end the text.
-/

/-- The reading of a line that opens no block and ends in code. -/
def shortReading (line : Line) (startsInside : Bool) (start depth : Nat) (parens : Int) : Reading :=
  { line, trimmed := Text.trim line.text, startsInside, inside := .code, start, depth, parens
    openAt := none }

section

variable {lexis : Lexis} {s : State} {text : List Char}

/-- How a short line without brackets is read. -/
theorem of?_of_scan_nil (row : Nat) (h : scanLine lexis s.inside text = ([], .code)) :
    Reading.of? lexis s.inside s.depth ⟨row, text⟩
      = some (shortReading ⟨row, text⟩ (s.inside != .code) s.depth s.depth 0) := by
  rw [Reading.of?, h]
  rfl

/-- How a line with a closing brace is read, where one is open. -/
theorem of?_of_scan_brace {column depth : Nat} (row : Nat) (hinside : s.inside = .code)
    (h : scanLine lexis .code text = ([⟨column, '}'⟩], .code)) (hdepth : s.depth = depth + 1) :
    Reading.of? lexis s.inside s.depth ⟨row, text⟩
      = some (shortReading ⟨row, text⟩ false s.depth depth 0) := by
  rw [Reading.of?, hinside, h, hdepth]
  rfl

/-- How a line with a closing parenthesis is read. It may be one that nothing has opened. -/
theorem of?_of_scan_paren {column : Nat} (row : Nat) (hinside : s.inside = .code)
    (h : scanLine lexis .code text = ([⟨column, ')'⟩], .code)) :
    Reading.of? lexis s.inside s.depth ⟨row, text⟩
      = some (shortReading ⟨row, text⟩ false s.depth s.depth (-1)) := by
  rw [Reading.of?, hinside, h]
  rfl

/-- A short line without brackets, behind code. -/
theorem of?_of_code (row : Nat) (hinside : s.inside = .code)
    (h : scanLine lexis .code text = ([], .code)) :
    Reading.of? lexis s.inside s.depth ⟨row, text⟩
      = some (shortReading ⟨row, text⟩ false s.depth s.depth 0) := by
  rw [Reading.of?, hinside, h]
  rfl

end

/-- The line that ends what a position is inside of. -/
def closer : Inside → List Char
  | .code => []
  | .comment => "*/".toList
  | .literal fence => fence.text

/-- The delimiter ends what the line starts inside of, and is no bracket. -/
theorem scanLine_closer (lexis : Lexis) (inside : Inside) :
    scanLine lexis inside (closer inside) = ([], .code) := by
  cases inside with
  | code => simp [scanLine, closer, scanFrom]
  | comment => simp [scanLine, closer, scanFrom, nextToken]
  | literal fence => cases fence <;> simp [scanLine, closer, scanFrom, nextToken, Fence.text]

/-- The short lines that are written below, as a lexis with slashes for comments reads them. -/
theorem scanLine_short {lexis : Lexis} (h : lexis.lineComment = "//".toList) :
    scanLine lexis .code [] = ([], .code) ∧ scanLine lexis .code ['x'] = ([], .code) ∧
    scanLine lexis .code "fn x;".toList = ([], .code) ∧
    scanLine lexis .code ['}'] = ([⟨0, '}'⟩], .code) ∧
    scanLine lexis .code [')'] = ([⟨0, ')'⟩], .code) := by
  refine ⟨?_, ?_, ?_, ?_, ?_⟩ <;>
    simp [scanLine, scanFrom, nextToken, h, Fence.text, isBracket]

/-- Whether a mode is that of no import, and leaves out no body that opened at this depth. -/
def Mode.Exposes (mode : Mode) (depth : Int) : Prop :=
  match mode with
  | .outline => True
  | .skip floor => depth < floor
  | .value floor _ _ => depth < floor
  | .importing .. => False

section

variable {lexis : Lexis} {depth : Int} {s : State}

/-- What opened at a lower depth is exposed as well. -/
theorem Mode.Exposes.mono {depth' : Int} {mode : Mode} (h : mode.Exposes depth) (hle : depth' ≤ depth) :
    mode.Exposes depth' := by
  cases mode with
  | outline => trivial
  | skip floor => exact Int.lt_of_le_of_lt hle h
  | importing floor parens => exact h.elim
  | value floor parens indent => exact Int.lt_of_le_of_lt hle h

/-- A line that is read makes a step. -/
theorem exists_step {line : Line} {r : Reading}
    (hr : Reading.of? lexis s.inside s.depth line = some r) :
    ∃ next, step? lexis s line = some next ∧ Step s r next :=
  ⟨s.apply r, step?_eq_some.mpr ⟨r, hr, rfl⟩, step_apply s r⟩

/-- What a position is inside of can be ended without leaving outline level or losing what waits. -/
theorem exists_step_closer (row : Nat) (hexposes : s.mode.Exposes depth) (hinside : s.inside ≠ .code) :
    ∃ next, step? lexis s ⟨row, closer s.inside⟩ = some next ∧ next.inside = .code ∧
      next.depth = s.depth ∧ next.mode.Exposes depth ∧
      (s.mode = .outline → next.mode = .outline ∧ ∀ l, s.selection.Has l → next.selection.Has l) := by
  have hr : Reading.of? lexis s.inside s.depth ⟨row, closer s.inside⟩
      = some (shortReading ⟨row, closer s.inside⟩ (s.inside != .code) s.depth s.depth 0) :=
    of?_of_scan_nil row (scanLine_closer lexis s.inside)
  have hstarts : (s.inside != .code) = true := by simpa using hinside
  have hne : Text.trim (closer s.inside) ≠ [] := by
    cases hi : s.inside with
    | code => exact absurd hi hinside
    | comment => decide
    | literal fence => cases fence <;> decide
  obtain ⟨next, hnext, hstep⟩ := exists_step hr
  refine ⟨next, hnext, hstep.inside.1, hstep.inside.2, ?_⟩
  cases hstep with
  | @skip floor hmode =>
    rw [hmode] at hexposes ⊢
    refine ⟨?_, fun h => by cases h⟩
    simp only []
    split
    · trivial
    · exact hexposes
  | importing hmode =>
    rw [hmode] at hexposes
    exact hexposes.elim
  | @value floor parens indent hmode _ =>
    rw [hmode] at hexposes ⊢
    refine ⟨?_, fun h => by cases h⟩
    simp only []
    split
    · trivial
    · exact hexposes
  | level hlevel hlevelStep =>
    -- The line starts inside what it ends, so it is not read as code.
    have hcode : (shortReading ⟨row, closer s.inside⟩ (s.inside != .code) s.depth s.depth 0).isCode
        = false := by
      rw [Reading.isCode, shortReading, hstarts]
      rfl
    rcases hlevelStep.of_isCode_eq_false hne hcode with rfl | rfl | rfl
    · exact ⟨trivial, fun _ => ⟨rfl, fun l hl => hl⟩⟩
    · exact ⟨trivial, fun _ => ⟨rfl, fun l hl => .inl (Selection.mem_kept_keep_of_has hl)⟩⟩
    · exact ⟨trivial, fun _ => ⟨rfl, fun l hl => hl.imp_right (List.mem_cons_of_mem _)⟩⟩

/-- A blank line at outline level ends the header above it. -/
theorem exists_step_blank (lexis : Lexis) (row : Nat) (hinside : s.inside = .code)
    (hlevel : s.isLevel (shortReading ⟨row, []⟩ false s.depth s.depth 0) = true) :
    ∃ next, step? lexis s ⟨row, []⟩ = some next ∧ next.inside = .code ∧ next.depth = s.depth ∧
      next.mode = .outline ∧ next.header = none := by
  have hr : Reading.of? lexis s.inside s.depth ⟨row, []⟩
      = some (shortReading ⟨row, []⟩ false s.depth s.depth 0) :=
    of?_of_code row hinside (scanLine_closer lexis .code)
  obtain ⟨next, hnext, hstep⟩ := exists_step hr
  refine ⟨next, hnext, hstep.inside.1, hstep.inside.2, ?_⟩
  rw [(hstep.levelStep hlevel).of_trimmed_eq_nil rfl]
  exact ⟨rfl, rfl⟩

/-- A line of a body ends it if nothing is open above the floor behind the line. -/
theorem exists_step_of_skip {line : Line} {r : Reading} {floor : Nat}
    (hr : Reading.of? lexis s.inside s.depth line = some r) (hmode : s.mode = .skip floor) :
    ∃ next, step? lexis s line = some next ∧ next.inside = r.inside ∧ next.depth = r.depth ∧
      next.mode = if r.depth ≤ floor then .outline else .skip floor := by
  obtain ⟨next, hnext, hstep⟩ := exists_step hr
  exact ⟨next, hnext, hstep.inside.1, hstep.inside.2, by rw [hstep.eq_of_skip hmode]⟩

/-- A line of an initializer ends it if nothing is open behind the line and it ends a statement. -/
theorem exists_step_of_value {line : Line} {r : Reading} {floor indent : Nat} {parens : Int}
    (hr : Reading.of? lexis s.inside s.depth line = some r)
    (hmode : s.mode = .value floor parens indent)
    (hpast : r.isPastValue floor parens indent = false) :
    ∃ next, step? lexis s line = some next ∧ next.inside = r.inside ∧ next.depth = r.depth ∧
      next.mode = if r.depth ≤ floor ∧ parens + r.parens ≤ 0 ∧ r.endsStatement then .outline
        else .value floor (parens + r.parens) indent := by
  obtain ⟨next, hnext, hstep⟩ := exists_step hr
  exact ⟨next, hnext, hstep.inside.1, hstep.inside.2, by rw [hstep.eq_of_value hmode hpast]⟩

/-- A body is left by closing the braces that are open in it. -/
theorem exists_path_of_skip (h : lexis.lineComment = "//".toList) {floor : Nat} (row : Nat)
    (hmode : s.mode = .skip floor) (hfloor : depth < floor) (hinside : s.inside = .code)
    (hdepth : depth < s.depth) :
    ∃ ls s', Path lexis depth s row ls s' ∧ s'.inside = .code ∧ s'.mode = .outline := by
  obtain ⟨hblank, -, -, hclose, -⟩ := scanLine_short h
  induction hn : s.depth using Nat.strongRecOn generalizing s row with
  | ind n ih =>
    subst hn
    by_cases hle : s.depth ≤ floor
    · -- Nothing is open above the floor, and a blank line is enough.
      obtain ⟨next, hnext, hin, hd, hm⟩ :=
        exists_step_of_skip (of?_of_code row hinside hblank) hmode
      have hd : next.depth = s.depth := hd
      have hone : (scanLine lexis s.inside []).1.length ≤ 1 := by simp [hinside, hblank]
      refine ⟨[[]], next, .single hdepth (by simp) hone hnext (by omega), hin, ?_⟩
      rw [hm]
      exact if_pos hle
    · -- A brace is closed, and this ends the body or leaves one brace less to close.
      obtain ⟨m, hm⟩ := Nat.exists_eq_succ_of_ne_zero (n := s.depth) (by omega)
      obtain ⟨next, hnext, hin, hd, hmode'⟩ :=
        exists_step_of_skip (of?_of_scan_brace row hinside hclose hm) hmode
      have hd : next.depth = m := hd
      have hmode' : next.mode = if m ≤ floor then .outline else .skip floor := hmode'
      have hone : (scanLine lexis s.inside ['}']).1.length ≤ 1 := by simp [hinside, hclose]
      by_cases hends : m ≤ floor
      · refine ⟨[['}']], next, .single hdepth (by decide) hone hnext (by omega), hin, ?_⟩
        rw [hmode', if_pos hends]
      · rw [if_neg hends] at hmode'
        obtain ⟨ls, s', hpath, hin', hm'⟩ :=
          ih next.depth (by omega) (row + 1) hmode' hin (by omega) rfl
        exact ⟨['}'] :: ls, s', .cons hdepth (by decide) hone hnext hpath, hin', hm'⟩

/-- An initializer is left by closing what is open in it, and with a blank line. -/
theorem exists_path_of_value (h : lexis.lineComment = "//".toList) {floor indent : Nat} {parens : Int}
    (row : Nat) (hmode : s.mode = .value floor parens indent) (hfloor : depth < floor)
    (hinside : s.inside = .code) (hdepth : depth < s.depth) :
    ∃ ls s', Path lexis depth s row ls s' ∧ s'.inside = .code ∧ s'.mode = .outline := by
  obtain ⟨hblank, -, -, hclose, hparen⟩ := scanLine_short h
  induction hn : s.depth + parens.toNat using Nat.strongRecOn generalizing s row parens with
  | ind n ih =>
    subst hn
    -- The parentheses come first: as long as one is open, the line is no end of the initializer.
    by_cases hparens : 0 < parens
    · obtain ⟨next, hnext, hin, hd, hm⟩ :=
        exists_step_of_value (of?_of_scan_paren row hinside hparen) hmode
          (by simp [Reading.isPastValue, Int.not_le.mpr hparens])
      have hd : next.depth = s.depth := hd
      have hm : next.mode = .value floor (parens + -1) indent := by
        rw [hm]
        exact if_neg fun hends => Bool.false_ne_true hends.2.2
      obtain ⟨ls, s', hpath, hin', hm'⟩ := ih _ (by omega) (row + 1) hm hin (by omega) rfl
      have hone : (scanLine lexis s.inside [')']).1.length ≤ 1 := by simp [hinside, hparen]
      exact ⟨[')'] :: ls, s', .cons hdepth (by decide) hone hnext hpath, hin', hm'⟩
    · by_cases hle : s.depth ≤ floor
      · have hlevel : s.isLevel (shortReading ⟨row, []⟩ false s.depth s.depth 0) = true := by
          simp [State.isLevel, hmode, Reading.isPastValue, shortReading, hle, Int.not_lt.mp hparens,
            Text.trim_eq_nil_iff]
        obtain ⟨next, hnext, hin, hd, hm, -⟩ := exists_step_blank lexis row hinside hlevel
        have hone : (scanLine lexis s.inside []).1.length ≤ 1 := by simp [hinside, hblank]
        exact ⟨[[]], next, .single hdepth (by simp) hone hnext (by omega), hin, hm⟩
      · obtain ⟨m, hm⟩ := Nat.exists_eq_succ_of_ne_zero (n := s.depth) (by omega)
        obtain ⟨next, hnext, hin, hd, hmode'⟩ :=
          exists_step_of_value (of?_of_scan_brace row hinside hclose hm) hmode
            (by simp [Reading.isPastValue, shortReading, hle])
        have hd : next.depth = m := hd
        have hmode' : next.mode = .value floor (parens + 0) indent := by
          rw [hmode']
          exact if_neg fun hends => Bool.false_ne_true hends.2.2
        obtain ⟨ls, s', hpath, hin', hm'⟩ := ih _ (by omega) (row + 1) hmode' hin (by omega) rfl
        have hone : (scanLine lexis s.inside ['}']).1.length ≤ 1 := by simp [hinside, hclose]
        exact ⟨['}'] :: ls, s', .cons hdepth (by decide) hone hnext hpath, hin', hm'⟩

/-- What is open below a bound is closed, and the outliner is back at outline level. -/
theorem exists_path_outline (h : lexis.lineComment = "//".toList) (row : Nat)
    (hexposes : s.mode.Exposes depth) (hinside : s.inside = .code) (hdepth : depth < s.depth) :
    ∃ ls s', Path lexis depth s row ls s' ∧ s'.inside = .code ∧ s'.mode = .outline := by
  cases hmode : s.mode with
  | outline => exact ⟨[], s, .nil hdepth, hinside, hmode⟩
  | skip floor =>
    rw [hmode] at hexposes
    exact exists_path_of_skip h row hmode hexposes hinside hdepth
  | importing floor parens =>
    rw [hmode] at hexposes
    exact hexposes.elim
  | value floor parens indent =>
    rw [hmode] at hexposes
    exact exists_path_of_value h row hmode hexposes hinside hdepth

/-- A short line behind no header is kept where a brace is open. -/
theorem exists_step_member {row depth' : Nat} {text : List Char}
    (hr : Reading.of? lexis s.inside s.depth ⟨row, text⟩
      = some (shortReading ⟨row, text⟩ false s.depth depth' 0))
    (hmode : s.mode = .outline) (hheader : s.header = none) (hdepth : 0 < s.depth)
    (hne : Text.trim text ≠ []) (hcomment : isAnnotation (Text.trim text) false = false)
    (himport : importLine.isIn (Text.trim text) = false) :
    ∃ next, step? lexis s ⟨row, text⟩ = some next ∧ next.inside = .code ∧ next.depth = depth' ∧
      next.mode = .outline ∧ next.header = none ∧ ⟨row, text⟩ ∈ next.selection.kept := by
  obtain ⟨next, hnext, hstep⟩ := exists_step hr
  have hlevel : s.isLevel (shortReading ⟨row, text⟩ false s.depth depth' 0) = true := by
    rw [State.isLevel, hmode]
  have hcode : (shortReading ⟨row, text⟩ false s.depth depth' 0).isCode = true := by
    simpa [Reading.isCode, shortReading] using hcomment
  exact ⟨next, hnext, hstep.inside.1, hstep.inside.2,
    (hstep.levelStep hlevel).member_of_header_eq_none hne hcode hheader himport rfl hdepth⟩

/-- At outline level, all braces can be closed, and then the text may end. -/
theorem exists_path_closed (h : lexis.lineComment = "//".toList) (row : Nat)
    (hinside : s.inside = .code) (hmode : s.mode = .outline) (hheader : s.header = none) :
    ∃ ls s', Path lexis (-1) s row ls s' ∧ s'.isClosed = true := by
  obtain ⟨-, -, -, hclose, -⟩ := scanLine_short h
  induction hn : s.depth generalizing s row with
  | zero =>
    refine ⟨[], s, .nil (by omega), ?_⟩
    rw [State.isClosed, hn, hinside, hmode]
    rfl
  | succ n ih =>
    obtain ⟨next, hnext, hin, hd, hm, hh, -⟩ :=
      exists_step_member (of?_of_scan_brace row hinside hclose hn) hmode hheader
        (by omega) (by decide) (by decide) (by decide)
    obtain ⟨ls, s', hpath, hclosed⟩ := ih (row + 1) hin hm hh hd
    have hone : (scanLine lexis s.inside ['}']).1.length ≤ 1 := by simp [hinside, hclose]
    exact ⟨['}'] :: ls, s', .cons (by omega) (by decide) hone hnext hpath, hclosed⟩

/-- The comment or literal that a line ends inside of can be ended first. -/
theorem exists_path_code (lexis : Lexis) (row : Nat) (hexposes : s.mode.Exposes depth)
    (hdepth : depth < s.depth) :
    ∃ ls s', Path lexis depth s row ls s' ∧ s'.inside = .code ∧ s'.mode.Exposes depth ∧
      (s.mode = .outline → s'.mode = .outline ∧ ∀ l, s.selection.Has l → s'.selection.Has l) := by
  by_cases hinside : s.inside = .code
  · exact ⟨[], s, .nil hdepth, hinside, hexposes, fun hmode => ⟨hmode, fun l hl => hl⟩⟩
  · obtain ⟨next, hnext, hin, hd, hm, hkeeps⟩ := exists_step_closer row hexposes hinside
    have hlf : '\n' ∉ closer s.inside := by
      cases s.inside with
      | code => decide
      | comment => decide
      | literal fence => cases fence <;> decide
    exact ⟨[closer s.inside], next,
      .single hdepth hlf (by simp [scanLine_closer]) hnext (by omega), hin, hm, hkeeps⟩

/-- Where a mode exposes what opened at a depth, outline level is reached above this depth. -/
theorem exists_path_level (h : lexis.lineComment = "//".toList) (row : Nat)
    (hexposes : s.mode.Exposes depth) (hdepth : depth < s.depth) :
    ∃ ls s', Path lexis depth s row ls s' ∧ s'.inside = .code ∧ s'.mode = .outline ∧
      s'.header = none := by
  obtain ⟨first, s₁, hfirst, hin₁, hexposes₁, -⟩ := exists_path_code lexis row hexposes hdepth
  obtain ⟨second, s₂, hsecond, hin₂, hm₂⟩ :=
    exists_path_outline h (row + first.length) hexposes₁ hin₁ hfirst.lt_depth_end
  have hdepth₂ := hsecond.lt_depth_end
  -- A blank line behind them ends the header that may be left.
  have hlevel : s₂.isLevel
      (shortReading ⟨row + first.length + second.length, []⟩ false s₂.depth s₂.depth 0) = true := by
    rw [State.isLevel, hm₂]
  obtain ⟨s₃, hs₃, hin₃, hd₃, hm₃, hh₃⟩ := exists_step_blank lexis _ hin₂ hlevel
  have hthird : Path lexis depth s₂ (row + first.length + second.length) [[]] s₃ :=
    .single hdepth₂ (by simp) (by simp [hin₂, (scanLine_short h).1]) hs₃ (by omega)
  exact ⟨first ++ (second ++ [[]]), s₃, hfirst.append (hsecond.append hthird), hin₃, hm₃, hh₃⟩

/-- Where a mode exposes what opened at a depth, a line can be written above this depth that is kept. -/
theorem exists_path_kept (h : lexis.lineComment = "//".toList) (row : Nat)
    (hexposes : s.mode.Exposes depth) (hzero : 0 ≤ depth) (hdepth : depth < s.depth) :
    ∃ ls s' l, Path lexis depth s row ls s' ∧ s'.mode.Exposes depth ∧ l ∈ s'.selection.kept ∧
      row ≤ l.row ∧ l.row < row + ls.length ∧ Text.isBlankText l.text = false := by
  obtain ⟨-, hword, -⟩ := scanLine_short h
  obtain ⟨ls, t, hpath, hin, hm, hh⟩ := exists_path_level h row hexposes hdepth
  have hdepth' := hpath.lt_depth_end
  obtain ⟨next, hnext, hin', hd, hm', hh', hkept⟩ :=
    exists_step_member (of?_of_code (row + ls.length) hin hword) hm hh (by omega)
      (by decide) (by decide) (by decide)
  have hline : Path lexis depth t (row + ls.length) [['x']] next :=
    .single hdepth' (by decide) (by simp [hin, hword]) hnext (by omega)
  refine ⟨ls ++ [['x']], next, _, hpath.append hline, by rw [hm']; trivial, hkept, ?_, ?_, ?_⟩
  · exact Nat.le_add_right _ _
  · simp
  · simp only
    decide

/-- A text that is not inside an import can be brought to its end. -/
theorem exists_path_end (h : lexis.lineComment = "//".toList) (row : Nat)
    (hexposes : s.mode.Exposes (-1)) :
    ∃ ls s', Path lexis (-1) s row ls s' ∧ s'.isClosed = true := by
  obtain ⟨ls, t, hpath, hin, hm, hh⟩ := exists_path_level h row hexposes (by omega)
  obtain ⟨rest, s', hrest, hclosed⟩ := exists_path_closed h (row + ls.length) hin hm hh
  exact ⟨ls ++ rest, s', hpath.append hrest, hclosed⟩

/-- What waits at outline level is kept if a declaration follows. -/
theorem exists_path_flushed (h : lexis.lineComment = "//".toList) (row : Nat)
    (hmode : s.mode = .outline) :
    ∃ ls s', Path lexis (-1) s row ls s' ∧ s'.mode.Exposes (-1) ∧
      ∀ l, s.selection.Has l → l ∈ s'.selection.kept := by
  obtain ⟨-, -, hdecl, -⟩ := scanLine_short h
  have hexposes : s.mode.Exposes (-1) := by rw [hmode]; trivial
  obtain ⟨ls, t, hpath, hin, -, hkeeps⟩ := exists_path_code lexis row hexposes (by omega)
  obtain ⟨hm, hhas⟩ := hkeeps hmode
  -- A line that is a declaration, and also goes on with any header.
  obtain ⟨next, hnext, hstep⟩ := exists_step (of?_of_code (row + ls.length) hin hdecl)
  have hlevel : t.isLevel (shortReading ⟨row + ls.length, "fn x;".toList⟩ false t.depth t.depth 0)
      = true := by
    rw [State.isLevel, hm]
  have hflush : next.mode.Exposes (-1) ∧ ∀ l, t.selection.Has l → l ∈ next.selection.kept := by
    have hne : Text.trim "fn x;".toList ≠ [] := by decide
    have hcode : (!false && ! isAnnotation (Text.trim "fn x;".toList) false) = true := by decide
    have hdeclared : isDeclaration (Text.trim "fn x;".toList) = true := by decide
    have himport : importLine.isIn (Text.trim "fn x;".toList) = false := by decide
    obtain ⟨hmode', hkept⟩ :=
      (hstep.levelStep hlevel).kept_of_isDeclaration hne hcode hdeclared himport rfl (Nat.le_refl _)
    refine ⟨?_, fun l hl => hkept l (List.mem_append.mpr hl.symm)⟩
    rcases hmode' with hmode' | ⟨parens, indent, hmode'⟩
    · rw [hmode']
      trivial
    · rw [hmode']
      have hfloor : (-1 : Int) < t.depth := by omega
      exact hfloor
  exact ⟨ls ++ ["fn x;".toList], next,
    hpath.append (.single (by omega) (by decide) (by rw [hin, hdecl]; decide) hnext (by omega)),
    hflush.1, fun l hl => hflush.2 l (hhas l hl)⟩

/-- A line that has been selected is in the outline if the right lines follow. -/
theorem exists_path_of_has (h : lexis.lineComment = "//".toList) (row : Nat)
    (hexposes : s.mode.Exposes (-1)) {l : Line} (hl : s.selection.Has l)
    (hwaiting : l ∈ s.selection.waiting → s.mode = .outline) :
    ∃ ls s', Path lexis (-1) s row ls s' ∧ s'.isClosed = true ∧ l ∈ s'.selection.kept := by
  rcases hl with hkept | hwaits
  · obtain ⟨ls, s', hpath, hclosed⟩ := exists_path_end h row hexposes
    exact ⟨ls, s', hpath, hclosed, mem_kept_of_run? hpath.run? hkept⟩
  · obtain ⟨ls, t, hpath, hexposes', hflushed⟩ := exists_path_flushed h row (hwaiting hwaits)
    obtain ⟨rest, s', hrest, hclosed⟩ := exists_path_end h (row + ls.length) hexposes'
    exact ⟨ls ++ rest, s', hpath.append hrest, hclosed,
      mem_kept_of_run? hrest.run? (hflushed l (.inr hwaits))⟩

end

end RepoScope.Outline.Braces
