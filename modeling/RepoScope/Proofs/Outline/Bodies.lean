import RepoScope.Proofs.Outline.Run

/-!
# Bodies that stay out of an outline

A block whose brace stands on no header of a container and in no import is a body, and an outline is to
show nothing of it. Whether it does is decided where the body opens. The outliner enters the body if the
brace opens no lower than the depth at which the line is taken, and if the line, where it is one of
outline level, is read as code (`State.entersAt`). From then on it is in a mode that covers the body
(`Mode.Covers`): each line inside leaves this mode as it is and adds nothing (`Step.covers`).

* **`selection_of_body`**: of a body that is entered, no line inside is selected, and of the line that
  opens it at most the part up to the brace.
-/

namespace RepoScope.Outline.Braces

/-! ## Bodies and how they are entered

Whether a body is entered is said of the state in front of its line and of the reading of the line, since from
there on nothing else decides. The floor is what the depth has to fall below for the region to end.
-/

/-- Whether the braces that open on a line open bodies: the line is no import and no header of a container. -/
def State.opensBodies (s : State) (r : Reading) : Bool :=
  match s.mode with
  | .importing .. => false
  | .outline | .skip _ | .value .. =>
    !(s.isLevel r && r.isCode && (s.startsImport r || s.opensContainer r))

/-- The depth at which the outliner takes a line: what falls below it ends the region that it is in. -/
def State.floorOf (s : State) (r : Reading) : Nat :=
  match s.mode with
  | .skip floor => floor
  | .value floor parens indent => if r.isPastValue floor parens indent then r.start else floor
  | .outline | .importing .. => r.start

/-- Whether the outliner enters a body that opens on a line at this depth. -/
def State.entersAt (s : State) (r : Reading) (depth : Int) : Prop :=
  s.floorOf r ≤ depth ∧ (s.isLevel r = true → r.isCode = true)

instance (s : State) (r : Reading) (depth : Int) : Decidable (s.entersAt r depth) :=
  inferInstanceAs (Decidable (_ ∧ _))

/-- Whether a mode leaves out a body that opened at this depth. -/
def Mode.Covers (mode : Mode) (depth : Int) : Prop :=
  match mode with
  | .skip floor => floor ≤ depth
  | .value floor _ _ => floor ≤ depth
  | .outline | .importing .. => False

/-- Whether `shown` is a start of `source` that ends no later than behind `column`, with an elision mark. -/
def IsCutAt (column : Nat) (source shown : List Char) : Prop :=
  ∃ n mark, n ≤ column + 1 ∧ (mark = elision ∨ mark = ' ' :: elision ++ " \x7d".toList) ∧
    shown = source.take n ++ mark

/-! ## One line

Inside a body that is covered, the depth is above the floor of the mode, so no line ends it. A line in a mode that
covers the body does not look at what it says, only at its brackets.
-/

section

variable {s s' : State} {r : Reading} {depth : Int}

/-- The end of an initializer is not seen as long as the depth is above its floor. -/
theorem State.isLevel_of_covers (hcovers : s.mode.Covers depth) (hstart : depth < r.start) :
    s.isLevel r = false := by
  rw [isLevel]
  cases hmode : s.mode with
  | outline =>
    rw [hmode] at hcovers
    exact hcovers.elim
  | skip floor => rfl
  | importing floor parens => rfl
  | value floor parens indent =>
    rw [hmode] at hcovers
    have hfloor : (floor : Int) ≤ depth := hcovers
    have hlt : ¬r.start ≤ floor := by omega
    simp [Reading.isPastValue, hlt]

/-- A line inside a body that is covered adds nothing. -/
theorem Step.selection_of_covers (h : Step s r s') (hcovers : s.mode.Covers depth)
    (hstart : depth < r.start) : s'.selection = s.selection := by
  cases h with
  | skip _ => rfl
  | value _ _ => rfl
  | importing hmode =>
    rw [hmode] at hcovers
    exact hcovers.elim
  | level hlevel _ =>
    rw [State.isLevel_of_covers hcovers hstart] at hlevel
    cases hlevel

/-- A body that is covered stays so as long as it is open. -/
theorem Step.covers (h : Step s r s') (hcovers : s.mode.Covers depth) (hstart : depth < r.start)
    (hdepth : depth < r.depth) : s'.mode.Covers depth := by
  cases h with
  | @skip floor hmode =>
    rw [hmode] at hcovers
    have hfloor : (floor : Int) ≤ depth := hcovers
    have hopen : ¬r.depth ≤ floor := by omega
    simp only [if_neg hopen]
    exact hfloor
  | @value floor parens indent hmode _ =>
    rw [hmode] at hcovers
    have hfloor : (floor : Int) ≤ depth := hcovers
    have hopen : ¬(r.depth ≤ floor ∧ parens + r.parens ≤ 0 ∧ r.endsStatement = true) := by omega
    simp only [if_neg hopen]
    exact hfloor
  | importing hmode =>
    rw [hmode] at hcovers
    exact hcovers.elim
  | level hlevel _ =>
    rw [State.isLevel_of_covers hcovers hstart] at hlevel
    cases hlevel

/-! ## The line that opens a body

On the line itself, the outliner shows what stands before the brace. That the brace it has noted is no later than
the one that the body opens with is known from the reading (`Reading.openAt_le`), so cutting the line there shows
nothing behind.
-/

/-- On a line of code that opens a block, no container is closed. -/
theorem Reading.stillOpen_of_openAt {column : Nat} (h : r.openAt = some column)
    (containers : List Nat) : r.stillOpen containers = containers := by
  simp [stillOpen, h]

/-- The blanks at the start of a line end before a character that is not blank. -/
theorem isCutAt_leadingBlanks {column : Nat} {source : List Char} {c : Char}
    (hc : source[column]? = some c) (hblank : Text.isBlank c = false) :
    IsCutAt column source (Text.leadingBlanks source ++ elision) := by
  have hprefix : Text.leadingBlanks source <+: source := List.takeWhile_prefix _
  refine ⟨(Text.leadingBlanks source).length, elision, ?_, .inl rfl, ?_⟩
  · -- Otherwise the character would be one of the blanks.
    by_contra hlt
    have hcolumn : column < (Text.leadingBlanks source).length := by omega
    have hmem : c ∈ Text.leadingBlanks source := by
      rw [List.getElem?_eq_getElem (Nat.lt_of_lt_of_le hcolumn hprefix.length_le),
        Option.some.injEq, ← hprefix.getElem hcolumn] at hc
      exact hc ▸ List.getElem_mem hcolumn
    rw [List.mem_takeWhile_imp hmem] at hblank
    cases hblank
  · rw [← List.prefix_iff_eq_take.mp hprefix]

/-- A line that is cut at an earlier brace shows nothing behind a later one. -/
theorem isCutAt_cutAtBrace {column column' : Nat} (line : Line) (h : column' ≤ column) :
    IsCutAt column line.text (cutAtBrace line column').text := by
  refine ⟨column' + 1, ' ' :: elision ++ " \x7d".toList, by omega, .inr rfl, ?_⟩
  simp [cutAtBrace]

/-- At outline level, a line is taken at the depth that it starts at. -/
theorem State.floorOf_of_isLevel (h : s.isLevel r = true) : s.floorOf r = r.start := by
  rw [isLevel] at h
  rw [floorOf]
  cases hmode : s.mode with
  | outline => rfl
  | skip floor =>
    rw [hmode] at h
    cases h
  | importing floor parens => rfl
  | value floor parens indent =>
    rw [hmode] at h
    exact if_pos h

/-- At outline level, a line of code opens bodies unless it is an import or the header of a container. -/
theorem State.opensBodies_of_isLevel (h : s.isLevel r = true) :
    s.opensBodies r = !(r.isCode && (s.startsImport r || s.opensContainer r)) := by
  rw [opensBodies, h]
  rw [isLevel] at h
  cases hmode : s.mode with
  | importing floor parens =>
    rw [hmode] at h
    cases h
  | outline => rfl
  | skip floor => rfl
  | value floor parens indent => rfl

/-- A line at outline level that opens a body covers it, and shows nothing behind the brace. -/
theorem LevelStep.opens (h : LevelStep s r s') (hcode : r.isCode = true)
    (himport : s.startsImport r = false) (hcontainer : s.opensContainer r = false)
    (hstart : r.start ≤ depth) {column noted : Nat} (hnoted : r.openAt = some noted)
    (hcolumn : noted ≤ column) (hne : r.trimmed ≠ [])
    (hbrace : r.line.text[column]? = some '{') :
    (depth < r.depth → s'.mode.Covers depth) ∧
      ∀ l, s'.selection.Has l → s.selection.Has l ∨ IsCutAt column r.line.text l.text := by
  have hdeepens : depth < r.depth → r.deepens = true := fun hdepth =>
    decide_eq_true (by omega)
  -- Of all steps, only those of a line that opens a bracket at outline level are left.
  cases h with
  | blank hnil => exact absurd hnil hne
  | literal _ hin _ _ => simp [Reading.isCode, hin] at hcode
  | hold _ hcode' _ =>
    rw [hcode] at hcode'
    cases hcode'
  | close _ _ hclosed => exact absurd (Reading.stillOpen_of_openAt hnoted _) hclosed
  | importing _ _ _ himport' =>
    rw [himport] at himport'
    cases himport'
  | container _ _ _ hcontainer' =>
    rw [hcontainer] at hcontainer'
    cases hcontainer'
  | header _ _ hopen _ =>
    rw [hnoted] at hopen
    cases hopen
  | member _ hopen _ _ =>
    rw [hnoted] at hopen
    cases hopen
  | declaration _ hopen _ _ _ =>
    rw [hnoted] at hopen
    cases hopen
  | other _ hopen _ _ _ =>
    rw [hnoted] at hopen
    cases hopen
  | elide _ _ _ =>
    refine ⟨fun hdepth => ?_, fun l hl => ?_⟩
    · simp only [hdeepens hdepth, Bool.true_or, if_true]
      exact hstart
    · rcases Selection.has_keep hl with rfl | hl
      · exact .inr (isCutAt_leadingBlanks hbrace (by decide))
      · exact .inl hl
  | body _ _ hopen _ =>
    rw [hnoted, Option.some.injEq] at hopen
    subst hopen
    refine ⟨fun hdepth => ?_, fun l hl => ?_⟩
    · simp only [hdeepens hdepth, if_true]
      exact hstart
    · simp only at hl
      split at hl
      · rcases Selection.has_keep hl with rfl | hl
        · exact .inr (isCutAt_cutAtBrace r.line hcolumn)
        · exact .inl hl
      · exact .inl (Selection.has_discard hl)

/-- A line that enters a body covers it, and shows nothing behind the brace. -/
theorem Step.opens (h : Step s r s') (hbody : s.opensBodies r = true) (henters : s.entersAt r depth)
    {column : Nat} (hne : r.trimmed ≠ []) (hbrace : r.line.text[column]? = some '{')
    (hnoted : r.start ≤ depth → ∃ noted, r.openAt = some noted ∧ noted ≤ column) :
    (depth < r.depth → s'.mode.Covers depth) ∧
      ∀ l, s'.selection.Has l → s.selection.Has l ∨ IsCutAt column r.line.text l.text := by
  obtain ⟨hfloor, hcode⟩ := henters
  cases h with
  | @skip floor hmode =>
    rw [State.floorOf, hmode] at hfloor
    have hfloor : (floor : Int) ≤ depth := hfloor
    refine ⟨fun hdepth => ?_, fun l hl => .inl hl⟩
    -- The depth is above the floor of the body in which the outliner is.
    have hopen : ¬r.depth ≤ floor := by omega
    simp only [if_neg hopen]
    exact hfloor
  | @value floor parens indent hmode hpast =>
    rw [State.floorOf, hmode] at hfloor
    simp only [hpast, Bool.false_eq_true, if_false] at hfloor
    refine ⟨fun hdepth => ?_, fun l hl => .inl hl⟩
    have hopen : ¬(r.depth ≤ floor ∧ parens + r.parens ≤ 0 ∧ r.endsStatement = true) := by omega
    simp only [if_neg hopen]
    exact hfloor
  | importing hmode =>
    rw [State.opensBodies, hmode] at hbody
    cases hbody
  | level hlevel hstep =>
    have hcode := hcode hlevel
    rw [State.floorOf_of_isLevel hlevel] at hfloor
    rw [State.opensBodies_of_isLevel hlevel, hcode, Bool.true_and, Bool.not_eq_true',
      Bool.or_eq_false_iff] at hbody
    obtain ⟨noted, hnoted, hcolumn⟩ := hnoted hfloor
    exact hstep.opens hcode hbody.1 hbody.2 hfloor hnoted hcolumn hne hbrace

end

/-! ## Blocks and the states before their lines

The heights of the brackets say where a block begins and ends, and the depth of the outliner in front of a line is
such a height. So what is known of a block becomes a statement on the depth in front of each of its lines.
-/

section

variable {lexis : Lexis} {text : List Char} {before : List Mark} {o c : Mark}

/-- The braces of a block stand on lines of the text. -/
theorem row_lt_of_isBlock (h : IsBlock (marks lexis text) before o c) :
    o.row < (Text.lines text).length ∧ c.row < (Text.lines text).length := by
  obtain ⟨middle, after, -, -, -, hms⟩ := h
  have ho : o ∈ marks lexis text := by rw [hms]; simp
  have hc : c ∈ marks lexis text := by rw [hms]; simp
  have ho := row_of_mem_marksFrom ho
  have hc := row_of_mem_marksFrom hc
  omega

/-- The brackets above a line inside a block, from the brace that opens it. -/
theorem exists_passed_of_row (h : IsBlock (marks lexis text) before o c) {row : Nat} (ho : o.row < row)
    (hc : row ≤ c.row) :
    ∃ passed, o.char = '{' ∧
      marksFrom lexis .code 0 ((Text.lines text).take row) = before ++ o :: passed ∧
      ∀ first, first <+: passed → 0 ≤ Mark.height first := by
  have hrow : row ≤ (Text.lines text).length := by
    have := row_lt_of_isBlock h
    omega
  rw [marks_eq_append lexis text hrow] at h
  refine exists_passed_of_isBlock h (fun hmem => ?_) fun hmem => ?_
  · have := row_of_mem_marksFrom hmem
    omega
  · have := row_of_mem_marksFrom hmem
    rw [List.length_take] at this
    omega

/-- Before a line inside a block, the depth is above that of the block. -/
theorem lt_depth_of_isBlock (h : IsBlock (marks lexis text) before o c) {row : Nat}
    (ho : o.row < row) (hc : row ≤ c.row) {s : State}
    (hs : run? lexis .initial 0 ((Text.lines text).take row) = some s) :
    Mark.height before < s.depth := by
  obtain ⟨passed, hopen, hmarks, hpassed⟩ := exists_passed_of_row h ho hc
  have hnonneg := hpassed passed List.prefix_rfl
  have hrise : o.rise = 1 := Bracket.rise_open hopen
  rw [depth_of_run?_initial hs, hmarks, Mark.height_append, Mark.height_cons]
  omega

/-- The brace that opens a block as the line that it stands on is read. -/
theorem exists_front_of_readAt? (h : IsBlock (marks lexis text) before o c) {s : State} {r : Reading}
    (hread : readAt? lexis text o.row = some (s, r)) :
    ∃ front behind, (scanLine lexis s.inside r.line.text).1 = front ++ o.toBracket :: behind ∧
      o.char = '{' ∧ Mark.height before = s.depth + height front ∧
      Reading.of? lexis s.inside s.depth r.line = some r ∧ r.line.row = o.row := by
  obtain ⟨hs, line, hline, hr⟩ := readAt?_eq_some.mp hread
  have hrow : r.line = ⟨o.row, line⟩ := Reading.line_eq hr
  obtain ⟨hlength, rfl⟩ := List.getElem?_eq_some_iff.mp hline
  have hinside : insideAfter lexis .code ((Text.lines text).take o.row) = s.inside :=
    (run?_inside hs).symm
  -- The brackets of the text: those of the lines above, those of the line, those of the rest.
  have hcut := marks_eq_append lexis text (Nat.le_of_lt hlength)
  rw [hinside, List.drop_eq_getElem_cons hlength, marksFrom] at hcut
  obtain ⟨front, behind, hbs, hopen, hbefore⟩ := exists_front_of_isBlock h hcut
    (fun hmem => by
      have := row_of_mem_marksFrom hmem
      rw [List.length_take] at this
      omega)
    (fun hmem => by
      have := row_of_mem_marksFrom hmem
      omega)
  refine ⟨front, behind, by rw [hrow]; exact hbs, hopen, ?_, by rw [hrow]; exact hr, by rw [hrow]⟩
  rw [hbefore, Mark.height_append, Mark.height_map, depth_of_run?_initial hs]

/-- The line on which a block opens is not blank. -/
theorem trimmed_ne_nil_of_readAt? (h : IsBlock (marks lexis text) before o c) {s : State} {r : Reading}
    (hread : readAt? lexis text o.row = some (s, r)) : r.trimmed ≠ [] := by
  obtain ⟨front, behind, hbrackets, hopen, -, hr, -⟩ := exists_front_of_readAt? h hread
  have hmem : o.toBracket ∈ (scanLine lexis s.inside r.line.text).1 := by
    rw [hbrackets]
    simp
  exact Reading.trimmed_ne_nil hr hmem (by rw [hopen]; decide)

/-! ## Texts

The line that opens a body leaves it covered; each line below that begins inside keeps it covered, as the depth is
above the floor (`covers_of_isBlock`); and behind the block nothing is selected of earlier lines any more. Together
this is `selection_of_body`.
-/

variable {s s' : State} {r : Reading}

/-- A line that enters a body leaves it covered, and selects nothing of the line behind the brace. -/
theorem opens_of_readAt? (h : IsBlock (marks lexis text) before o c)
    (hread : readAt? lexis text o.row = some (s, r)) (hbody : s.opensBodies r = true)
    (henters : s.entersAt r (Mark.height before)) :
    (Mark.height before < r.depth → (s.apply r).mode.Covers (Mark.height before)) ∧
      ∀ l, (s.apply r).selection.Has l → s.selection.Has l ∨ IsCutAt o.column r.line.text l.text := by
  obtain ⟨front, behind, hbrackets, hopen, hheight, hr, -⟩ := exists_front_of_readAt? h hread
  have hmem : o.toBracket ∈ (scanLine lexis s.inside r.line.text).1 := by
    rw [hbrackets]
    simp
  have hbrace : r.line.text[o.column]? = some '{' := hopen ▸ getElem?_of_mem_scanLine hmem
  have hne := trimmed_ne_nil_of_readAt? h hread
  have hstart : r.start = s.depth := Reading.start_eq hr
  refine (step_apply s r).opens hbody henters hne hbrace fun hle => ?_
  exact Reading.openAt_le hr hbrackets hopen (by omega)

/-- Behind a line that was read, the run goes on with the state after it. -/
theorem run?_take_succ_of_readAt? {row : Nat} (hread : readAt? lexis text row = some (s, r))
    (hrun : run? lexis .initial 0 (Text.lines text) = some s') :
    run? lexis .initial 0 ((Text.lines text).take (row + 1)) = some (s.apply r) ∧
      run? lexis (s.apply r) (row + 1) ((Text.lines text).drop (row + 1)) = some s' := by
  obtain ⟨hs, line, hline, hr⟩ := readAt?_eq_some.mp hread
  obtain ⟨hlength, rfl⟩ := List.getElem?_eq_some_iff.mp hline
  obtain ⟨s₀, hs₀, hrest⟩ := exists_run?_take hrun (Nat.le_of_lt hlength)
  rw [hs, Option.some.injEq] at hs₀
  subst hs₀
  obtain ⟨r', hr', htake, hdrop⟩ := exists_run?_succ hlength hs hrest
  rw [hr, Option.some.injEq] at hr'
  subst hr'
  exact ⟨htake, hdrop⟩

/-- Each line of a text that is outlined is read in some state. -/
theorem exists_readAt? (hrun : run? lexis .initial 0 (Text.lines text) = some s') (row : Nat)
    (hrow : row < (Text.lines text).length) : ∃ s r, readAt? lexis text row = some (s, r) := by
  obtain ⟨s, hs, hrest⟩ := exists_run?_take hrun (Nat.le_of_lt hrow)
  obtain ⟨r, hr, -, -⟩ := exists_run?_succ hrow hs hrest
  exact ⟨s, r, readAt?_eq_some.mpr ⟨hs, _, List.getElem?_eq_getElem hrow, hr⟩⟩

/-- While a body that was entered is open, the mode covers it. -/
theorem covers_of_isBlock (h : IsBlock (marks lexis text) before o c)
    (hread : readAt? lexis text o.row = some (s, r)) (hbody : s.opensBodies r = true)
    (henters : s.entersAt r (Mark.height before))
    (hrun : run? lexis .initial 0 (Text.lines text) = some s') {row : Nat} (ho : o.row < row)
    (hc : row ≤ c.row) {t : State}
    (ht : run? lexis .initial 0 ((Text.lines text).take row) = some t) :
    t.mode.Covers (Mark.height before) := by
  -- Induction on the lines behind the one that opens the body. The depth before each of them and
  -- behind it is above that of the body, so no step leaves the mode.
  induction row, ho using Nat.le_induction generalizing t with
  | base =>
    have htake := (run?_take_succ_of_readAt? hread hrun).1
    rw [htake, Option.some.injEq] at ht
    subst ht
    have hdepth := lt_depth_of_isBlock h (Nat.lt_succ_self _) hc htake
    rw [(step_apply s r).inside.2] at hdepth
    exact (opens_of_readAt? h hread hbody henters).1 hdepth
  | succ row ho ih =>
    have hlength := row_lt_of_isBlock h
    obtain ⟨u, v, hu⟩ := exists_readAt? hrun row (by omega)
    have hstate := (readAt?_eq_some.mp hu).1
    have htake := (run?_take_succ_of_readAt? hu hrun).1
    rw [htake, Option.some.injEq] at ht
    subst ht
    have hcovers := ih (by omega) hstate
    have hstart := lt_depth_of_isBlock h ho (by omega) hstate
    have hdepth := lt_depth_of_isBlock h (by omega) hc htake
    rw [(step_apply u v).inside.2] at hdepth
    rw [← start_of_readAt? hu] at hstart
    exact (step_apply u v).covers hcovers hstart hdepth

/--
Of a body that is entered, no line that begins inside it is selected, and of the line that opens it nothing
behind the brace.
-/
theorem selection_of_body (h : IsBlock (marks lexis text) before o c)
    (hread : readAt? lexis text o.row = some (s, r)) (hbody : s.opensBodies r = true)
    (henters : s.entersAt r (Mark.height before))
    (hrun : run? lexis .initial 0 (Text.lines text) = some s') {l : Line} (hl : s'.selection.Has l) :
    ¬(o.row < l.row ∧ l.row ≤ c.row) ∧
      (l.row = o.row → IsCutAt o.column r.line.text l.text) := by
  have hlength := row_lt_of_isBlock h
  constructor
  · rintro ⟨ho, hc⟩
    obtain ⟨u, v, hu⟩ := exists_readAt? hrun l.row (by omega)
    have hstate := (readAt?_eq_some.mp hu).1
    have hcovers := covers_of_isBlock h hread hbody henters hrun ho hc hstate
    have hstart := lt_depth_of_isBlock h ho hc hstate
    rw [← start_of_readAt? hu] at hstart
    have hsame : (u.apply v).selection = u.selection :=
      (step_apply u v).selection_of_covers hcovers hstart
    -- The line would have to be selected when it is read, but then nothing is.
    rcases has_of_run? (run?_take_succ_of_readAt? hu hrun).2 hl with hl | hrow
    · rw [hsame] at hl
      have := row_lt_of_run?_initial hstate hl
      rw [List.length_take] at this
      omega
    · omega
  · -- What is shown with this number has been selected when the line was read.
    intro hrow
    have hstate := (readAt?_eq_some.mp hread).1
    rcases has_of_run? (run?_take_succ_of_readAt? hread hrun).2 hl with hl | hbehind
    · rcases (opens_of_readAt? h hread hbody henters).2 l hl with hl | hcut
      · have := row_lt_of_run?_initial hstate hl
        rw [List.length_take] at this
        omega
      · exact hcut
    · omega

end

end RepoScope.Outline.Braces
