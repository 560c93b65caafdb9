import RepoScope.Outline.Braces

/-!
# What one line can do

The outliner of brace languages tries its branches in a fixed order. Here each of them is one case of a
relation between the state before a line and the state after it, with all that is known in this branch
(`LevelStep` for lines at outline level, `Step` for all lines). Whatever holds after every step is proved
from these cases, and nothing else looks into the definition of `State.apply`.
-/

namespace RepoScope.Outline.Braces

open Text

/-! ## What is asked of a line

Each test of the outliner has a name here, so that the branches can be told by what was found.
-/

/-- Whether a line is taken as one of outline level. -/
def State.isLevel (s : State) (r : Reading) : Bool :=
  match s.mode with
  | .outline => true
  | .value floor parens indent => r.isPastValue floor parens indent
  | .skip _ | .importing .. => false

/-- Whether a line at outline level is code: it starts in code, and is no annotation. -/
def Reading.isCode (r : Reading) : Bool :=
  !r.startsInside && ! isAnnotation r.trimmed r.openAt.isSome

/-- The header that goes on with a line. -/
def State.openHeader (s : State) (r : Reading) : Option Header :=
  s.header.filter (·.continuesWith r)

/-- Whether a line starts an import. -/
def State.startsImport (s : State) (r : Reading) : Bool :=
  s.header.isNone && importLine.isIn r.trimmed

/-- Imports are looked for only where no header above may go on. -/
theorem State.header_of_startsImport {s : State} {r : Reading} (h : s.startsImport r = true) :
    s.header = none := by
  rw [State.startsImport, Bool.and_eq_true, Option.isNone_iff_eq_none] at h
  exact h.1

/-- Whether a line is the initializer of the declaration above it. -/
def State.elidesValue (s : State) (r : Reading) : Bool :=
  (s.openHeader r).any fun h => h.value && !h.container && r.trimmed.head? != some '{'

/-- Whether a line that opens a block is the header of a container. -/
def State.opensContainer (s : State) (r : Reading) : Bool :=
  match s.openHeader r with
  | some h => h.container
  | none => containerHeader.isIn r.trimmed

/-- Whether a line that opens a block belongs to a declaration. -/
def State.isDeclared (s : State) (r : Reading) : Bool :=
  (s.openHeader r).isSome || r.start > 0 || isDeclaration r.trimmed

/-- The state behind a line at outline level, as far as it does not depend on what becomes of the line. -/
def State.moved (s : State) (r : Reading) : State :=
  { s with inside := r.inside, depth := r.depth, mode := .outline }

/-- What is known of a line once it is clear that it may be a declaration. -/
structure State.MayDeclare (s : State) (r : Reading) : Prop where
  ne_nil : r.trimmed ≠ []
  isCode : r.isCode = true
  stillOpen : r.stillOpen s.containers = s.containers
  startsImport : s.startsImport r = false

/-! ## Lines at outline level

There are twelve cases, in the order in which the outliner comes to them; each has for hypotheses what is known
when it is reached. The tests for a line that may declare something stand in three functions that call one another,
and each has its own lemma (`levelStep_declare`, `levelStep_continueHeader`, `levelStep_outlineLine`).
-/

/-- What a line at outline level does to the state. -/
inductive LevelStep (s : State) (r : Reading) : State → Prop
  | blank (h : r.trimmed = []) :
      LevelStep s r
        { s.moved r with selection := s.selection.blank r.line.row, header := none }
  | literal (hne : r.trimmed ≠ []) (hin : r.startsInside = true) (hinside : r.inside ≠ .comment)
      (hstar : r.trimmed.head? ≠ some '*') :
      LevelStep s r
        { s.moved r with
          selection := if s.header.isSome then s.selection.keep r.line else s.selection }
  | hold (hne : r.trimmed ≠ []) (hcode : r.isCode = false)
      (hliteral : r.startsInside = true → r.inside = .comment ∨ r.trimmed.head? = some '*') :
      LevelStep s r { s.moved r with selection := s.selection.hold r.line }
  | close (hne : r.trimmed ≠ []) (hcode : r.isCode = true)
      (hclosed : r.stillOpen s.containers ≠ s.containers) :
      LevelStep s r
        { s.moved r with
          containers := r.stillOpen s.containers
          selection := s.selection.discard.keep r.line
          header := none }
  | importing (hne : r.trimmed ≠ []) (hcode : r.isCode = true)
      (hstill : r.stillOpen s.containers = s.containers) (himport : s.startsImport r = true) :
      LevelStep s r
        { s.moved r with
          selection := s.selection.keep r.line
          mode := if r.deepens || r.parens > 0 then .importing r.start r.parens else .outline }
  | elide {h : Header} (hdecl : s.MayDeclare r) (hheader : s.openHeader r = some h)
      (helide : s.elidesValue r = true) :
      LevelStep s r
        { s.moved r with
          header := none
          selection := s.selection.keep (elideLine r.line)
          mode :=
            if r.deepens || h.parens + r.parens > 0 || !r.endsStatement then
              .value r.start (h.parens + r.parens) h.indent
            else .outline }
  | container {column : Nat} (hdecl : s.MayDeclare r) (helide : s.elidesValue r = false)
      (hopen : r.openAt = some column) (hcontainer : s.opensContainer r = true) :
      LevelStep s r
        { s.moved r with
          header := none
          selection := s.selection.keep r.line
          containers := if r.deepens then r.start :: s.containers else s.containers }
  | body {column : Nat} (hdecl : s.MayDeclare r) (helide : s.elidesValue r = false)
      (hopen : r.openAt = some column) (hcontainer : s.opensContainer r = false) :
      LevelStep s r
        { s.moved r with
          header := none
          selection :=
            if s.isDeclared r then s.selection.keep (cutAtBrace r.line column)
            else s.selection.discard
          mode := if r.deepens then .skip r.start else .outline }
  | header {h : Header} (hdecl : s.MayDeclare r) (helide : s.elidesValue r = false)
      (hopen : r.openAt = none) (hheader : s.openHeader r = some h) :
      LevelStep s r
        { s.moved r with
          selection := s.selection.keep r.line
          header := if r.endsStatement then none else some (h.extend r) }
  | member (hdecl : s.MayDeclare r) (hopen : r.openAt = none) (hheader : s.openHeader r = none)
      (hstart : 0 < r.start) :
      LevelStep s r { s.moved r with selection := s.selection.keep r.line, header := none }
  | declaration (hdecl : s.MayDeclare r) (hopen : r.openAt = none) (hheader : s.openHeader r = none)
      (hstart : r.start = 0) (hdeclared : isDeclaration r.trimmed = true) :
      LevelStep s r
        { s.moved r with
          selection := s.selection.keep r.line
          header :=
            if r.endsStatement || r.trimmed.getLast? = some '}' then none else some (Header.start r) }
  | other (hdecl : s.MayDeclare r) (hopen : r.openAt = none) (hheader : s.openHeader r = none)
      (hstart : r.start = 0) (hdeclared : isDeclaration r.trimmed = false) :
      LevelStep s r { s.moved r with selection := s.selection.discard, header := none }

/-- A header that a line is the container of makes the line a declaration. -/
theorem State.isDeclared_of_opensContainer {s : State} {r : Reading}
    (h : s.opensContainer r = true) : s.isDeclared r = true := by
  rw [opensContainer] at h
  rw [isDeclared]
  cases hheader : s.openHeader r with
  | some header => rfl
  | none =>
    rw [hheader] at h
    have hcontainer : containerHeader.isIn r.trimmed = true := h
    simp [isDeclaration, hcontainer]

/-- A line that may be a declaration, once it is known whether the header above goes on. -/
theorem levelStep_declare {s : State} {r : Reading} (hdecl : s.MayDeclare r)
    (helide : s.elidesValue r = false) :
    LevelStep s r (State.declare { s.moved r with header := s.openHeader r } r) := by
  rw [State.declare]
  cases hopen : r.openAt with
  | some column =>
    have hblock : State.openBlock { s.moved r with header := s.openHeader r } r column =
        if s.opensContainer r && s.isDeclared r then
          { s.moved r with
            header := none
            selection := s.selection.keep r.line
            containers := if r.deepens then r.start :: s.containers else s.containers }
        else
          { s.moved r with
            header := none
            selection :=
              if s.isDeclared r then s.selection.keep (cutAtBrace r.line column)
              else s.selection.discard
            mode := if r.deepens then .skip r.start else .outline } := rfl
    -- A container is declared in any case, so the test for it is no branch of its own.
    simp only [hblock]
    cases hcontainer : s.opensContainer r with
    | true =>
      rw [State.isDeclared_of_opensContainer hcontainer]
      exact .container hdecl helide hopen hcontainer
    | false => exact .body hdecl helide hopen hcontainer
  | none =>
    cases hheader : s.openHeader r with
    | some h => exact .header hdecl helide hopen hheader
    | none =>
      simp only []
      split
      · next hstart => exact .member hdecl hopen hheader hstart
      · next hstart =>
        have hzero : r.start = 0 := Nat.eq_zero_of_not_pos hstart
        split
        · next hdeclared => exact .declaration hdecl hopen hheader hzero hdeclared
        · next hdeclared =>
          exact .other hdecl hopen hheader hzero (Bool.eq_false_iff.mpr hdeclared)

/-- A line that may be a declaration, below whatever header there is. -/
theorem levelStep_continueHeader {s : State} {r : Reading} (hdecl : s.MayDeclare r) :
    LevelStep s r ((s.moved r).continueHeader r) := by
  have hkept : (s.moved r).header = s.header := rfl
  -- Without a header to go on with, no initializer is elided.
  have helide : s.openHeader r = none → s.elidesValue r = false := by
    intro hopen
    rw [State.elidesValue, hopen]
    rfl
  rw [State.continueHeader, hkept]
  cases hheader : s.header with
  | none =>
    have hopen : s.openHeader r = none := by rw [State.openHeader, hheader]; rfl
    have hstep := levelStep_declare hdecl (helide hopen)
    rw [hopen, ← hheader] at hstep
    exact hstep
  | some h =>
    simp only []
    split
    · next hstop =>
      have hopen : s.openHeader r = none := by
        rw [State.openHeader, hheader, Option.filter_some, if_neg (by simpa using hstop)]
      have hstep := levelStep_declare hdecl (helide hopen)
      rw [hopen] at hstep
      exact hstep
    · next hgoes =>
      have hopen : s.openHeader r = some h := by
        rw [State.openHeader, hheader, Option.filter_some, if_pos (by simpa using hgoes)]
      split
      · next hvalue =>
        refine .elide hdecl hopen ?_
        rw [State.elidesValue, hopen]
        exact hvalue
      · next hvalue =>
        have hvalue : s.elidesValue r = false := by
          rw [State.elidesValue, hopen]
          exact Bool.eq_false_iff.mpr hvalue
        have hstep := levelStep_declare hdecl hvalue
        rw [hopen, ← hheader] at hstep
        exact hstep

/-- The branches of a line at outline level are all there are. -/
theorem levelStep_outlineLine (s : State) (r : Reading) :
    LevelStep s r ((s.moved r).outlineLine r) := by
  rw [State.outlineLine]
  split
  · next hblank => exact .blank (List.isEmpty_iff.mp hblank)
  · next hblank =>
    have hne : r.trimmed ≠ [] := fun hnil => hblank (List.isEmpty_iff.mpr hnil)
    split
    · next hliteral =>
      simp only [Bool.and_eq_true, bne_iff_ne] at hliteral
      exact .literal hne hliteral.1.1 hliteral.1.2 hliteral.2
    · next hliteral =>
      split
      -- What is read inside a literal or comment, or as an annotation, is no code.
      · next hcode =>
        refine .hold hne ?_ ?_
        · rw [Bool.or_eq_true] at hcode
          rcases hcode with hcode | hcode <;> simp [Reading.isCode, hcode]
        · intro hin
          simp only [hin, Bool.true_and, Bool.and_eq_true, bne_iff_ne, not_and, ne_eq,
            Decidable.not_not] at hliteral
          by_cases hcomment : r.inside = .comment
          · exact .inl hcomment
          · exact .inr (hliteral hcomment)
      · next hcode =>
        have hcode : r.isCode = true := by
          simp only [Bool.or_eq_true, not_or, Bool.not_eq_true] at hcode
          simp [Reading.isCode, hcode.1, hcode.2]
        split
        · next hclosed => exact .close hne hcode hclosed
        · next hclosed =>
          have hstill : r.stillOpen s.containers = s.containers := Decidable.not_not.mp hclosed
          split
          · next himport => exact .importing hne hcode hstill himport
          · next himport =>
            exact levelStep_continueHeader ⟨hne, hcode, hstill, Bool.eq_false_iff.mpr himport⟩

/-- A blank line ends the header above it and changes nothing else but the selection. -/
theorem LevelStep.of_trimmed_eq_nil {s s' : State} {r : Reading} (h : LevelStep s r s')
    (hnil : r.trimmed = []) :
    s' = { s.moved r with selection := s.selection.blank r.line.row, header := none } := by
  cases h with
  | blank _ => rfl
  | literal hne _ _ _ => exact absurd hnil hne
  | hold hne _ _ => exact absurd hnil hne
  | close hne _ _ => exact absurd hnil hne
  | importing hne _ _ _ => exact absurd hnil hne
  | elide hdecl _ _ => exact absurd hnil hdecl.ne_nil
  | container hdecl _ _ _ => exact absurd hnil hdecl.ne_nil
  | body hdecl _ _ _ => exact absurd hnil hdecl.ne_nil
  | header hdecl _ _ _ => exact absurd hnil hdecl.ne_nil
  | member hdecl _ _ _ => exact absurd hnil hdecl.ne_nil
  | declaration hdecl _ _ _ _ => exact absurd hnil hdecl.ne_nil
  | other hdecl _ _ _ _ => exact absurd hnil hdecl.ne_nil

/-- A line that is not read as code changes nothing but the selection. -/
theorem LevelStep.of_isCode_eq_false {s s' : State} {r : Reading} (h : LevelStep s r s')
    (hne : r.trimmed ≠ []) (hcode : r.isCode = false) :
    s' = { s.moved r with selection := s.selection } ∨
      s' = { s.moved r with selection := s.selection.keep r.line } ∨
      s' = { s.moved r with selection := s.selection.hold r.line } := by
  have hnot : r.isCode ≠ true := Bool.eq_false_iff.mp hcode
  cases h with
  | blank hnil => exact absurd hnil hne
  | literal _ _ _ _ =>
    cases s.header.isSome
    · exact .inl rfl
    · exact .inr (.inl rfl)
  | hold _ _ _ => exact .inr (.inr rfl)
  | close _ hcode' _ => exact absurd hcode' hnot
  | importing _ hcode' _ _ => exact absurd hcode' hnot
  | elide hdecl _ _ => exact absurd hdecl.isCode hnot
  | container hdecl _ _ _ => exact absurd hdecl.isCode hnot
  | body hdecl _ _ _ => exact absurd hdecl.isCode hnot
  | header hdecl _ _ _ => exact absurd hdecl.isCode hnot
  | member hdecl _ _ _ => exact absurd hdecl.isCode hnot
  | declaration hdecl _ _ _ _ => exact absurd hdecl.isCode hnot
  | other hdecl _ _ _ _ => exact absurd hdecl.isCode hnot

/-- A line of code that neither opens a block nor stands below a header is kept if it is a member. -/
theorem LevelStep.member_of_header_eq_none {s s' : State} {r : Reading} (h : LevelStep s r s')
    (hne : r.trimmed ≠ []) (hcode : r.isCode = true) (hheader : s.header = none)
    (himport : importLine.isIn r.trimmed = false) (hopen : r.openAt = none) (hstart : 0 < r.start) :
    s'.mode = .outline ∧ s'.header = none ∧ r.line ∈ s'.selection.kept := by
  have hnone : s.openHeader r = none := by rw [State.openHeader, hheader]; rfl
  cases h with
  | blank hnil => exact absurd hnil hne
  | literal _ hin _ _ => simp [Reading.isCode, hin] at hcode
  | hold _ hcode' _ =>
    rw [hcode] at hcode'
    cases hcode'
  | close _ _ _ => exact ⟨rfl, rfl, List.mem_cons_self⟩
  | importing _ _ _ himport' => simp [State.startsImport, himport] at himport'
  | elide _ hheader' _ =>
    rw [hnone] at hheader'
    cases hheader'
  | container _ _ hopen' _ =>
    rw [hopen] at hopen'
    cases hopen'
  | body _ _ hopen' _ =>
    rw [hopen] at hopen'
    cases hopen'
  | header _ _ _ hheader' =>
    rw [hnone] at hheader'
    cases hheader'
  | member _ _ _ _ => exact ⟨rfl, rfl, List.mem_cons_self⟩
  | declaration _ _ _ hzero _ => omega
  | other _ _ _ hzero _ => omega

/-- A line that starts a declaration or goes on with one takes with it what waits. -/
theorem LevelStep.kept_of_isDeclaration {s s' : State} {r : Reading} (h : LevelStep s r s')
    (hne : r.trimmed ≠ []) (hcode : r.isCode = true) (hdeclared : isDeclaration r.trimmed = true)
    (himport : importLine.isIn r.trimmed = false) (hopen : r.openAt = none)
    (hdepth : r.start ≤ r.depth) :
    (s'.mode = .outline ∨ ∃ parens indent, s'.mode = .value r.start parens indent) ∧
      ∀ l, l ∈ s.selection.waiting ++ s.selection.kept → l ∈ s'.selection.kept := by
  -- A declaration without a bracket is kept by every step that its line can be read with.
  cases h with
  | blank hnil => exact absurd hnil hne
  | literal _ hin _ _ => simp [Reading.isCode, hin] at hcode
  | hold _ hcode' _ =>
    rw [hcode] at hcode'
    cases hcode'
  | close _ _ hclosed =>
    have hstill : r.stillOpen s.containers = s.containers := by
      simp [Reading.stillOpen, Nat.not_lt.mpr hdepth]
    exact absurd hstill hclosed
  | importing _ _ _ himport' => simp [State.startsImport, himport] at himport'
  | elide _ _ _ =>
    refine ⟨?_, fun l hl => List.mem_cons_of_mem _ hl⟩
    simp only
    split
    · exact .inr ⟨_, _, rfl⟩
    · exact .inl rfl
  | container _ _ hopen' _ =>
    rw [hopen] at hopen'
    cases hopen'
  | body _ _ hopen' _ =>
    rw [hopen] at hopen'
    cases hopen'
  | header _ _ _ _ => exact ⟨.inl rfl, fun l hl => List.mem_cons_of_mem _ hl⟩
  | member _ _ _ _ => exact ⟨.inl rfl, fun l hl => List.mem_cons_of_mem _ hl⟩
  | declaration _ _ _ _ _ => exact ⟨.inl rfl, fun l hl => List.mem_cons_of_mem _ hl⟩
  | other _ _ _ _ hdeclared' =>
    rw [hdeclared] at hdeclared'
    cases hdeclared'

/-! ## All lines

A line that is not of outline level is one of three kinds: of a body, of an import or of an initializer. Where the
mode is known, the step is known up to the reading.
-/

/-- What a line does to the state. -/
inductive Step (s : State) (r : Reading) : State → Prop
  | skip {floor : Nat} (hmode : s.mode = .skip floor) :
      Step s r
        { s.moved r with mode := if r.depth ≤ floor then .outline else .skip floor }
  | importing {floor : Nat} {parens : Int} (hmode : s.mode = .importing floor parens) :
      Step s r
        { s.moved r with
          selection := s.selection.keep r.line
          mode :=
            if r.depth ≤ floor ∧ parens + r.parens ≤ 0 then .outline
            else .importing floor (parens + r.parens) }
  | value {floor : Nat} {parens : Int} {indent : Nat} (hmode : s.mode = .value floor parens indent)
      (hpast : r.isPastValue floor parens indent = false) :
      Step s r
        { s.moved r with
          mode :=
            if r.depth ≤ floor ∧ parens + r.parens ≤ 0 ∧ r.endsStatement then .outline
            else .value floor (parens + r.parens) indent }
  | level {s' : State} (hlevel : s.isLevel r = true) (hstep : LevelStep s r s') : Step s r s'

/-- A line that is taken as one of outline level makes a step of this level. -/
theorem Step.levelStep {s s' : State} {r : Reading} (h : Step s r s') (hlevel : s.isLevel r = true) :
    LevelStep s r s' := by
  rw [State.isLevel] at hlevel
  cases h with
  | skip hmode =>
    rw [hmode] at hlevel
    cases hlevel
  | importing hmode =>
    rw [hmode] at hlevel
    cases hlevel
  | value hmode hpast =>
    rw [hmode] at hlevel
    exact absurd hlevel (Bool.eq_false_iff.mp hpast)
  | level _ hstep => exact hstep

/-- A line of a body selects nothing, and ends the body where the depth falls to its floor. -/
theorem Step.eq_of_skip {s s' : State} {r : Reading} {floor : Nat} (h : Step s r s')
    (hmode : s.mode = .skip floor) :
    s' = { s.moved r with mode := if r.depth ≤ floor then .outline else .skip floor } := by
  cases h with
  | skip hmode' =>
    rw [hmode, Mode.skip.injEq] at hmode'
    rw [hmode']
  | importing hmode' =>
    rw [hmode] at hmode'
    cases hmode'
  | value hmode' _ =>
    rw [hmode] at hmode'
    cases hmode'
  | level hlevel _ =>
    rw [State.isLevel, hmode] at hlevel
    cases hlevel

/-- A line of an import is kept, and ends the import where nothing is left open. -/
theorem Step.eq_of_importing {s s' : State} {r : Reading} {floor : Nat} {parens : Int}
    (h : Step s r s') (hmode : s.mode = .importing floor parens) :
    s' = { s.moved r with
      selection := s.selection.keep r.line
      mode := if r.depth ≤ floor ∧ parens + r.parens ≤ 0 then .outline
        else .importing floor (parens + r.parens) } := by
  cases h with
  | skip hmode' =>
    rw [hmode] at hmode'
    cases hmode'
  | importing hmode' =>
    rw [hmode, Mode.importing.injEq] at hmode'
    obtain ⟨rfl, rfl⟩ := hmode'
    rfl
  | value hmode' _ =>
    rw [hmode] at hmode'
    cases hmode'
  | level hlevel _ =>
    rw [State.isLevel, hmode] at hlevel
    cases hlevel

/-- A line that does not end an initializer only counts its parentheses. -/
theorem Step.eq_of_value {s s' : State} {r : Reading} {floor indent : Nat} {parens : Int}
    (h : Step s r s') (hmode : s.mode = .value floor parens indent)
    (hpast : r.isPastValue floor parens indent = false) :
    s' = { s.moved r with
      mode := if r.depth ≤ floor ∧ parens + r.parens ≤ 0 ∧ r.endsStatement then .outline
        else .value floor (parens + r.parens) indent } := by
  cases h with
  | skip hmode' =>
    rw [hmode] at hmode'
    cases hmode'
  | importing hmode' =>
    rw [hmode] at hmode'
    cases hmode'
  | value hmode' _ =>
    rw [hmode, Mode.value.injEq] at hmode'
    obtain ⟨rfl, rfl, rfl⟩ := hmode'
    rfl
  | level hlevel _ =>
    rw [State.isLevel, hmode] at hlevel
    exact absurd hlevel (Bool.eq_false_iff.mp hpast)

/-- The cases of a line are all there are. -/
theorem step_apply (s : State) (r : Reading) : Step s r (s.apply r) := by
  -- Each mode is one case, except that an initializer may end before the line.
  obtain ⟨inside, depth, containers, mode, header, selection⟩ := s
  cases mode with
  | outline => exact .level rfl (levelStep_outlineLine _ r)
  | skip floor => exact .skip rfl
  | importing floor parens => exact .importing rfl
  | value floor parens indent =>
    simp only [State.apply]
    split
    · next hpast => exact .level hpast (levelStep_outlineLine _ r)
    · next hpast => exact .value rfl (Bool.eq_false_iff.mpr hpast)

end RepoScope.Outline.Braces
