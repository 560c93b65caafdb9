import RepoScope.Proofs.Outline.Abridgement
import RepoScope.Proofs.Outline.Modes
import RepoScope.Proofs.Outline.Words

/-!
# Declarations are shown

A declaration that starts in the first column of a text, outside all braces, literals and comments, is shown
in the outline, whole or cut at the brace that opens its body. Two things can stand in its way, both left
over from the lines above:

* an elided initializer of which the scanner has seen more parentheses open than close (`State.isInValue`),
  as when one of them stands in a regular expression: it then goes on until they are closed, if ever;
* a declaration above that leaves its value for the next line of code (`State.elidesValue`).

`shows_declaration_iff` says that nothing else can. `exists_declaration_lost` is a text that shows the first
of the two: its outline has one line of three that declare something.
-/

namespace RepoScope.Outline.Braces

open Text

/-- Whether a line starts a declaration in the first column, at the top of the text. -/
structure DeclaresAt (lexis : Lexis) (text : List Char) (row : Nat) (line : List Char) : Prop where
  getElem? : (lines text)[row]? = some line
  top : StartsAtTop lexis text row
  column : leadingBlanks line = []
  declares : declarationHeader.isIn (trim line) = true ∨ containerHeader.isIn (trim line) = true

/-- Whether a line of an outline is the whole line, or the line up to the brace that opens its block. -/
def Reading.IsCounterpart (r : Reading) (shown : Line) : Prop :=
  shown = r.line ∨ ∃ column, r.openAt = some column ∧ shown = cutAtBrace r.line column

/-- A counterpart of a line is one of the ways to show it. -/
theorem Reading.IsCounterpart.shows {r : Reading} {shown : Line} (h : r.IsCounterpart shown) :
    Shows r shown := by
  rcases h with rfl | ⟨column, hopen, rfl⟩
  · exact .whole
  · exact .cut hopen

/-! ## The line

At the top of a text, the line is read in code at depth zero, and its first column is not blank.
-/

/-- What is known of the reading of a line that declares something. -/
structure Reading.IsDeclared (r : Reading) : Prop where
  start_eq : r.start = 0
  startsInside : r.startsInside = false
  column : leadingBlanks r.line.text = []
  head : ∃ c rest behind, r.trimmed = c :: rest ∧ r.line.text = c :: rest ++ behind ∧
    c.isAlpha = true
  isDeclaration : isDeclaration r.trimmed = true

section

variable {lexis : Lexis} {text line : List Char} {row : Nat} {s s' : State} {r : Reading}

/-- The reading of a declaration is that of a line in code at the top of the text. -/
theorem DeclaresAt.isDeclared (h : DeclaresAt lexis text row line)
    (hread : readAt? lexis text row = some (s, r)) : r.IsDeclared := by
  obtain ⟨hstart, hinside⟩ := h.top.start_eq hread
  have hrline := line_eq_of_readAt? hread h.getElem?
  have htrimmed : r.trimmed = trim line := by rw [trimmed_of_readAt? hread, hrline]
  obtain ⟨c, rest, htrim, hc⟩ := exists_letter_of_declares h.declares
  obtain ⟨behind, -, hsplit⟩ := exists_eq_append_trim line
  rw [h.column, htrim, List.nil_append] at hsplit
  refine ⟨hstart, hinside, ?_, ⟨c, rest, behind, htrimmed.trans htrim, ?_, hc⟩, ?_⟩
  · rw [hrline]
    exact h.column
  · rw [hrline]
    exact hsplit
  · rw [htrimmed, Outline.isDeclaration]
    rcases h.declares with hdecl | hdecl <;> simp [hdecl]

namespace Reading.IsDeclared

/-- Its text is not blank. -/
theorem ne_nil (h : r.IsDeclared) : r.trimmed ≠ [] := by
  obtain ⟨c, rest, behind, htrimmed, -, -⟩ := h.head
  rw [htrimmed]
  exact List.cons_ne_nil c rest

/-- It is read as code: no declaration looks like an annotation. -/
theorem isCode (h : r.IsDeclared) : r.isCode = true := by
  obtain ⟨c, rest, behind, htrimmed, -, hc⟩ := h.head
  rw [Reading.isCode, h.startsInside, htrimmed, isAnnotation_of_isAlpha hc]
  rfl

/-- Of an elided initializer nothing but parentheses that are open reaches as far as a declaration. -/
theorem isPastValue (h : r.IsDeclared) (floor indent : Nat) (parens : Int) :
    r.isPastValue floor parens indent = decide (parens ≤ 0) := by
  obtain ⟨c, rest, behind, htrimmed, -, hc⟩ := h.head
  have hindent : indentWidth r.line.text = 0 := by rw [indentWidth, h.column]; rfl
  have hstop : Pattern.oneOf ".?:+-*/&|=,)]\x7d" c = false := oneOf_eq_false_of_isAlpha (by decide) hc
  simp [Reading.isPastValue, h.start_eq, h.startsInside, htrimmed, hindent, hstop]

end Reading.IsDeclared

/-! ## The step

A declaration at outline level is kept in each case that is left for it: as the header of a container or of a body,
as one that goes on, or as one that ends on its line. The exceptions are the two of the theorem, in which what is
selected of the line is never its counterpart.
-/

/-- At outline level, a declaration is kept unless it is taken for the value of the one above. -/
theorem LevelStep.exists_counterpart (h : LevelStep s r s') (hr : r.IsDeclared)
    (helide : s.elidesValue r = false) : ∃ l ∈ s'.selection.kept, r.IsCounterpart l := by
  have hwhole : ∃ l ∈ (s.selection.keep r.line).kept, r.IsCounterpart l :=
    ⟨r.line, List.mem_cons_self, .inl rfl⟩
  cases h with
  | blank hnil => exact absurd hnil hr.ne_nil
  | literal _ hin _ _ =>
    rw [hr.startsInside] at hin
    cases hin
  | hold _ hcode _ =>
    rw [hr.isCode] at hcode
    cases hcode
  | close _ _ hclosed => exact absurd (Reading.stillOpen_of_start_eq_zero hr.start_eq _) hclosed
  | elide _ _ helide' =>
    rw [helide] at helide'
    cases helide'
  | @body column _ _ hopen _ =>
    have hdeclared : s.isDeclared r = true := by simp [State.isDeclared, hr.isDeclaration]
    simp only [hdeclared, if_true]
    exact ⟨cutAtBrace r.line column, List.mem_cons_self, .inr ⟨column, hopen, rfl⟩⟩
  | other _ _ _ _ hdeclared =>
    rw [hr.isDeclaration] at hdeclared
    cases hdeclared
  | importing _ _ _ _ => exact hwhole
  | container _ _ _ _ => exact hwhole
  | header _ _ _ _ => exact hwhole
  | member _ _ _ _ => exact hwhole
  | declaration _ _ _ _ _ => exact hwhole

/-- The same in every mode but that of an initializer that goes on. -/
theorem Step.exists_counterpart (h : Step s r s') (hs : s.IsSound) (hdepth : s.depth = 0)
    (hr : r.IsDeclared) (hvalue : s.isInValue r = false) (helide : s.elidesValue r = false) :
    ∃ l ∈ s'.selection.kept, r.IsCounterpart l := by
  cases h with
  | skip hmode =>
    have := hs.skip _ hmode
    omega
  | importing _ => exact ⟨r.line, List.mem_cons_self, .inl rfl⟩
  | value hmode hpast => simp [State.isInValue, hmode, hpast] at hvalue
  | level _ hstep => exact hstep.exists_counterpart hr helide

/-- An elision mark in place of the line is no counterpart of it. -/
theorem Reading.IsDeclared.not_isCounterpart (hr : r.IsDeclared) :
    ¬r.IsCounterpart (elideLine r.line) := by
  obtain ⟨c, rest, behind, -, hline, hc⟩ := hr.head
  have hmark : (elideLine r.line).text.head? = some '.' := by
    rw [elideLine, hr.column]
    rfl
  have hne : some c ≠ some '.' := by
    intro heq
    rw [Option.some.inj heq] at hc
    revert hc
    decide
  rintro (heq | ⟨column, -, heq⟩)
  · rw [heq, hline] at hmark
    exact hne hmark
  · rw [heq, cutAtBrace, hline] at hmark
    exact hne hmark

/-- A declaration that is elided is taken for the value of the declaration above. -/
theorem LevelStep.selection_of_elidesValue (h : LevelStep s r s') (hr : r.IsDeclared)
    (helide : s.elidesValue r = true) : s'.selection = s.selection.keep (elideLine r.line) := by
  have hopen : s.openHeader r ≠ none := by
    intro hnone
    rw [State.elidesValue, hnone] at helide
    cases helide
  have hnot : s.elidesValue r ≠ false := by simp [helide]
  cases h with
  | blank hnil => exact absurd hnil hr.ne_nil
  | literal _ hin _ _ => exact absurd hr.startsInside (by simp [hin])
  | hold _ hcode _ => exact absurd hr.isCode (by simp [hcode])
  | close _ _ hclosed => exact absurd (Reading.stillOpen_of_start_eq_zero hr.start_eq _) hclosed
  | importing _ _ _ himport =>
    exact absurd (by rw [State.openHeader, State.header_of_startsImport himport]; rfl) hopen
  | elide _ _ _ => rfl
  | container _ helide' _ _ => exact absurd helide' hnot
  | body _ helide' _ _ => exact absurd helide' hnot
  | header _ helide' _ _ => exact absurd helide' hnot
  | member _ _ hnone _ => exact absurd hnone hopen
  | declaration _ _ hnone _ _ => exact absurd hnone hopen
  | other _ _ hnone _ _ => exact absurd hnone hopen

/-- A declaration that an initializer reaches, or that is taken for a value, leaves no counterpart. -/
theorem Step.not_isCounterpart (h : Step s r s') (hs : s.IsSound) (hr : r.IsDeclared)
    (hlost : s.isInValue r = true ∨ s.elidesValue r = true) {l : Line} (hl : s'.selection.Has l)
    (hnew : ¬s.selection.Has l) : ¬r.IsCounterpart l := by
  rcases hlost with hvalue | helide
  · rw [h.selection_of_isInValue hvalue] at hl
    exact absurd hl hnew
  · -- Only at outline level is there a header that could go on.
    have hmode : s.mode = .outline := by
      by_contra hmode
      rw [State.elidesValue, State.openHeader, hs.header hmode] at helide
      cases helide
    have hlevel : s.isLevel r = true := by rw [State.isLevel, hmode]
    rw [(h.levelStep hlevel).selection_of_elidesValue hr helide] at hl
    rcases Selection.has_keep hl with rfl | hl
    · exact hr.not_isCounterpart
    · exact absurd hl hnew

/-! ## The line above

That a line is taken for the value of a declaration above it is a matter of the header that is open. Such a header
comes from the line right above, up to lines that are no code, and that line ends with an equals sign or an arrow.
-/

/-- A header whose value is still to come was read on this line, or on one above code that is none. -/
theorem LevelStep.header_value (h : LevelStep s r s') {header : Header}
    (hheader : s'.header = some header) (hvalue : header.value = true) :
    r.isCode = false ∨ opensValue r.trimmed = true := by
  cases h with
  | literal _ hin _ _ => exact .inl (by simp [Reading.isCode, hin])
  | hold _ hcode _ => exact .inl hcode
  | importing _ _ _ himport =>
    have hsome : s.header = some header := hheader
    rw [State.header_of_startsImport himport] at hsome
    cases hsome
  | header _ _ _ _ =>
    simp only at hheader
    split at hheader
    · cases hheader
    · cases hheader
      simp only [Header.extend, Bool.and_eq_true] at hvalue
      exact .inr hvalue.2
  | declaration _ _ _ _ _ =>
    simp only at hheader
    split at hheader
    · cases hheader
    · cases hheader
      simp only [Header.start, Bool.and_eq_true] at hvalue
      exact .inr hvalue.2
  | _ => cases hheader

/-- The same for any step. -/
theorem Step.header_value (h : Step s r s') (hs : s.IsSound) {header : Header}
    (hheader : s'.header = some header) (hvalue : header.value = true) :
    r.isCode = false ∨ opensValue r.trimmed = true := by
  have hnone : s.mode ≠ .outline → s.header ≠ some header := fun hmode => by simp [hs.header hmode]
  cases h with
  | skip hmode => exact absurd hheader (hnone (by simp [hmode]))
  | importing hmode => exact absurd hheader (hnone (by simp [hmode]))
  | value hmode _ => exact absurd hheader (hnone (by simp [hmode]))
  | level _ hstep => exact hstep.header_value hheader hvalue

/-- A line that opens a value ends with an equals sign or an arrow. -/
theorem endsWith_of_opensValue {trimmed : List Char} (h : opensValue trimmed = true) :
    endsWith trimmed "=".toList = true ∨ endsWith trimmed "=>".toList = true := by
  rw [opensValue, Bool.or_eq_true, Bool.and_eq_true] at h
  exact h.symm.imp_left And.left

/-- A declaration is taken for a value only if a line right above it is no code or opens one. -/
theorem exists_above_of_elidesValue (hread : readAt? lexis text row = some (s, r))
    (helide : s.elidesValue r = true) :
    ∃ above t q, row = above + 1 ∧ readAt? lexis text above = some (t, q) ∧
      (q.isCode = false ∨ endsWith q.trimmed "=".toList = true ∨
        endsWith q.trimmed "=>".toList = true) := by
  obtain ⟨hrun, line, hline, -⟩ := readAt?_eq_some.mp hread
  obtain ⟨hlength, -⟩ := List.getElem?_eq_some_iff.mp hline
  obtain ⟨header, hopen, hvalue⟩ : ∃ header, s.header = some header ∧ header.value = true := by
    rw [State.elidesValue, State.openHeader] at helide
    cases hheader : s.header with
    | none =>
      rw [hheader] at helide
      cases helide
    | some header =>
      refine ⟨header, rfl, ?_⟩
      rw [hheader, Option.filter_some] at helide
      split at helide
      · simp only [Option.any_some, Bool.and_eq_true] at helide
        exact helide.1.1
      · cases helide
  -- At the first line no header is open yet, and at any other one the header was opened by the line above.
  cases row with
  | zero =>
    rw [List.take_zero, run?, Option.some.injEq] at hrun
    rw [← hrun] at hopen
    cases hopen
  | succ above =>
    obtain ⟨t, q, hq, rfl⟩ := exists_readAt?_above hread
    exact ⟨above, t, q, rfl, hq, ((step_apply t q).header_value (isSound_of_readAt? hq) hopen
      hvalue).imp_right endsWith_of_opensValue⟩

end

/-! ## The outline

What is kept when the line is read stays, and what is selected later is not of this line. So the outline has a
counterpart of the declaration exactly if the step on its line has selected one.
-/

/--
A declaration in the first column, at the top of the text, has its counterpart in the outline if and only if
no elided initializer reaches as far, and it is not taken for the value of a declaration above. The first
takes a parenthesis that the scanner has not seen closed, the second a line right above that is no code or
ends where a value starts.
-/
theorem shows_declaration_iff {extension : String} {lexis : Lexis} {text out : List Char}
    (hlayout : layout? extension = some (.braces lexis))
    (hout : outline? text (some extension) = some out) :
    ∃ selection, Outline.select? (.braces lexis) text = some selection ∧
      selection.finish text = out ∧ selection.lines.Pairwise (fun a b => a.row < b.row) ∧
      ∀ row line, DeclaresAt lexis text row line →
        ∃ s r, readAt? lexis text row = some (s, r) ∧ r.line = ⟨row, line⟩ ∧
          ((∃ l ∈ selection.lines, r.IsCounterpart l) ↔
            s.isInValue r = false ∧ s.elidesValue r = false) ∧
          (s.isInValue r = true →
            ∃ floor parens indent, s.mode = .value floor parens indent ∧ 0 < parens) ∧
          (s.elidesValue r = true →
            ∃ above t q, row = above + 1 ∧ readAt? lexis text above = some (t, q) ∧
              (q.isCode = false ∨ endsWith q.trimmed "=".toList = true ∨
                endsWith q.trimmed "=>".toList = true)) := by
  obtain ⟨selection, hselect, hfinish⟩ := (outline?_eq_some_iff hlayout).mp hout
  obtain ⟨final, hrun, -, rfl⟩ := select?_eq_some.mp hselect
  refine ⟨final.selection, hselect, hfinish, (abridged_of_select? hselect).1.pairwise_lines, ?_⟩
  intro row line hdeclares
  obtain ⟨hlength, -⟩ := List.getElem?_eq_some_iff.mp hdeclares.getElem?
  obtain ⟨s, r, hread⟩ := exists_readAt? hrun row hlength
  have hr := hdeclares.isDeclared hread
  have hs := isSound_of_readAt? hread
  have hline : r.line = ⟨row, line⟩ := line_eq_of_readAt? hread hdeclares.getElem?
  refine ⟨s, r, hread, hline, ⟨?_, ?_⟩, ?_, exists_above_of_elidesValue hread⟩
  · rintro ⟨l, hl, hcounterpart⟩
    have hrow : l.row = row := by rw [hcounterpart.shows.row_eq, hline]
    -- The line was written when its row was read, and what is written then is no counterpart if the
    -- declaration is lost.
    obtain ⟨hhas, hnew⟩ := has_apply_of_mem_lines hread hrun hl hrow
    by_contra hlost
    rw [not_and_or, Bool.not_eq_false, Bool.not_eq_false] at hlost
    exact (step_apply s r).not_isCounterpart hs hr hlost hhas hnew hcounterpart
  · rintro ⟨hvalue, helide⟩
    have hdepth : s.depth = 0 := by rw [← start_of_readAt? hread, hr.start_eq]
    -- Otherwise a counterpart is written at this row, and what is written stays.
    obtain ⟨l, hl, hcounterpart⟩ :=
      (step_apply s r).exists_counterpart hs hdepth hr hvalue helide
    have hblank := hcounterpart.shows.isBlankText_eq_false hr.ne_nil (trimmed_of_readAt? hread)
    exact ⟨l, mem_lines_of_mem_apply hread hrun hl hblank, hcounterpart⟩
  · intro hvalue
    rw [State.isInValue] at hvalue
    split at hvalue
    · next floor parens indent hmode =>
      rw [hr.isPastValue] at hvalue
      exact ⟨floor, parens, indent, hmode, by simpa using hvalue⟩
    · cases hvalue

/-- A regular expression with a parenthesis in it, and a function below. -/
def regexText : List Char :=
  "export const open =\n  /\\(/;\nexport function f() \x7b\n  g();\n\x7d\n".toList

/-- What the outline selects: the parenthesis stays open, and all below goes with the initializer. -/
def regexSelection : Selection :=
  { kept := [⟨1, "  ...".toList⟩, ⟨0, "export const open =".toList⟩], waiting := [] }

/-- The reading of the function. -/
def regexReading : Reading :=
  { line := ⟨2, "export function f() \x7b".toList⟩, trimmed := "export function f() \x7b".toList,
    startsInside := false, inside := .code, start := 0, depth := 1, parens := 0, openAt := some 20 }

/-- The first line is shown, since nothing is above it. -/
theorem shows_declaration_sample :
    ⟨0, "export const open =".toList⟩ ∈ regexSelection.lines := by
  have hlayout : layout? "ts" = some (.braces .slashesAndBackticks) := by decide +kernel
  have hout : outline? regexText (some "ts") = some "export const open =\n  ...\n".toList := by
    decide +kernel
  have hselection : Outline.select? (.braces .slashesAndBackticks) regexText = some regexSelection := by
    decide +kernel
  have hread : readAt? .slashesAndBackticks regexText 0 = some (State.initial,
      { line := ⟨0, "export const open =".toList⟩, trimmed := "export const open =".toList,
        startsInside := false, inside := .code, start := 0, depth := 0, parens := 0, openAt := none }) := by
    decide +kernel
  obtain ⟨selection, hselect, -, -, hrows⟩ := shows_declaration_iff hlayout hout
  rw [hselection, Option.some.injEq] at hselect
  subst hselect
  obtain ⟨s, r, hread', -, hshown, -, -⟩ := hrows 0 "export const open =".toList
    ⟨by decide +kernel, ⟨by decide, rfl⟩, by decide, .inl (by decide +kernel)⟩
  rw [hread, Option.some.injEq, Prod.mk.injEq] at hread'
  obtain ⟨rfl, rfl⟩ := hread'
  obtain ⟨l, hl, rfl | ⟨column, hopen, -⟩⟩ := hshown.mpr ⟨rfl, rfl⟩
  · exact hl
  · cases hopen

/-- The function is lost: the line above it ends the initializer, but not its parenthesis. -/
theorem exists_declaration_lost :
    ∃ row line above s r,
      layout? "ts" = some (.braces .slashesAndBackticks) ∧
      Outline.select? (.braces .slashesAndBackticks) regexText = some regexSelection ∧
      outline? regexText (some "ts") = some (regexSelection.finish regexText) ∧
      regexSelection.finish regexText ≠ regexText ∧
      DeclaresAt .slashesAndBackticks regexText (row + 1) line ∧
      (lines regexText)[row]? = some above ∧ endsWith (trim above) "=".toList = false ∧
      endsWith (trim above) "=>".toList = false ∧
      readAt? .slashesAndBackticks regexText (row + 1) = some (s, r) ∧
      ∀ l ∈ regexSelection.lines, ¬r.IsCounterpart l := by
  refine ⟨1, "export function f() \x7b".toList, "  /\\(/;".toList,
    ⟨.code, 0, [], .value 0 1 0, none, regexSelection⟩, regexReading, by decide +kernel,
    by decide +kernel, by decide +kernel, by decide +kernel, ?_, by decide +kernel, by decide,
    by decide, by decide +kernel, ?_⟩
  · exact ⟨by decide +kernel, ⟨by decide +kernel, by decide +kernel⟩, by decide,
      .inl (by decide +kernel)⟩
  · intro l hl hcounterpart
    have hrow : l.row = 2 := hcounterpart.shows.row_eq
    have hrows : ∀ l ∈ regexSelection.lines, l.row ≠ 2 := by decide +kernel
    exact hrows l hl hrow

end RepoScope.Outline.Braces
