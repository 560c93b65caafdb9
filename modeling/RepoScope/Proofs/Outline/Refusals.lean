import RepoScope.Proofs.Outline.Balance
import RepoScope.Proofs.Outline.Imports
import RepoScope.Proofs.Outline.Indented.Suites

/-!
# Texts without an outline

A text of a known language has no outline if it does not balance, or if it ends within an import or within the
header of a class or function that goes over several lines (`outline?_eq_none_iff`). Nothing else keeps a text
from being outlined, and no mode lets a text through that does not balance: the depth inside an elided body is
above that of the body, so a text that balances does not end there.

Both constructs start on a line that the outliner takes for their first line, and go on as long as the lines
leave them open. A run ends inside such a construct if and only if one starts that no line closes
(`Outliner.Tracks.ends_iff`).
-/

namespace RepoScope.Outline

open Text

/-! ## Constructs over several lines

Imports and headers are treated by one scheme. A construct starts on some lines, and each line below leaves it open
or closes it; the outliner tracks it if the states in which it is inside of one are just those behind such lines
(`Tracks`). Both directions of `ends_iff` are inductions over the lines between the start and the end: forwards,
nothing closes what was started; backwards, the state says where it started.
-/

namespace Outliner

variable {σ : Type} {O : Outliner σ} {s : σ} {ls : List (List Char)}

/-- Whether a run reads the line `row` in the state `t` and goes on in the state `t'`. -/
def Reads (O : Outliner σ) (s : σ) (ls : List (List Char)) (row : Nat) (t t' : σ) : Prop :=
  O.run? s 0 (ls.take row) = some t ∧ ∃ line, ls[row]? = some line ∧ O.step? t ⟨row, line⟩ = some t'

/-- A run that reads a line has come behind it. -/
theorem Reads.run? {row : Nat} {t t' : σ} (h : O.Reads s ls row t t') :
    O.run? s 0 (ls.take (row + 1)) = some t' := by
  obtain ⟨ht, line, hline, hstep⟩ := h
  obtain ⟨hrow, rfl⟩ := List.getElem?_eq_some_iff.mp hline
  exact (run?_take_succ_eq_some hrow).mpr ⟨t, ht, hstep⟩

/-- A run reads each of its lines. -/
theorem exists_reads {s' : σ} (h : O.run? s 0 ls = some s') {row : Nat} (hrow : row < ls.length) :
    ∃ t t', O.Reads s ls row t t' := by
  obtain ⟨t, t', ht, hstep, -⟩ := exists_run?_take h hrow
  exact ⟨t, t', ht, _, List.getElem?_eq_getElem hrow, hstep⟩

/--
A construct that a state is inside of if `P` holds of it: it starts on some lines, and `Stays first last` says
that the line `last` leaves open what started on the line `first`. Then `Behind first last` holds of the state.
-/
structure Tracks (O : Outliner σ) (s : σ) (ls : List (List Char)) (P : σ → Prop) (Starts : Nat → Prop)
    (Stays : Nat → Nat → Prop) (Behind : Nat → Nat → σ → Prop) : Prop where
  outside : ¬P s
  enter {row : Nat} {t t' : σ} (h : O.Reads s ls row t t') (hP : P t') : P t ∨ Starts row
  first {row : Nat} {t t' : σ} (h : O.Reads s ls row t t') (hstarts : Starts row) :
    Stays row row ∧ Behind row row t' ∨ ¬Stays row row ∧ ¬P t'
  next {row last : Nat} {t t' : σ} (h : O.Reads s ls (last + 1) t t') (hrow : row ≤ last)
    (hbehind : Behind row last t) :
    Stays row (last + 1) ∧ Behind row (last + 1) t' ∨ ¬Stays row (last + 1) ∧ ¬P t'
  isIn {row last : Nat} {t : σ} (h : Behind row last t) : P t

namespace Tracks

variable {P : σ → Prop} {Starts : Nat → Prop} {Stays : Nat → Nat → Prop} {Behind : Nat → Nat → σ → Prop}

/-- Below its first line, a run is inside a construct as long as no line closes it. -/
theorem exists_behind (h : O.Tracks s ls P Starts Stays Behind) {s' : σ} (hrun : O.run? s 0 ls = some s')
    {row last : Nat} (hstarts : Starts row) (hle : row ≤ last) (hlast : last < ls.length)
    (hstays : ∀ k, row ≤ k → k ≤ last → Stays row k) :
    ∃ t, O.run? s 0 (ls.take (last + 1)) = some t ∧ Behind row last t := by
  induction last, hle using Nat.le_induction with
  | base =>
    obtain ⟨t, t', hreads⟩ := exists_reads hrun hlast
    rcases h.first hreads hstarts with ⟨-, hbehind⟩ | ⟨hcloses, -⟩
    · exact ⟨t', hreads.run?, hbehind⟩
    · exact absurd (hstays row (Nat.le_refl row) (Nat.le_refl row)) hcloses
  | succ last hle ih =>
    obtain ⟨t, ht, hbehind⟩ := ih (by omega) fun k hk hk' => hstays k hk (Nat.le_succ_of_le hk')
    obtain ⟨u, u', hreads⟩ := exists_reads hrun hlast
    have hsame : u = t := Option.some.inj (hreads.1.symm.trans ht)
    subst hsame
    rcases h.next hreads hle hbehind with ⟨-, hbehind'⟩ | ⟨hcloses, -⟩
    · exact ⟨u', hreads.run?, hbehind'⟩
    · exact absurd (hstays (last + 1) (Nat.le_succ_of_le hle) (Nat.le_refl _)) hcloses

/-- A state inside a construct has a line above it where the construct starts, and none that closes it. -/
theorem exists_starts (h : O.Tracks s ls P Starts Stays Behind) {s' : σ} (hrun : O.run? s 0 ls = some s')
    {n : Nat} (hn : n ≤ ls.length) {t : σ} (ht : O.run? s 0 (ls.take n) = some t) (hP : P t) :
    ∃ row < n, Starts row ∧ ∀ k, row ≤ k → k < n → Stays row k := by
  induction n generalizing t with
  | zero =>
    cases ht
    exact absurd hP h.outside
  | succ n ih =>
    obtain ⟨u, u', hreads⟩ := exists_reads hrun hn
    have hsame : u' = t := Option.some.inj (hreads.run?.symm.trans ht)
    subst hsame
    -- What is open behind the line was open above it, and the line leaves it open, or it starts on the line.
    rcases h.enter hreads hP with hbefore | hstarts
    · obtain ⟨row, hrow, hstarts, hstays⟩ := ih (Nat.le_of_lt hn) hreads.1 hbefore
      obtain ⟨last, rfl⟩ := Nat.exists_eq_add_of_le' (Nat.lt_of_le_of_lt (Nat.zero_le row) hrow)
      obtain ⟨v, hv, hbehind⟩ := h.exists_behind hrun hstarts (Nat.le_of_lt_succ hrow) (by omega)
        fun k hk hk' => hstays k hk (Nat.lt_succ_of_le hk')
      have hsame : u = v := Option.some.inj (hreads.1.symm.trans hv)
      subst hsame
      refine ⟨row, Nat.lt_succ_of_lt hrow, hstarts, fun k hk hk' => ?_⟩
      rcases Nat.lt_or_eq_of_le (Nat.le_of_lt_succ hk') with hlt | rfl
      · exact hstays k hk hlt
      · rcases h.next hreads (Nat.le_of_lt_succ hrow) hbehind with ⟨hopen, -⟩ | ⟨-, houtside⟩
        · exact hopen
        · exact absurd hP houtside
    · rcases h.first hreads hstarts with ⟨hopen, -⟩ | ⟨-, houtside⟩
      · refine ⟨n, Nat.lt_succ_self n, hstarts, fun k hk hk' => ?_⟩
        rwa [Nat.le_antisymm (Nat.le_of_lt_succ hk') hk]
      · exact absurd hP houtside

/-- A run ends inside a construct if and only if one starts that no line closes. -/
theorem ends_iff (h : O.Tracks s ls P Starts Stays Behind) {s' : σ} (hrun : O.run? s 0 ls = some s') :
    P s' ↔ ∃ row < ls.length, Starts row ∧ ∀ k, row ≤ k → k < ls.length → Stays row k := by
  have htake : ls.take ls.length = ls := List.take_length
  constructor
  · exact h.exists_starts hrun (Nat.le_refl _) (by rwa [htake])
  · rintro ⟨row, hrow, hstarts, hstays⟩
    obtain ⟨last, hlast⟩ := Nat.exists_eq_add_of_le' (Nat.lt_of_le_of_lt (Nat.zero_le row) hrow)
    have hle : row ≤ last := by omega
    obtain ⟨t, ht, hbehind⟩ := h.exists_behind hrun hstarts hle (by omega)
      fun k hk hk' => hstays k hk (by omega)
    rw [← hlast, htake, hrun, Option.some.injEq] at ht
    exact ht ▸ h.isIn hbehind

end Tracks

end Outliner

/-! ## Imports that do not end

An import is tracked by the brackets since its first line, which the outliner compares with the depth at its start.
The first line is treated as one more line of an import with nothing open, as for the imports that end.
-/

/-- What stands from the line `first` to the line `last`, with the line below it. -/
theorem take_drop_succ {ls : List (List Char)} {line : List Char} {first last : Nat}
    (hle : first ≤ last) (hline : ls[last]? = some line) :
    (ls.drop first).take (last + 1 - first) = (ls.drop first).take (last - first) ++ [line] := by
  have hcount : last + 1 - first = last - first + 1 := by omega
  have hget : (ls.drop first)[last - first]? = some line := by
    rw [List.getElem?_drop, ← hline]
    congr 1
    omega
  rw [hcount, List.take_add_one, hget, Option.toList_some]

namespace Braces

variable {lexis : Lexis} {text : List Char} {row last : Nat}

/-- Whether the outliner takes the line `row` for the first of an import. -/
def StartsImport (lexis : Lexis) (text : List Char) (row : Nat) : Prop :=
  ∃ s r, readAt? lexis text row = some (s, r) ∧ s.OpensImport r

/-- Whether a text ends within an import: its braces and parentheses are not closed by any line. -/
def EndsInImport (lexis : Lexis) (text : List Char) : Prop :=
  ∃ row < (lines text).length, StartsImport lexis text row ∧
    ∀ last, row ≤ last → last < (lines text).length → ¬Closes (marksBetween lexis text row last)

/-- What a state knows of an import behind its first lines, of which the first has the number `row`. -/
structure State.IsBehind (s : State) (lexis : Lexis) (row : Nat) (done : List (List Char)) : Prop where
  inside : s.inside = insideAfter lexis .code done
  mode : ∃ floor : Nat, (s.depth : Int) = floor + Mark.height (marksFrom lexis .code row done) ∧
    s.mode = .importing floor (Mark.parenHeight (marksFrom lexis .code row done))

variable {s s' : State} {r : Reading} {line : List Char} {done : List (List Char)}

/-- One more line either leaves the import open, or closes what it has opened and ends it. -/
theorem State.IsBehind.step (hs : s.IsBehind lexis row done) (h : Step s r s')
    (hr : Reading.of? lexis s.inside s.depth ⟨row + done.length, line⟩ = some r) :
    ¬Closes (marksFrom lexis .code row (done ++ [line])) ∧ s'.IsBehind lexis row (done ++ [line]) ∨
      ¬¬Closes (marksFrom lexis .code row (done ++ [line])) ∧
        ¬∃ floor parens, s'.mode = .importing floor parens := by
  obtain ⟨hinside, floor, hdepth, hmode⟩ := hs
  obtain ⟨hline, hheight, hparens⟩ := Reading.open_of_done hr hinside hdepth
  obtain ⟨hinside', hdepth'⟩ := h.inside
  have hnext := h.eq_of_importing hmode
  rw [← hparens] at hnext
  by_cases hend : r.depth ≤ floor ∧ Mark.parenHeight (marksFrom lexis .code row (done ++ [line])) ≤ 0
  · refine .inr ⟨not_not_intro ⟨by omega, hend.2⟩, ?_⟩
    rw [hnext, if_pos hend]
    rintro ⟨_, _, hmode'⟩
    cases hmode'
  · refine .inl ⟨fun hcloses => hend ⟨by have := hcloses.1; omega, hcloses.2⟩, hinside'.trans hline,
      floor, by rw [hdepth', hheight], ?_⟩
    rw [hnext]
    exact if_neg hend

/-- A run over a text reads a line as the line is read in the text. -/
theorem reads_iff {t t' : State} :
    (outliner lexis).Reads .initial (lines text) row t t' ↔
      ∃ r, readAt? lexis text row = some (t, r) ∧ t.apply r = t' := by
  rw [Outliner.Reads, ← run?_eq_run?]
  constructor
  · rintro ⟨ht, line, hline, hstep⟩
    obtain ⟨r, hr, rfl⟩ := step?_eq_some.mp hstep
    exact ⟨r, readAt?_eq_some.mpr ⟨ht, line, hline, hr⟩, rfl⟩
  · rintro ⟨r, hread, rfl⟩
    obtain ⟨ht, line, hline, hr⟩ := readAt?_eq_some.mp hread
    exact ⟨ht, line, hline, step?_eq_some.mpr ⟨r, hr, rfl⟩⟩

/-- An import goes on behind a line only if it went on above, or starts on this line. -/
theorem Step.opensImport {floor : Nat} {parens : Int} (h : Step s r s')
    (hmode : s'.mode = .importing floor parens) :
    (∃ floor parens, s.mode = .importing floor parens) ∨ s.OpensImport r := by
  cases h with
  | skip _ =>
    simp only at hmode
    split at hmode <;> cases hmode
  | importing hbefore => exact .inl ⟨_, _, hbefore⟩
  | value _ _ =>
    simp only at hmode
    split at hmode <;> cases hmode
  | level hlevel hstep =>
    cases hstep with
    | importing _ hcode hstill himport =>
      rw [Reading.isCode, Bool.and_eq_true, Bool.not_eq_true'] at hcode
      exact .inr ⟨hlevel, hcode.1, hstill, himport⟩
    | elide _ _ _ =>
      simp only at hmode
      split at hmode <;> cases hmode
    | body _ _ _ _ =>
      simp only at hmode
      split at hmode <;> cases hmode
    | _ => cases hmode

/-- The outliner tracks imports by the brackets of their lines. -/
theorem tracks_import (lexis : Lexis) (text : List Char) :
    (outliner lexis).Tracks .initial (lines text) (fun t => ∃ floor parens, t.mode = .importing floor parens)
      (StartsImport lexis text) (fun row last => ¬Closes (marksBetween lexis text row last))
      fun row last t => t.IsBehind lexis row (((lines text).drop row).take (last + 1 - row)) where
  outside := by
    rintro ⟨_, _, hmode⟩
    cases hmode
  enter {row t t'} h := by
    rintro ⟨floor, parens, hmode⟩
    obtain ⟨r, hread, rfl⟩ := reads_iff.mp h
    exact ((step_apply t r).opensImport hmode).imp_right fun hopens => ⟨t, r, hread, hopens⟩
  first {row t t'} h hstarts := by
    obtain ⟨r, hread, rfl⟩ := reads_iff.mp h
    obtain ⟨s, r', hread', hopens⟩ := hstarts
    rw [hread, Option.some.injEq, Prod.mk.injEq] at hread'
    obtain ⟨rfl, rfl⟩ := hread'
    obtain ⟨-, line, hline, hr⟩ := readAt?_eq_some.mp hread
    have hstart := start_of_readAt? hread
    have hcode : t.inside = .code := by
      have hinside := hopens.startsInside
      obtain ⟨_, -, rfl⟩ := Reading.of?_eq_some hr
      simpa using hinside
    -- The line is read as if the import were open above it, with none of its lines done.
    have hbehind : State.IsBehind { t with mode := .importing r.start 0 } lexis row [] :=
      ⟨hcode, r.start, by simp [marksFrom, hstart], by simp [marksFrom]⟩
    have hstep := hbehind.step (step_apply _ r) hr
    rw [marksBetween, take_drop_succ (Nat.le_refl row) hline, Nat.sub_self, List.take_zero, hopens.apply_eq]
    exact hstep
  next {row last t t'} h hrow hbehind := by
    obtain ⟨r, hread, rfl⟩ := reads_iff.mp h
    obtain ⟨-, line, hline, hr⟩ := readAt?_eq_some.mp hread
    have hlength := (List.getElem?_eq_some_iff.mp hline).1
    have hlast : row + (((lines text).drop row).take (last + 1 - row)).length = last + 1 := by
      rw [List.length_take, List.length_drop]
      omega
    rw [← hlast] at hr
    have hstep := hbehind.step (step_apply t r) hr
    rw [marksBetween, take_drop_succ (Nat.le_succ_of_le hrow) hline]
    exact hstep
  isIn h := by
    obtain ⟨floor, -, hmode⟩ := h.mode
    exact ⟨floor, _, hmode⟩

/-- Where a text balances, its run ends inside an import if the text does, and never inside an elided body. -/
theorem isClosed_iff (hrun : run? lexis .initial 0 (lines text) = some s) (hdepth : s.depth = 0)
    (hinside : s.inside = .code) : s.isClosed = true ↔ ¬EndsInImport lexis text := by
  have hends := (tracks_import lexis text).ends_iff (by rwa [← run?_eq_run?])
  rw [EndsInImport, ← hends, State.isClosed, hdepth, hinside]
  cases hmode : s.mode with
  | skip floor =>
    -- The depth inside an elided body is above its floor, so it is not zero.
    have := (isSound_of_run? hrun).skip floor hmode
    omega
  | _ => simp

theorem exists_select?_iff :
    (∃ selection, select? lexis text = some selection) ↔
      (Layout.braces lexis).Balances text ∧ ¬EndsInImport lexis text := by
  rw [(outliner_follows lexis).balances_iff (s := .initial) rfl rfl]
  constructor
  · rintro ⟨selection, hselect⟩
    obtain ⟨s, hrun, hclosed, -⟩ := select?_eq_some.mp hselect
    obtain ⟨hdepth, hinside⟩ : s.depth = 0 ∧ s.inside = .code := by
      rw [State.isClosed, Bool.and_eq_true, Bool.and_eq_true, beq_iff_eq, beq_iff_eq] at hclosed
      exact hclosed.1
    exact ⟨⟨s, by rwa [← run?_eq_run?], hdepth, hinside⟩, (isClosed_iff hrun hdepth hinside).mp hclosed⟩
  · rintro ⟨⟨s, hrun, hdepth, hinside⟩, hends⟩
    rw [← run?_eq_run?] at hrun
    exact ⟨_, select?_eq_some.mpr ⟨s, hrun, (isClosed_iff hrun hdepth hinside).mpr hends, rfl⟩⟩

end Braces

/-! ## Headers that do not end

Where blocks are indented, a header is tracked line by line: it is left open by a line that ends inside brackets or
without a colon. The first line counts for opening it only.
-/

namespace Indented

variable {lexis : Lexis} {text : List Char} {row last : Nat} {s s' : State} {r : Reading}

/-- Whether the outliner takes a line for the first of a header that goes on below it. -/
structure State.OpensHeader (s : State) (r : Reading) : Prop where
  isLevel : s.isLevel r = true
  isStatement : r.isStatement = true
  isHeader : r.isHeader = true
  headerColon? : headerColon? r.trimmed = none
  depth : 0 < r.depth

/-- Whether the outliner takes the line `row` for the first of a header that goes on below it. -/
def StartsHeader (lexis : Lexis) (text : List Char) (row : Nat) : Prop :=
  ∃ s r, readAt? lexis text row = some (s, r) ∧ s.OpensHeader r

/-- Whether a header that is open where a line starts is open at its end. -/
def LeavesHeader (lexis : Lexis) (text : List Char) (row : Nat) : Prop :=
  ∃ s r, readAt? lexis text row = some (s, r) ∧ r.endsHeader = false

/--
Whether a text ends within the header of a class or function: no line below its first one is outside all
brackets at its end and ends with a colon.
-/
def EndsInHeader (lexis : Lexis) (text : List Char) : Prop :=
  ∃ row < (lines text).length, StartsHeader lexis text row ∧
    ∀ last, row < last → last < (lines text).length → LeavesHeader lexis text last

/-- A line that starts a header goes on with it. -/
theorem LevelStep.mode_of_opensHeader (h : LevelStep s r s') (hopens : s.OpensHeader r) :
    s'.mode = .header r.indent (isClassHeader r.trimmed) := by
  obtain ⟨-, hstatement, hheader, hcolon, hdepth⟩ := hopens
  have hin : r.isContinued = false := by
    simp only [Reading.isStatement, Bool.and_eq_true, Bool.not_eq_true'] at hstatement
    exact hstatement.1.1.1
  have hkeeps : s.keepsStatement r = false := by
    have himport : moduleImport.isIn r.trimmed = false := by
      rw [Reading.isHeader, Bool.and_eq_true, Bool.not_eq_true'] at hheader
      exact hheader.1
    simp [State.keepsStatement, himport, hheader]
  cases h with
  | waiting hin' _ => exact absurd hin' (by simp [hin])
  | within hin' _ => exact absurd hin' (by simp [hin])
  | blank _ hnil => simp [Reading.isStatement, hnil] at hstatement
  | decorator _ _ hhead => rcases hhead with hhead | hhead <;> simp [Reading.isStatement, hhead] at hstatement
  | statement _ hkept => exact absurd hkept (by simp [hkeeps])
  | block _ _ hcolon' _ => exact absurd hcolon' (by simp [hcolon])
  | oneLineClass _ _ hcolon' _ _ => exact absurd hcolon' (by simp [hcolon])
  | oneLineDef _ _ hcolon' _ _ => exact absurd hcolon' (by simp [hcolon])
  | header _ _ _ _ => rfl
  | noColon _ _ _ hzero => omega
  | other _ hheader' _ => exact absurd hheader (by simp [hheader'])

theorem reads_iff {t t' : State} :
    (outliner lexis).Reads .initial (lines text) row t t' ↔
      ∃ r, readAt? lexis text row = some (t, r) ∧ t.apply r = t' := by
  rw [Outliner.Reads]
  constructor
  · rintro ⟨ht, line, hline, hstep⟩
    obtain ⟨r, hr, rfl⟩ := step?_eq_some.mp hstep
    exact ⟨r, readAt?_eq_some.mpr ⟨ht, line, hline, hr⟩, rfl⟩
  · rintro ⟨r, hread, rfl⟩
    obtain ⟨ht, line, hline, hr⟩ := readAt?_eq_some.mp hread
    exact ⟨ht, line, hline, step?_eq_some.mpr ⟨r, hr, rfl⟩⟩

/-- Behind its colon, a header is over. -/
theorem State.mode_enterBlock_ne (s : State) (indent indent' : Nat) (isClass isClass' : Bool) :
    (s.enterBlock indent isClass).mode ≠ .header indent' isClass' := by
  rw [State.enterBlock]
  split <;> exact fun hmode => by cases hmode

/-- A header goes on behind a line only if it went on above, or starts on this line. -/
theorem Step.opensHeader {indent : Nat} {isClass : Bool} (h : Step s r s')
    (hmode : s'.mode = .header indent isClass) :
    (∃ indent isClass, s.mode = .header indent isClass) ∨ s.OpensHeader r := by
  cases h with
  | header hbefore _ => exact .inl ⟨_, _, hbefore⟩
  | headerEnd hbefore _ => exact .inl ⟨_, _, hbefore⟩
  | continuing _ =>
    simp only at hmode
    split at hmode <;> cases hmode
  | mark _ _ _ => cases hmode
  | body hbody _ _ => exact .inl ⟨_, _, hmode⟩
  | level hlevel hstep =>
    cases hstep with
    | statement _ _ =>
      simp only at hmode
      split at hmode <;> cases hmode
    | block _ _ _ _ => exact absurd hmode (State.mode_enterBlock_ne _ _ _ _ _)
    | header hstatement hheader hcolon hdepth =>
      exact .inr ⟨hlevel, hstatement, hheader, hcolon, hdepth⟩
    | _ => cases hmode

/-- The outliner tracks headers by how their lines end. -/
theorem tracks_header (lexis : Lexis) (text : List Char) :
    (outliner lexis).Tracks .initial (lines text) (fun t => ∃ indent isClass, t.mode = .header indent isClass)
      (StartsHeader lexis text) (fun row last => row < last → LeavesHeader lexis text last)
      fun _ _ t => ∃ indent isClass, t.mode = .header indent isClass where
  outside := by
    rintro ⟨_, _, hmode⟩
    cases hmode
  enter {row t t'} h := by
    rintro ⟨indent, isClass, hmode⟩
    obtain ⟨r, hread, rfl⟩ := reads_iff.mp h
    exact ((step_apply t r).opensHeader hmode).imp_right fun hopens => ⟨t, r, hread, hopens⟩
  first {row t t'} h hstarts := by
    obtain ⟨r, hread, rfl⟩ := reads_iff.mp h
    obtain ⟨s, r', hread', hopens⟩ := hstarts
    obtain ⟨rfl, rfl⟩ := readAt?_inj hread hread'
    exact .inl ⟨fun hlt => absurd hlt (Nat.lt_irrefl row), _, _,
      ((step_apply t r).levelStep hopens.isLevel).mode_of_opensHeader hopens⟩
  next {row last t t'} h hrow hbehind := by
    obtain ⟨r, hread, rfl⟩ := reads_iff.mp h
    obtain ⟨indent, isClass, hmode⟩ := hbehind
    rw [(step_apply t r).eq_of_header hmode]
    -- A header is open until a line ends it, and behind that line the outliner is in no header.
    cases hends : r.endsHeader with
    | false => exact .inl ⟨fun _ => ⟨t, r, hread, hends⟩, indent, isClass, hmode⟩
    | true =>
      refine .inr ⟨fun hstays => ?_, ?_⟩
      · obtain ⟨s, r', hread', hopen⟩ := hstays (Nat.lt_succ_of_le hrow)
        obtain ⟨rfl, rfl⟩ := readAt?_inj hread hread'
        rw [hends] at hopen
        cases hopen
      · rintro ⟨indent', isClass', hmode'⟩
        exact absurd hmode' (State.mode_enterBlock_ne _ _ _ _ _)
  isIn h := h

/-- Where a text balances, it may end unless it ends within a header. -/
theorem isClosed_iff (hrun : run? lexis .initial 0 (lines text) = some s) (hdepth : s.depth = 0)
    (hinside : s.inside = .code) : s.isClosed = true ↔ ¬EndsInHeader lexis text := by
  have hends := (tracks_header lexis text).ends_iff hrun
  -- The first line of a header says nothing about its end.
  have hbelow : EndsInHeader lexis text ↔ ∃ row < (lines text).length, StartsHeader lexis text row ∧
      ∀ last, row ≤ last → last < (lines text).length → row < last → LeavesHeader lexis text last := by
    refine exists_congr fun row => and_congr_right fun _ => and_congr_right fun _ => ?_
    exact forall_congr' fun last =>
      ⟨fun hall _ hlast hlt => hall hlt hlast, fun hall hlt hlast => hall hlt.le hlast hlt⟩
  rw [hbelow, ← hends, State.isClosed, hdepth, hinside]
  cases hmode : s.mode <;> simp

theorem exists_select?_iff :
    (∃ selection, select? lexis text = some selection) ↔
      (Layout.indented lexis).Balances text ∧ ¬EndsInHeader lexis text := by
  rw [(outliner_follows lexis).balances_iff (s := .initial) rfl rfl]
  constructor
  · rintro ⟨selection, hselect⟩
    obtain ⟨s, hrun, hclosed, -⟩ := select?_eq_some.mp hselect
    obtain ⟨hdepth, hinside⟩ : s.depth = 0 ∧ s.inside = .code := by
      rw [State.isClosed, Bool.and_eq_true, Bool.and_eq_true, beq_iff_eq, beq_iff_eq] at hclosed
      exact hclosed.1
    exact ⟨⟨s, hrun, hdepth, hinside⟩, (isClosed_iff hrun hdepth hinside).mp hclosed⟩
  · rintro ⟨⟨s, hrun, hdepth, hinside⟩, hends⟩
    exact ⟨_, select?_eq_some.mpr ⟨s, hrun, (isClosed_iff hrun hdepth hinside).mpr hends, rfl⟩⟩

end Indented

/-! ## Texts without an outline

What is left is to put both layouts together. An outline is a selection that is finished, so there is one if the
run gets through the text and ends where it may; the first is that no bracket closes too much, and the second that
nothing is open behind the last line.
-/

/-- Whether a text ends within an import, or where blocks are indented within the header of one. -/
def Layout.EndsOpen : Layout → List Char → Prop
  | braces lexis, text => Braces.EndsInImport lexis text
  | indented lexis, text => Indented.EndsInHeader lexis text

theorem exists_select?_iff {layout : Layout} {text : List Char} :
    (∃ selection, select? layout text = some selection) ↔
      layout.Balances text ∧ ¬layout.EndsOpen text := by
  cases layout with
  | braces lexis => exact Braces.exists_select?_iff
  | indented lexis => exact Indented.exists_select?_iff

/--
A text of a known language has no outline, and is shown as it is, if and only if it does not balance or ends
within an import or a header. This is so whatever the outliner is doing where a bracket is wrong. Any other text is
shown by its outline, the lines that are selected of it.
-/
theorem outline?_eq_none_iff {layout : Layout} {extension : String}
    (hlayout : layout? extension = some layout) (text : List Char) :
    (outline? text (some extension) = none ↔ ¬layout.Balances text ∨ layout.EndsOpen text) ∧
      (outline? text (some extension) = none → outline text (some extension) = text) ∧
      ∀ out, outline? text (some extension) = some out → outline text (some extension) = out ∧
        ∃ selection, select? layout text = some selection ∧ out = selection.finish text := by
  refine ⟨?_, ?_, ?_⟩
  · have hsome : (∃ out, outline? text (some extension) = some out) ↔
        layout.Balances text ∧ ¬layout.EndsOpen text := by
      rw [← exists_select?_iff]
      constructor
      · rintro ⟨out, hout⟩
        obtain ⟨selection, hselect, -⟩ := (outline?_eq_some_iff hlayout).mp hout
        exact ⟨selection, hselect⟩
      · rintro ⟨selection, hselect⟩
        exact ⟨_, (outline?_eq_some_iff hlayout).mpr ⟨selection, hselect, rfl⟩⟩
    rw [← Option.not_isSome_iff_eq_none, Option.isSome_iff_exists, hsome, not_and_or, not_not]
  · intro hnone
    rw [outline, hnone]
    rfl
  · intro out hout
    obtain ⟨selection, hselect, hfinish⟩ := (outline?_eq_some_iff hlayout).mp hout
    refine ⟨?_, selection, hselect, hfinish.symm⟩
    rw [outline, hout]
    rfl

/-- A brace too many in the body of a function, where the outliner shows nothing. -/
def overclosedText : List Char :=
  "fn f() \x7b\n    run();\x7d\x7d\n\x7b\n".toList

/--
The text has a brace too many in a body, and another one of the other kind behind it, so that as many open as close
in the end. It has no outline all the same.
-/
theorem outline?_overclosedText :
    layout? "rs" = some (.braces .slashesAndTicks) ∧
      outline? overclosedText (some "rs") = none ∧
      outline overclosedText (some "rs") = overclosedText := by
  have hlayout : layout? "rs" = some (.braces .slashesAndTicks) := by decide +kernel
  obtain ⟨hrefused, hshown, -⟩ := outline?_eq_none_iff hlayout overclosedText
  have hnone := hrefused.mpr (.inl (by decide +kernel))
  exact ⟨hlayout, hnone, hshown hnone⟩

/-- A text that balances may end within an import, since only its braces are counted. -/
example : (Layout.braces .slashesAndBackticks).Balances "import (\n".toList ∧
    outline? "import (\n".toList (some "go") = none := by
  decide +kernel

end RepoScope.Outline
