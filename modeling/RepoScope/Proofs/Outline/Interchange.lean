import RepoScope.Proofs.Outline.Abridgement
import RepoScope.Proofs.Outline.Indented.Suites
import RepoScope.Proofs.Outline.Rows

/-!
# Elided lines can be exchanged

An outline does not depend on what stands in an elided body. Two texts that differ in a block of lines
(`DifferIn`) have the same outline, or neither has one, if the outliner is inside the same elided body before
the block and behind each of its lines, and both blocks end at the same depth and inside the same literal or
comment (`outline?_eq_of_elides`).

As long as it stays inside the body, the outliner changes nothing but the depth and what it is inside of
(`Braces.frame_of_skip`, `Indented.frame_of_body`). So the states behind both blocks are one and the same, and
what follows is read alike but for the numbers of the lines.
-/

namespace RepoScope.Outline

open Text

/-! ## Blocks of lines

Two texts are given as what stands before, a block each, and what stands behind. Since a run over lines is the run
over the first ones, and from there over the others, it is enough that both blocks lead from one state to one
state. The selection numbers its rows, and those behind the blocks have other numbers in the two texts, so states
are compared without numbers.
-/

/--
Whether two texts have the same lines but for a block of them. The line feed at the end of a text is no part of
its last line, so both have one or neither has.
-/
structure DifferIn (text text' : List Char) (before block block' behind : List (List Char)) : Prop where
  left : lines text = before ++ block ++ behind
  right : lines text' = before ++ block' ++ behind
  lineFeed : text.getLast? = some '\n' ↔ text'.getLast? = some '\n'

namespace Outliner

variable {σ : Type} {O : Outliner σ}

/-- Whether a run over lines leads from `s` to `t`, with `P` before the first line and behind each of them. -/
inductive StaysIn (O : Outliner σ) (P : σ → Prop) : σ → σ → Nat → List (List Char) → Prop
  | nil {s : σ} {row : Nat} (h : P s) : StaysIn O P s s row []
  | cons {s next t : σ} {row : Nat} {line : List Char} {rest : List (List Char)} (h : P s)
      (hnext : O.step? s ⟨row, line⟩ = some next) (hrest : StaysIn O P next t (row + 1) rest) :
      StaysIn O P s t row (line :: rest)

namespace StaysIn

variable {P : σ → Prop} {s t : σ} {row : Nat} {ls : List (List Char)}

/-- A run of this kind starts with what it keeps. -/
theorem start (h : O.StaysIn P s t row ls) : P s := by
  cases h with
  | nil hP => exact hP
  | cons hP _ _ => exact hP

/-- A run of this kind is a run of the outliner. -/
theorem run? (h : O.StaysIn P s t row ls) : O.run? s row ls = some t := by
  induction h with
  | nil _ => rfl
  | cons _ hnext _ ih => exact run?_cons.mpr ⟨_, hnext, ih⟩

/-- What a line keeps that leads from `P` to `P`, the whole run keeps. -/
theorem frame_eq {τ : Type} {frame : σ → τ}
    (hframe : ∀ {u u' line}, P u → P u' → O.step? u line = some u' → frame u' = frame u)
    (h : O.StaysIn P s t row ls) : frame t = frame s := by
  induction h with
  | nil _ => rfl
  | cons hP hnext hrest ih => rw [ih, hframe hP hrest.start hnext]

end StaysIn

/-- What blank lines keep is lost behind a line that is not blank. -/
theorem exists_solid {P : σ → Prop} {s s' : σ} {row : Nat} {ls : List (List Char)}
    (h : O.run? s row ls = some s') (hs : P s) (hs' : ¬P s')
    (hblank : ∀ {t t' line}, P t → isBlankText line.text = true → O.step? t line = some t' → P t') :
    ∃ line ∈ ls, isBlankText line = false := by
  by_contra hall
  refine hs' (run?_invariant (P := fun _ => P) h hs fun i line t t' hline ht ht' => hblank ht ?_ ht')
  rw [← Bool.not_eq_false]
  exact fun hsolid => hall ⟨line, List.mem_of_getElem? hline, hsolid⟩

/-- Without the numbers, a selection is that of the end of the run without numbers. -/
theorem map_select?_unnumbered (unnumbered : σ → σ) (isClosed : σ → Bool)
    (hclosed : ∀ s, isClosed (unnumbered s) = isClosed s)
    (hselection : ∀ s, O.selection (unnumbered s) = (O.selection s).unnumbered) (s : σ) (text : List Char) :
    (((numbered text).foldlM O.step? s).bind fun s =>
        if isClosed s then some (O.selection s) else none).map Selection.unnumbered =
      ((O.run? s 0 (lines text)).map unnumbered).bind fun s =>
        if isClosed s then some (O.selection s) else none := by
  rw [O.foldlM_numbered, Option.map_bind, Option.bind_map]
  refine congrArg (Option.bind _) (funext fun s => ?_)
  simp only [Function.comp_apply, hclosed, hselection]
  exact apply_ite (Option.map Selection.unnumbered) _ _ _

end Outliner

/-- Where two blocks lead to the same state, the texts are read to the same end, but for the numbers of lines. -/
theorem DifferIn.map_run?_eq {σ : Type} {O : Outliner σ} {unnumbered : σ → σ}
    (hstep : ∀ s line, (O.step? s line).map unnumbered = O.step? (unnumbered s) line.unnumbered)
    {text text' : List Char} {before block block' behind : List (List Char)}
    (h : DifferIn text text' before block block' behind) {s₀ s t : σ} (hs : O.run? s₀ 0 before = some s)
    (ht : O.run? s before.length block = some t) (ht' : O.run? s before.length block' = some t) :
    (O.run? s₀ 0 (lines text)).map unnumbered = (O.run? s₀ 0 (lines text')).map unnumbered := by
  rw [h.left, h.right, List.append_assoc, List.append_assoc, O.run?_append, O.run?_append, hs]
  change ((O.run? s (0 + before.length) (block ++ behind)).map unnumbered) =
    (O.run? s (0 + before.length) (block' ++ behind)).map unnumbered
  rw [Nat.zero_add, O.run?_append, O.run?_append, ht, ht']
  exact Outliner.map_run?_eq_of_unnumbered hstep rfl _ _ behind

/-! ## Elided bodies -/

namespace Braces

variable {lexis : Lexis}

/-- A state without what depends on the brackets so far. -/
def State.frame (s : State) : State := { s with inside := .code, depth := 0 }

theorem State.eq_of_frame_eq {s s' : State} (h : s.frame = s'.frame) (hinside : s.inside = s'.inside)
    (hdepth : s.depth = s'.depth) : s = s' :=
  calc
    s = { s.frame with inside := s.inside, depth := s.depth } := rfl
    _ = { s'.frame with inside := s'.inside, depth := s'.depth } := by rw [h, hinside, hdepth]
    _ = s' := rfl

/-- Inside an elided body, a line changes nothing but the depth and what its end is inside of. -/
theorem frame_of_skip {floor : Nat} {s s' : State} {line : Line} (hs : s.mode = .skip floor)
    (hs' : s'.mode = .skip floor) (h : step? lexis s line = some s') :
    s'.frame = s.frame := by
  obtain ⟨r, -, rfl⟩ := step?_eq_some.mp h
  have hnext := (step_apply s r).eq_of_skip hs
  rw [hnext] at hs' ⊢
  simp only at hs'
  rw [hs', ← hs]
  rfl

/-- Blank lines are read at outline level. -/
theorem exists_solid_of_mode {s : State} {ls : List (List Char)}
    (h : (outliner lexis).run? .initial 0 ls = some s) (hmode : s.mode ≠ .outline) :
    ∃ line ∈ ls, isBlankText line = false := by
  refine Outliner.exists_solid (P := fun t => t.mode = .outline) h rfl hmode fun {t t' line} ht hblank ht' => ?_
  obtain ⟨r, hr, rfl⟩ := step?_eq_some.mp ht'
  have hnil : r.trimmed = [] := (Reading.trimmed_eq hr).trans (trim_eq_nil_iff.mpr (List.all_eq_true.mp hblank))
  rw [((step_apply t r).levelStep (by rw [State.isLevel, ht])).of_trimmed_eq_nil hnil]
  rfl

theorem map_select?_unnumbered (text : List Char) :
    (select? lexis text).map Selection.unnumbered =
      (((outliner lexis).run? .initial 0 (lines text)).map State.unnumbered).bind
        fun s => if s.isClosed then some s.selection else none :=
  (outliner lexis).map_select?_unnumbered State.unnumbered State.isClosed (fun _ => rfl) (fun _ => rfl)
    .initial text

end Braces

namespace Indented

variable {lexis : Lexis}

/-- A state without what depends on the brackets so far. -/
def State.frame (s : State) : State := { s with inside := .code, depth := 0 }

theorem State.eq_of_frame_eq {s s' : State} (h : s.frame = s'.frame) (hinside : s.inside = s'.inside)
    (hdepth : s.depth = s'.depth) : s = s' :=
  calc
    s = { s.frame with inside := s.inside, depth := s.depth } := rfl
    _ = { s'.frame with inside := s'.inside, depth := s'.depth } := by rw [h, hinside, hdepth]
    _ = s' := rfl

/-- A line at outline level may open a body, but not with its elision mark. -/
theorem LevelStep.mode_ne_marked {s s' : State} {r : Reading} (h : LevelStep s r s') (indent : Nat) :
    s'.mode ≠ .body indent true := by
  intro hmode
  cases h with
  | statement _ _ =>
    simp only at hmode
    split at hmode <;> cases hmode
  | block _ _ _ _ =>
    rw [State.enterBlock] at hmode
    split at hmode <;> cases hmode
  | _ => cases hmode

theorem LevelStep.mode_of_trimmed_eq_nil {s s' : State} {r : Reading} (h : LevelStep s r s')
    (hnil : r.trimmed = []) : s'.mode = .outline := by
  have hnot : r.isStatement ≠ true := by simp [Reading.isStatement, hnil]
  cases h with
  | waiting _ _ => rfl
  | within _ _ => rfl
  | blank _ _ => rfl
  | decorator _ hne _ => exact absurd hnil hne
  | statement hstarts _ => exact absurd hstarts hnot
  | block hstarts _ _ _ => exact absurd hstarts hnot
  | oneLineClass hstarts _ _ _ _ => exact absurd hstarts hnot
  | oneLineDef hstarts _ _ _ _ => exact absurd hstarts hnot
  | header hstarts _ _ _ => exact absurd hstarts hnot
  | noColon hstarts _ _ _ => exact absurd hstarts hnot
  | other hstarts _ _ => exact absurd hstarts hnot

/-- Inside a body with its elision mark, a line changes nothing but the depth and what its end is inside of. -/
theorem frame_of_body {indent : Nat} {s s' : State} {line : Line} (hs : s.mode = .body indent true)
    (hs' : s'.mode = .body indent true) (h : step? lexis s line = some s') :
    s'.frame = s.frame := by
  obtain ⟨r, -, rfl⟩ := step?_eq_some.mp h
  by_cases hin : r.isInBody indent = true
  · rcases (step_apply s r).of_body hs hin with hnext | ⟨hmarked, -⟩
    · rw [hnext]
      rfl
    · cases hmarked
  · have hlevel : s.isLevel r = true := by
      rw [State.isLevel, hs]
      simpa using hin
    exact absurd hs' (((step_apply s r).levelStep hlevel).mode_ne_marked indent)

/-- Blank lines are read at outline level. -/
theorem exists_solid_of_mode {s : State} {ls : List (List Char)}
    (h : (outliner lexis).run? .initial 0 ls = some s) (hmode : s.mode ≠ .outline) :
    ∃ line ∈ ls, isBlankText line = false := by
  refine Outliner.exists_solid (P := fun t => t.mode = .outline) h rfl hmode fun {t t' line} ht hblank ht' => ?_
  obtain ⟨r, hr, rfl⟩ := step?_eq_some.mp ht'
  have hnil : r.trimmed = [] := (Reading.trimmed_eq hr).trans (trim_eq_nil_iff.mpr (List.all_eq_true.mp hblank))
  exact ((step_apply t r).levelStep (by rw [State.isLevel, ht])).mode_of_trimmed_eq_nil hnil

theorem map_select?_unnumbered (text : List Char) :
    (select? lexis text).map Selection.unnumbered =
      (((outliner lexis).run? .initial 0 (lines text)).map State.unnumbered).bind
        fun s => if s.isClosed then some s.selection else none :=
  (outliner lexis).map_select?_unnumbered State.unnumbered State.isClosed (fun _ => rfl) (fun _ => rfl)
    .initial text

end Indented

/--
Whether the outliner is inside one and the same elided body before a block of lines and behind each of them, of
which the elision mark has been written. Behind the block it is at depth `depth` and inside of `inside`.
-/
def Layout.Elides : Layout → List (List Char) → List (List Char) → Nat → Inside → Prop
  | braces lexis, before, block, depth, inside =>
    ∃ s t floor, (Braces.outliner lexis).run? .initial 0 before = some s ∧
      (Braces.outliner lexis).StaysIn (·.mode = .skip floor) s t before.length block ∧
      t.depth = depth ∧ t.inside = inside
  | indented lexis, before, block, depth, inside =>
    ∃ s t indent, (Indented.outliner lexis).run? .initial 0 before = some s ∧
      (Indented.outliner lexis).StaysIn (·.mode = .body indent true) s t before.length block ∧
      t.depth = depth ∧ t.inside = inside

section

variable {layout : Layout} {before block block' behind : List (List Char)} {depth : Nat} {inside : Inside}
  {text text' : List Char}

theorem Layout.Elides.exists_solid (h : layout.Elides before block depth inside) :
    ∃ line ∈ before, isBlankText line = false := by
  cases layout with
  | braces lexis =>
    obtain ⟨s, t, floor, hs, hstays, -⟩ := h
    have hmode := hstays.start
    exact Braces.exists_solid_of_mode hs (by rw [hmode]; simp)
  | indented lexis =>
    obtain ⟨s, t, indent, hs, hstays, -⟩ := h
    have hmode := hstays.start
    exact Indented.exists_solid_of_mode hs (by rw [hmode]; simp)

/-- The selections of both texts are the same but for the numbers of lines. -/
theorem DifferIn.map_select?_eq (h : DifferIn text text' before block block' behind)
    (hleft : layout.Elides before block depth inside) (hright : layout.Elides before block' depth inside) :
    (select? layout text).map Selection.unnumbered = (select? layout text').map Selection.unnumbered := by
  cases layout with
  | braces lexis =>
    obtain ⟨s, t, floor, hs, hstays, hdepth, hinside⟩ := hleft
    obtain ⟨s', t', floor', hs', hstays', hdepth', hinside'⟩ := hright
    cases hs.symm.trans hs'
    -- All but the depth and what the line ends inside of is kept in the body, and these two are the same by
    -- assumption.
    have hsame : t' = t := Braces.State.eq_of_frame_eq
      ((hstays'.frame_eq Braces.frame_of_skip).trans (hstays.frame_eq Braces.frame_of_skip).symm)
      (hinside'.trans hinside.symm) (hdepth'.trans hdepth.symm)
    subst hsame
    change (Braces.select? lexis text).map _ = (Braces.select? lexis text').map _
    rw [Braces.map_select?_unnumbered, Braces.map_select?_unnumbered,
      h.map_run?_eq (fun s => Braces.unnumbered_step? s lexis) hs hstays.run? hstays'.run?]
  | indented lexis =>
    obtain ⟨s, t, indent, hs, hstays, hdepth, hinside⟩ := hleft
    obtain ⟨s', t', indent', hs', hstays', hdepth', hinside'⟩ := hright
    cases hs.symm.trans hs'
    have hsame : t' = t := Indented.State.eq_of_frame_eq
      ((hstays'.frame_eq Indented.frame_of_body).trans (hstays.frame_eq Indented.frame_of_body).symm)
      (hinside'.trans hinside.symm) (hdepth'.trans hdepth.symm)
    subst hsame
    change (Indented.select? lexis text).map _ = (Indented.select? lexis text').map _
    rw [Indented.map_select?_unnumbered, Indented.map_select?_unnumbered,
      h.map_run?_eq (fun s => Indented.unnumbered_step? s lexis) hs hstays.run? hstays'.run?]

/-- Selections that differ in numbers are finished alike where both texts end alike and neither is blank. -/
theorem DifferIn.finish_eq (h : DifferIn text text' before block block' behind)
    (hsolid : ∃ line ∈ before, isBlankText line = false) (selection : Selection) :
    selection.finish text = selection.finish text' := by
  obtain ⟨line, hline, hsolid⟩ := hsolid
  -- Both texts have a line that is not blank, above the block.
  have hblank : ∀ {cs}, line ∈ lines cs → isBlankText cs = false := by
    intro cs hmem
    rw [Bool.eq_false_iff]
    intro hblank
    rw [isBlankText_of_mem_lines hblank hmem] at hsolid
    cases hsolid
  have hleft : isBlankText text = false := hblank (by rw [h.left]; simp [hline])
  have hright : isBlankText text' = false := hblank (by rw [h.right]; simp [hline])
  simp only [Selection.finish, hleft, hright, h.lineFeed, Bool.and_false, Bool.false_eq_true, if_false]

/--
Texts that differ in a block of lines inside an elided body have the same outline, or are both shown as they are.
-/
theorem outline?_eq_of_elides {extension : String} (hlayout : layout? extension = some layout)
    (h : DifferIn text text' before block block' behind)
    (hleft : layout.Elides before block depth inside) (hright : layout.Elides before block' depth inside) :
    outline? text (some extension) = outline? text' (some extension) ∧
      (outline text (some extension) = text ∧ outline text' (some extension) = text' ∨
        outline text (some extension) = outline text' (some extension)) := by
  -- An outline is finished from a selection without numbers.
  have hoption : ∀ cs, outline? cs (some extension) =
      ((select? layout cs).map Selection.unnumbered).map (·.finish cs) := by
    intro cs
    have hfinish : (fun s : Selection => s.finish cs) = (·.finish cs) ∘ Selection.unnumbered :=
      funext fun s => (s.finish_unnumbered cs).symm
    rw [Option.map_map, ← hfinish]
    simp only [outline?, hlayout, Option.bind_eq_bind, Option.bind_some]
    cases select? layout cs <;> rfl
  have hsame : outline? text (some extension) = outline? text' (some extension) := by
    rw [hoption, hoption, h.map_select?_eq hleft hright]
    exact congrArg (Option.map · _) (funext fun s => h.finish_eq hleft.exists_solid s)
  refine ⟨hsame, ?_⟩
  rw [outline, outline, ← hsame]
  cases outline? text (some extension) with
  | none => exact .inl ⟨rfl, rfl⟩
  | some out => exact .inr rfl

end

/-- A function around a body. -/
def functionAround (body : String) : List Char :=
  ("fn f() \x7b\n" ++ body ++ "\x7d\n").toList

/-- The state inside the body of the function, at some depth. -/
def stateInBody (depth : Nat) : Braces.State :=
  { inside := .code, depth, containers := [], mode := .skip 0, header := none
    selection := { kept := [⟨0, "fn f() \x7b ... \x7d".toList⟩], waiting := [] } }

theorem outline?_functionAround :
    outline? (functionAround "  a();\n") (some "rs") =
      outline? (functionAround "  if x \x7b\n    b();\n  \x7d\n") (some "rs") := by
  have hdiffer : DifferIn (functionAround "  a();\n") (functionAround "  if x \x7b\n    b();\n  \x7d\n")
      ["fn f() \x7b".toList] ["  a();".toList]
      ["  if x \x7b".toList, "    b();".toList, "  \x7d".toList] ["\x7d".toList] :=
    ⟨by decide +kernel, by decide +kernel, by decide +kernel⟩
  have hstart : (Braces.outliner .slashesAndTicks).run? .initial 0 ["fn f() \x7b".toList] =
      some (stateInBody 1) := by decide +kernel
  have hleft : (Layout.braces .slashesAndTicks).Elides ["fn f() \x7b".toList] ["  a();".toList] 1 .code :=
    ⟨stateInBody 1, stateInBody 1, 0, hstart, .cons rfl (by decide +kernel) (.nil rfl), rfl, rfl⟩
  have hright : (Layout.braces .slashesAndTicks).Elides ["fn f() \x7b".toList]
      ["  if x \x7b".toList, "    b();".toList, "  \x7d".toList] 1 .code := by
    refine ⟨stateInBody 1, stateInBody 1, 0, hstart, ?_, rfl, rfl⟩
    have hopen : (Braces.outliner .slashesAndTicks).step? (stateInBody 1) ⟨1, "  if x \x7b".toList⟩ =
        some (stateInBody 2) := by decide +kernel
    have hcall : (Braces.outliner .slashesAndTicks).step? (stateInBody 2) ⟨2, "    b();".toList⟩ =
        some (stateInBody 2) := by decide +kernel
    have hclose : (Braces.outliner .slashesAndTicks).step? (stateInBody 2) ⟨3, "  \x7d".toList⟩ =
        some (stateInBody 1) := by decide +kernel
    exact .cons rfl hopen (.cons rfl hcall (.cons rfl hclose (.nil rfl)))
  exact (outline?_eq_of_elides (by decide +kernel) hdiffer hleft hright).1

/-- The state in the body of a function behind its first line, for which the elision mark stands. -/
def stateInSuite : Indented.State :=
  { inside := .code, depth := 0, classes := [], mode := .body 0 true, waitingOpen := false
    selection := { kept := [⟨1, "  ...".toList⟩, ⟨0, "def f():".toList⟩], waiting := [] } }

/--
Of the conditions on the texts, that on the line feed cannot be left out: an outline ends in a line feed exactly if
its text does, and a body that ends with the text leaves both possible.
-/
theorem outline_ne_of_lineFeed :
    layout? "py" = some (.indented .hashes) ∧
    lines "def f():\n  a\n  b\n".toList =
      ["def f():".toList, "  a".toList] ++ ["  b".toList] ++ [] ∧
    lines "def f():\n  a\n  c".toList =
      ["def f():".toList, "  a".toList] ++ ["  c".toList] ++ [] ∧
    (Layout.indented .hashes).Elides ["def f():".toList, "  a".toList] ["  b".toList] 0 .code ∧
    (Layout.indented .hashes).Elides ["def f():".toList, "  a".toList] ["  c".toList] 0 .code ∧
    outline "def f():\n  a\n  b\n".toList (some "py") = "def f():\n  ...\n".toList ∧
    outline "def f():\n  a\n  c".toList (some "py") = "def f():\n  ...".toList := by
  have hstart : (Indented.outliner .hashes).run? .initial 0 ["def f():".toList, "  a".toList] =
      some stateInSuite := by decide +kernel
  have hb : (Indented.outliner .hashes).step? stateInSuite ⟨2, "  b".toList⟩ = some stateInSuite := by
    decide +kernel
  have hc : (Indented.outliner .hashes).step? stateInSuite ⟨2, "  c".toList⟩ = some stateInSuite := by
    decide +kernel
  refine ⟨by decide +kernel, by decide +kernel, by decide +kernel, ?_, ?_, by decide +kernel, by decide +kernel⟩
  · exact ⟨stateInSuite, stateInSuite, 0, hstart, .cons rfl hb (.nil rfl), rfl, rfl⟩
  · exact ⟨stateInSuite, stateInSuite, 0, hstart, .cons rfl hc (.nil rfl), rfl, rfl⟩

end RepoScope.Outline
