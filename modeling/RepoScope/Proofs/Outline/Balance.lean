import RepoScope.Proofs.Outline.Indented.Run
import RepoScope.Proofs.Outline.Run

/-!
# Texts whose brackets balance

A layout counts brackets: where braces mark the blocks it counts braces, and else brackets of all kinds. A text
balances (`Layout.Balances`) if no bracket closes that was never opened, all that are opened are closed, and the
text does not end inside a literal or comment. This is said of the brackets that the scanner reports, without
any outliner.

Both outliners carry a depth that follows these brackets, whatever else they do with a line (`Outliner.Follows`).
So they get through a text, and are at depth zero behind it, if and only if it balances
(`Follows.balances_iff`).
-/

namespace RepoScope.Outline

open Text

/-- The brackets in the code of a text. -/
def brackets (lexis : Lexis) (text : List Char) : List Bracket := (marks lexis text).map Mark.toBracket

namespace Layout

/-- How the languages of a layout write comments and strings. -/
def lexis : Layout → Lexis
  | braces lexis => lexis
  | indented lexis => lexis

/-- The brackets that open what a layout counts. -/
def openers : Layout → List Char
  | braces _ => ['{']
  | indented _ => ['(', '[', '{']

/-- The brackets that close what a layout counts. -/
def closers : Layout → List Char
  | braces _ => ['}']
  | indented _ => [')', ']', '}']

/-- How many brackets open what the layout counts. -/
def opened (layout : Layout) (bs : List Bracket) : Nat := bs.countP (layout.openers.contains ·.char)

/-- How many brackets close what the layout counts. -/
def closed (layout : Layout) (bs : List Bracket) : Nat := bs.countP (layout.closers.contains ·.char)

/-- Whether a text closes what it opens, and nothing else, and ends in code. -/
structure Balances (layout : Layout) (text : List Char) : Prop where
  above : ∀ first, first <+: brackets layout.lexis text → layout.closed first ≤ layout.opened first
  level : layout.closed (brackets layout.lexis text) = layout.opened (brackets layout.lexis text)
  code : insideAfter layout.lexis .code (lines text) = .code

/-- The same with the prefixes of the brackets in a list, so that it can be decided. -/
theorem balances_iff {layout : Layout} {text : List Char} :
    layout.Balances text ↔
      (∀ first ∈ (brackets layout.lexis text).inits, layout.closed first ≤ layout.opened first) ∧
        layout.closed (brackets layout.lexis text) = layout.opened (brackets layout.lexis text) ∧
        insideAfter layout.lexis .code (lines text) = .code := by
  simp only [List.mem_inits]
  exact ⟨fun h => ⟨h.above, h.level, h.code⟩, fun h => ⟨h.1, h.2.1, h.2.2⟩⟩

instance (layout : Layout) (text : List Char) : Decidable (layout.Balances text) :=
  decidable_of_iff _ balances_iff.symm

/-! ## Counters

Both outliners count brackets by a function that fails where it would go below zero: the outliner for braces while
it reads a line (`Tally.add?`), the one for indentation by `deepen?`. What they have in common is `Counts`, and all
that follows is shown of this.
-/

/-- How many more brackets open than close what the layout counts. -/
def excess (layout : Layout) (bs : List Bracket) : Int := layout.opened bs - layout.closed bs

@[simp] theorem excess_nil (layout : Layout) : layout.excess [] = 0 := rfl

@[simp] theorem excess_append (layout : Layout) (xs ys : List Bracket) :
    layout.excess (xs ++ ys) = layout.excess xs + layout.excess ys := by
  simp only [excess, opened, closed, List.countP_append, Int.natCast_add]
  omega

/-- The excess of a bracket and those behind it is a sum. -/
theorem excess_cons (layout : Layout) (b : Bracket) (bs : List Bracket) :
    layout.excess (b :: bs) = layout.excess [b] + layout.excess bs :=
  layout.excess_append [b] bs

/-- With braces, the excess of a bracket is how far it raises the depth. -/
theorem excess_braces {lexis : Lexis} {b : Bracket} : (braces lexis).excess [b] = b.rise := by
  rw [excess, opened, closed, Bracket.rise, List.countP_singleton, List.countP_singleton]
  by_cases hopen : b.char = '{'
  · simp [openers, closers, hopen]
  · by_cases hclose : b.char = '}'
    · simp [openers, closers, hclose]
    · simp [openers, closers, hopen, hclose]

/-- Where blocks are indented, every opening bracket counts. -/
theorem excess_indented_open {lexis : Lexis} {b : Bracket}
    (h : b.char = '(' ∨ b.char = '[' ∨ b.char = '{') : (indented lexis).excess [b] = 1 := by
  rw [excess, opened, closed, List.countP_singleton, List.countP_singleton]
  rcases h with h | h | h <;> simp [openers, closers, h]

/-- Where blocks are indented, every other bracket closes. -/
theorem excess_indented_close {lexis : Lexis} {b : Bracket} (hb : isBracket b.char = true)
    (h : ¬(b.char = '(' ∨ b.char = '[' ∨ b.char = '{')) : (indented lexis).excess [b] = -1 := by
  simp only [isBracket, Bool.or_eq_true, beq_iff_eq, or_assoc] at hb
  have hclose : b.char = ')' ∨ b.char = ']' ∨ b.char = '}' := by tauto
  rw [excess, opened, closed, List.countP_singleton, List.countP_singleton]
  rcases hclose with hc | hc | hc <;> simp [openers, closers, hc]

/-- A state that moves from bracket to bracket, with a depth that rises and falls with them and fails below zero. -/
structure Counts (layout : Layout) {σ : Type} (step? : σ → Bracket → Option σ) (depth : σ → Nat) :
    Prop where
  next {t t' : σ} {b : Bracket} (hb : isBracket b.char = true) (h : step? t b = some t') :
    (depth t' : Int) = depth t + layout.excess [b]
  fails {t : σ} {b : Bracket} (hb : isBracket b.char = true) (h : step? t b = none) :
    (depth t : Int) + layout.excess [b] < 0

namespace Counts

variable {layout : Layout} {σ : Type} {step? : σ → Bracket → Option σ} {depth : σ → Nat}

/-- A counter that gets through brackets has moved by their excess. -/
theorem depth_foldlM (h : layout.Counts step? depth) {bs : List Bracket}
    (hbs : ∀ b ∈ bs, isBracket b.char = true) {t t' : σ} (hrun : bs.foldlM step? t = some t') :
    (depth t' : Int) = depth t + layout.excess bs := by
  induction bs generalizing t with
  | nil =>
    cases hrun
    simp
  | cons b rest ih =>
    rw [List.foldlM_cons] at hrun
    obtain ⟨next, hnext, hrest⟩ := Option.bind_eq_some_iff.mp hrun
    rw [ih (fun c hc => hbs c (List.mem_cons_of_mem _ hc)) hrest, h.next (hbs b List.mem_cons_self) hnext,
      layout.excess_cons b rest, Int.add_assoc]

/-- A counter gets through brackets if and only if none of them closes what was never opened. -/
theorem isSome_foldlM_iff (h : layout.Counts step? depth) (bs : List Bracket)
    (hbs : ∀ b ∈ bs, isBracket b.char = true) (t : σ) :
    (bs.foldlM step? t).isSome ↔ ∀ first, first <+: bs → 0 ≤ (depth t : Int) + layout.excess first := by
  induction bs generalizing t with
  | nil => simp
  | cons b rest ih =>
    have hb := hbs b List.mem_cons_self
    rw [List.foldlM_cons]
    cases hnext : step? t b with
    | none =>
      -- The prefix that ends with the bracket is already below zero.
      have hfails := h.fails hb hnext
      constructor
      · intro hsome
        cases hsome
      · intro hall
        have := hall [b] ⟨rest, rfl⟩
        omega
    | some next =>
      -- What starts with the bracket is what goes on from the next state.
      have hdepth := h.next hb hnext
      have hrest := ih (fun c hc => hbs c (List.mem_cons_of_mem _ hc)) next
      change (rest.foldlM step? next).isSome ↔ _
      rw [hrest]
      constructor
      · intro hall first hfirst
        rcases List.prefix_cons_iff.mp hfirst with rfl | ⟨more, rfl, hmore⟩
        · simp
        · have := hall more hmore
          rw [excess_cons]
          omega
      · intro hall first hfirst
        have := hall (b :: first) (List.prefix_cons_inj b |>.mpr hfirst)
        rw [excess_cons] at this
        omega

end Counts

end Layout

/-! ## Outliners

An outliner follows a layout if each of its steps counts the brackets of one line. A run then counts those of all
lines, and fails at the first bracket that goes below zero, whatever mode the outliner is in. This is the only way
for it to fail (`isSome_run?_iff`).
-/

/-- What starts two lists together starts the first, or goes on into the second. -/
theorem prefix_append_cases {α : Type} {first xs ys : List α} (h : first <+: xs ++ ys) :
    first <+: xs ∨ ∃ more, first = xs ++ more ∧ more <+: ys := by
  rcases List.prefix_or_prefix_of_prefix h (List.prefix_append xs ys) with hfirst | ⟨more, rfl⟩
  · exact .inl hfirst
  · exact .inr ⟨more, rfl, (List.prefix_append_right_inj xs).mp h⟩

namespace Outliner

/-- Whether an outliner follows the scanner, and with its depth the brackets that the layout counts. -/
structure Follows {σ : Type} (O : Outliner σ) (layout : Layout) (inside : σ → Inside) (depth : σ → Nat) :
    Prop where
  next {s s' : σ} {line : Line} (h : O.step? s line = some s') :
    inside s' = (scanLine layout.lexis (inside s) line.text).2 ∧
      (depth s' : Int) = depth s + layout.excess (scanLine layout.lexis (inside s) line.text).1
  isSome_step? (s : σ) (line : Line) :
    (O.step? s line).isSome ↔
      ∀ first, first <+: (scanLine layout.lexis (inside s) line.text).1 →
        0 ≤ (depth s : Int) + layout.excess first

namespace Follows

variable {σ : Type} {O : Outliner σ} {layout : Layout} {inside : σ → Inside} {depth : σ → Nat}

/-- The brackets of lines are those of the first and then those of the others. -/
theorem map_marksFrom_cons (lexis : Lexis) (start : Inside) (row : Nat) (line : List Char)
    (rest : List (List Char)) :
    (marksFrom lexis start row (line :: rest)).map Mark.toBracket =
      (scanLine lexis start line).1 ++
        (marksFrom lexis (scanLine lexis start line).2 (row + 1) rest).map Mark.toBracket := by
  rw [marksFrom, List.map_append, List.map_map]
  simp [Function.comp_def]

/--
Behind a run, the outliner is inside of what the lines end inside of, at a depth that has moved by their excess.
-/
theorem run?_eq (h : O.Follows layout inside depth) {s s' : σ} {row : Nat} {ls : List (List Char)}
    (hrun : O.run? s row ls = some s') :
    inside s' = insideAfter layout.lexis (inside s) ls ∧
      (depth s' : Int) = depth s +
        layout.excess ((marksFrom layout.lexis (inside s) row ls).map Mark.toBracket) := by
  induction ls generalizing s row with
  | nil =>
    cases hrun
    exact ⟨rfl, by simp [marksFrom]⟩
  | cons line rest ih =>
    obtain ⟨next, hnext, hrest⟩ := run?_cons.mp hrun
    obtain ⟨hinside, hdepth⟩ := h.next hnext
    obtain ⟨ihinside, ihdepth⟩ := ih hrest
    rw [hinside] at ihinside ihdepth
    refine ⟨ihinside, ?_⟩
    rw [map_marksFrom_cons, Layout.excess_append, ihdepth, hdepth, Int.add_assoc]

/-- An outliner gets through lines if and only if no bracket in them closes what was never opened. -/
theorem isSome_run?_iff (h : O.Follows layout inside depth) (s : σ) (row : Nat)
    (ls : List (List Char)) :
    (O.run? s row ls).isSome ↔
      ∀ first, first <+: (marksFrom layout.lexis (inside s) row ls).map Mark.toBracket →
        0 ≤ (depth s : Int) + layout.excess first := by
  induction ls generalizing s row with
  | nil => simp [run?, marksFrom]
  | cons line rest ih =>
    have hline := h.isSome_step? s ⟨row, line⟩
    rw [run?, map_marksFrom_cons]
    cases hnext : O.step? s ⟨row, line⟩ with
    | none =>
      -- Already the brackets of this line close too much.
      rw [hnext] at hline
      constructor
      · intro hsome
        cases hsome
      · intro hall
        exact absurd (hline.mpr fun first hfirst => hall first (hfirst.trans (List.prefix_append _ _)))
          Bool.false_ne_true
    | some next =>
      rw [hnext] at hline
      obtain ⟨hinside, hdepth⟩ := h.next hnext
      have hrest := ih next (row + 1)
      rw [hinside] at hrest
      refine hrest.trans ⟨fun hall first hfirst => ?_, fun hall first hfirst => ?_⟩
      · rcases prefix_append_cases hfirst with hfirst | ⟨more, rfl, hmore⟩
        · exact hline.mp rfl first hfirst
        · have := hall more hmore
          rw [Layout.excess_append, ← Int.add_assoc, ← hdepth]
          exact this
      · have := hall _ ((List.prefix_append_right_inj _).mpr hfirst)
        rwa [Layout.excess_append, ← Int.add_assoc, ← hdepth] at this

/--
From code at depth zero, an outliner gets through a text and is back there at its end if and only if the text
balances.
-/
theorem balances_iff (h : O.Follows layout inside depth) {s : σ} (hcode : inside s = .code)
    (hzero : depth s = 0) {text : List Char} :
    layout.Balances text ↔
      ∃ s', O.run? s 0 (lines text) = some s' ∧ depth s' = 0 ∧ inside s' = .code := by
  have hsome := h.isSome_run?_iff s 0 (lines text)
  rw [hcode, hzero] at hsome
  constructor
  · rintro ⟨habove, hlevel, hinside⟩
    -- The outliner goes through, as no first brackets have too many closers, and it ends at the depth of the
    -- excess.
    obtain ⟨s', hrun⟩ := Option.isSome_iff_exists.mp
      (hsome.mpr fun first hfirst => by
        have := habove first hfirst
        simp only [Layout.excess]
        omega)
    obtain ⟨hinside', hdepth⟩ := h.run?_eq hrun
    rw [hcode] at hinside' hdepth
    refine ⟨s', hrun, ?_, hinside'.trans hinside⟩
    change (depth s' : Int) = depth s + layout.excess (brackets layout.lexis text) at hdepth
    rw [Layout.excess, hlevel, hzero] at hdepth
    omega
  · rintro ⟨s', hrun, hdepth', hinside'⟩
    obtain ⟨hinside, hdepth⟩ := h.run?_eq hrun
    rw [hcode] at hinside hdepth
    change (depth s' : Int) = depth s + layout.excess (brackets layout.lexis text) at hdepth
    rw [hdepth', hzero, Layout.excess] at hdepth
    refine ⟨fun first hfirst => ?_, by omega, hinside.symm.trans hinside'⟩
    have := hsome.mp (by rw [hrun]; rfl) first hfirst
    simp only [Layout.excess] at this
    omega

end Follows

end Outliner

/-! ## Both outliners

What is left is to see that both outliners do count so. Whether they read a line does not depend on the mode, and
every step sets the depth to that behind the line.
-/

namespace Braces

/-- The tally of a line with braces counts braces. -/
theorem counts_add? (lexis : Lexis) (start : Nat) :
    (Layout.braces lexis).Counts (Tally.add? start) Tally.depth where
  next {t t' b} _ h := by
    rw [(Tally.add?_eq_some h).1, Layout.excess_braces]
  fails {t b} _ h := by
    rw [Tally.add?] at h
    rw [Layout.excess_braces]
    split at h
    · cases h
    · split at h
      · next hclose =>
        split at h
        · next hzero =>
          rw [Bracket.rise_close hclose]
          omega
        · cases h
      · split at h
        · cases h
        · split at h <;> cases h

theorem outliner_follows (lexis : Lexis) :
    (outliner lexis).Follows (.braces lexis) State.inside State.depth where
  next {s s' line} h := by
    obtain ⟨r, hr, rfl⟩ := step?_eq_some.mp h
    obtain ⟨t, ht, rfl⟩ := Reading.of?_eq_some hr
    obtain ⟨hinside, hdepth⟩ := (step_apply s _).inside
    refine ⟨hinside, ?_⟩
    rw [hdepth]
    exact (counts_add? lexis s.depth).depth_foldlM (fun b => isBracket_of_mem_scanFrom) ht
  isSome_step? s line := by
    have hcounts := (counts_add? lexis s.depth).isSome_foldlM_iff
      (scanLine lexis s.inside line.text).1 (fun b => isBracket_of_mem_scanFrom) ⟨s.depth, 0, none⟩
    refine Iff.trans ?_ hcounts
    simp [outliner, step?, Reading.of?, tally?]

end Braces

namespace Indented

/-- The depth of an indented text counts brackets of all kinds. -/
theorem counts_deepen? (lexis : Lexis) : (Layout.indented lexis).Counts deepen? id where
  next {depth depth' b} hb h := by
    rw [deepen?] at h
    split at h
    · next hopen =>
      cases h
      rw [Layout.excess_indented_open hopen]
      rfl
    · next hclose =>
      rw [Layout.excess_indented_close hb hclose]
      split at h
      · cases h
      · cases h
        simp only [id]
        omega
  fails {depth b} hb h := by
    rw [deepen?] at h
    split at h
    · cases h
    · next hclose =>
      rw [Layout.excess_indented_close hb hclose]
      split at h
      · simp only [id]
        omega
      · cases h

theorem outliner_follows (lexis : Lexis) :
    (outliner lexis).Follows (.indented lexis) State.inside State.depth where
  next {s s' line} h := by
    obtain ⟨r, hr, rfl⟩ := step?_eq_some.mp h
    obtain ⟨depth, hrun, rfl⟩ := Reading.of?_eq_some hr
    obtain ⟨hinside, hdepth⟩ := (step_apply s _).inside
    refine ⟨hinside, ?_⟩
    rw [hdepth]
    exact (counts_deepen? lexis).depth_foldlM (fun b => isBracket_of_mem_scanFrom) hrun
  isSome_step? s line := by
    have hcounts := (counts_deepen? lexis).isSome_foldlM_iff
      (scanLine lexis s.inside line.text).1 (fun b => isBracket_of_mem_scanFrom) s.depth
    refine Iff.trans ?_ hcounts
    simp [outliner, step?, Reading.of?]

end Indented

end RepoScope.Outline
