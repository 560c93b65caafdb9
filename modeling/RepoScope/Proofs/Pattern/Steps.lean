import Mathlib.Data.List.Basic
import RepoScope.Pattern

/-!
# Matching step by step

What a literal, a run and a capture do at a cursor, if the text behind the cursor is known to be cut in a certain
way. A match is followed through a sequence of patterns by rewriting with these (`matchAt_append` and the lemmas
behind it); each step ends at the cursor behind the text that has been passed (`Cursor.after`).
-/

namespace RepoScope.Pattern

/-! ## Cutting behind a class of characters

That a text goes on with no character of a class is said as `∀ x ∈ rest.head?, p x = false`, which also holds of
the empty text.
-/

theorem forall_head?_cons {p : Char → Bool} {x : Char} {b : Bool} (hx : p x = b) (rest : List Char) :
    ∀ y ∈ (x :: rest).head?, p y = b := by
  simpa using hx

section

variable {p : Char → Bool} {front rest : List Char} (hfront : ∀ x ∈ front, p x = true)
  (hrest : ∀ x ∈ rest.head?, p x = false)

include hfront hrest

/-- A run is taken to its end. -/
theorem takeWhile_append_exact : (front ++ rest).takeWhile p = front := by
  rw [List.takeWhile_append_of_pos hfront]
  cases rest with
  | nil => exact List.append_nil front
  | cons x rest => rw [List.takeWhile_cons_of_neg (by simp [hrest x rfl]), List.append_nil]

/-- What follows a run is left. -/
theorem dropWhile_append_exact : (front ++ rest).dropWhile p = rest := by
  rw [List.dropWhile_append_of_pos hfront]
  cases rest with
  | nil => rfl
  | cons x rest => rw [List.dropWhile_cons_of_neg (by simp [hrest x rfl])]

end

/-- Each text can be cut behind its characters of a class. -/
theorem exists_span (p : Char → Bool) (text : List Char) :
    ∃ front rest, text = front ++ rest ∧ (∀ x ∈ front, p x = true) ∧
      ∀ x ∈ rest.head?, p x = false := by
  induction text with
  | nil => exact ⟨[], [], rfl, by simp, by simp⟩
  | cons x text ih =>
    by_cases hx : p x = true
    · obtain ⟨front, rest, rfl, hfront, hrest⟩ := ih
      exact ⟨x :: front, rest, rfl, List.forall_mem_cons.mpr ⟨hx, hfront⟩, hrest⟩
    · exact ⟨[], x :: text, rfl, by simp, forall_head?_cons (by simpa using hx) text⟩

/-! ## Cursors behind a text -/

variable {k : Cursor → Option Cursor} {c : Cursor} {p : Char → Bool} {passed rest : List Char}

/-- The cursor behind the characters `passed`, where `rest` follows. -/
def Cursor.after (c : Cursor) (passed rest : List Char) : Cursor :=
  { c with
    offset := c.offset + passed.length, before := passed.getLast?.or c.before, rest := rest }

@[simp] theorem Cursor.rest_after (c : Cursor) (passed rest : List Char) :
    (c.after passed rest).rest = rest := rfl

theorem Cursor.after_nil (hc : c.rest = rest) : c.after [] rest = c := by
  subst hc
  simp [Cursor.after]

theorem Cursor.after_after (c : Cursor) (passed more rest rest' : List Char) :
    (c.after passed rest).after more rest' = c.after (passed ++ more) rest' := by
  simp only [Cursor.after, List.length_append, List.getLast?_append, Option.or_assoc,
    Nat.add_assoc]

theorem Cursor.past_eq_after (c : Cursor) (x : Char) (rest : List Char) :
    c.past x rest = c.after [x] rest := rfl

/-! ## Steps

Each lemma takes the cut of the text behind the cursor as a hypothesis, and says where the match goes on, or that
it fails. The runs here are for patterns that never give back; what follows a run is then decided by the text
alone.
-/

/-- A sequence matches its second part where the first ends. -/
theorem matchAt_append (first second : Pattern) (k : Cursor → Option Cursor) (c : Cursor) :
    (first ++ second).matchAt k c = first.matchAt (second.matchAt k) c := rfl

/-- The start of a line is behind a line feed, or where nothing stands before. -/
theorem matchAt_atLineStart (hc : c.before.all (· == '\n') = true) :
    atLineStart.matchAt k c = k c := by
  rw [matchAt, if_pos hc]

/-- A literal passes its text. -/
theorem matchAt_lit {s : String} (hc : c.rest = s.toList ++ rest) :
    (lit s).matchAt k c = k (c.after s.toList rest) := by
  have hprefix : s.toList.isPrefixOf? (s.toList ++ rest) = some rest :=
    List.isPrefixOf?_eq_some_iff_append_eq.mpr rfl
  rw [lit, matchAt, hc, hprefix]
  rfl

/-- A literal fails where its text does not stand. -/
theorem matchAt_lit_eq_none {s : String} (hc : ¬s.toList <+: c.rest) : (lit s).matchAt k c = none := by
  rw [lit, matchAt]
  split
  · next rest hrest =>
    exact absurd ⟨rest, List.isPrefixOf?_eq_some_iff_append_eq.mp hrest⟩ hc
  · rfl

theorem matchAt_empty (k : Cursor → Option Cursor) (c : Cursor) : (literal []).matchAt k c = k c := by
  rw [matchAt, List.isPrefixOf?]
  rfl

/-- An option is used if a match goes on behind it, and else passed over. -/
theorem matchAt_optional (p : Pattern) (k : Cursor → Option Cursor) (c : Cursor) :
    (optional p).matchAt k c = (p.matchAt k c).or (k c) := by
  rw [optional, matchAt, matchAt_empty]
  cases p.matchAt k c <;> rfl

/-- A run ends before the first character that is not of its class. -/
theorem afterRun_append (hc : c.rest = passed ++ rest) (hpassed : ∀ x ∈ passed, p x = true)
    (hrest : ∀ x ∈ rest.head?, p x = false) : c.afterRun p (passed ++ rest) = c.after passed rest := by
  induction passed generalizing c with
  | nil =>
    rw [List.nil_append] at hc ⊢
    rw [Cursor.after_nil hc]
    cases rest with
    | nil => rfl
    | cons x rest => rw [Cursor.afterRun, hrest x rfl]; rfl
  | cons x passed ih =>
    rw [List.cons_append, Cursor.afterRun, if_pos (hpassed x List.mem_cons_self),
      ih rfl fun y hy => hpassed y (List.mem_cons_of_mem _ hy), Cursor.past_eq_after,
      Cursor.after_after, List.singleton_append]

/-- A run passes all characters of its class, and may pass none. -/
theorem matchAt_run (hc : c.rest = passed ++ rest) (hpassed : ∀ x ∈ passed, p x = true)
    (hrest : ∀ x ∈ rest.head?, p x = false) : (run p).matchAt k c = k (c.after passed rest) := by
  rw [matchAt, hc, afterRun_append hc hpassed hrest]

/-- A class passes one character. -/
theorem matchAt_one {x : Char} (hc : c.rest = x :: rest) (hx : p x = true) :
    (one p).matchAt k c = k (c.after [x] rest) := by
  simp only [matchAt, hc, if_pos hx, Cursor.past_eq_after]

/-- A class fails where no character of it stands. -/
theorem matchAt_one_eq_none (hc : ∀ x ∈ c.rest.head?, p x = false) : (one p).matchAt k c = none := by
  rw [matchAt]
  split
  · next x rest hrest => rw [hc x (by rw [hrest]; rfl)]; rfl
  · rfl

/-- A run of at least one character passes all of its class. -/
theorem matchAt_run1 (hc : c.rest = passed ++ rest) (hne : passed ≠ [])
    (hpassed : ∀ x ∈ passed, p x = true) (hrest : ∀ x ∈ rest.head?, p x = false) :
    (run1 p).matchAt k c = k (c.after passed rest) := by
  obtain ⟨x, passed, rfl⟩ := List.exists_cons_of_ne_nil hne
  rw [run1, matchAt_append, matchAt_one hc (hpassed x List.mem_cons_self),
    matchAt_run rfl (fun y hy => hpassed y (List.mem_cons_of_mem _ hy)) hrest, Cursor.after_after,
    List.singleton_append]

/-- A run of at least one character fails where none of its class stands. -/
theorem matchAt_run1_eq_none (hc : ∀ x ∈ c.rest.head?, p x = false) :
    (run1 p).matchAt k c = none := by
  rw [run1, matchAt_append, matchAt_one_eq_none hc]

/-- The cursor behind `passed`, which has been captured. -/
def Cursor.afterCaptured (c : Cursor) (passed rest : List Char) : Cursor :=
  { c.after passed rest with captures := passed :: c.captures }

/-- A capture of a pattern that goes on behind `passed` captures this text. -/
theorem matchAt_captured {body : Pattern} (hc : c.rest = passed ++ rest)
    (hbody : ∀ k : Cursor → Option Cursor, body.matchAt k c = k (c.after passed rest)) :
    (captured body).matchAt k c = k (c.afterCaptured passed rest) := by
  have hwidth : (c.after passed rest).offset - c.offset = passed.length := by simp [Cursor.after]
  rw [matchAt, hbody, hwidth, hc, List.take_left]
  rfl

/-! ## Runs that may give back

A run that may give back (`many1`) tries the places it reaches from the last to the first. For the patterns here it
is enough to know what happens at the last two: it goes on from its end (`matchAt_many1_of_end`), or from before
its last character (`matchAt_many1_of_last`).
-/

/-- All places up to some point on the way are reached by a run before those behind this point. -/
theorem exists_reach_append {passed rest : List Char} (hc : c.rest = passed ++ rest)
    (hpassed : ∀ x ∈ passed, p x = true) (reached : List Cursor) :
    ∃ reached', c.reach p reached (passed ++ rest) = (c.after passed rest).reach p reached' rest := by
  induction passed generalizing c reached with
  | nil =>
    rw [List.nil_append] at hc ⊢
    exact ⟨reached, by rw [Cursor.after_nil hc]⟩
  | cons x passed ih =>
    obtain ⟨reached', hreach⟩ := ih (c := c.past x (passed ++ rest)) rfl
      (fun y hy => hpassed y (List.mem_cons_of_mem _ hy)) (c :: reached)
    refine ⟨reached', ?_⟩
    rw [List.cons_append, Cursor.reach, if_pos (hpassed x List.mem_cons_self), hreach,
      Cursor.past_eq_after, Cursor.after_after, List.singleton_append]

/-- A run that cannot start reaches only its own place. -/
theorem reach_of_head? (hrest : ∀ x ∈ rest.head?, p x = false) (reached : List Cursor) :
    c.reach p reached rest = c :: reached := by
  cases rest with
  | nil => rfl
  | cons x rest => rw [Cursor.reach, hrest x rfl]; rfl

/-- A run goes on from its end, if it can. -/
theorem matchAt_many1_of_end {d : Cursor} (hc : c.rest = passed ++ rest) (hne : passed ≠ [])
    (hpassed : ∀ x ∈ passed, p x = true) (hrest : ∀ x ∈ rest.head?, p x = false)
    (hend : k (c.after passed rest) = some d) : (many1 p).matchAt k c = some d := by
  obtain ⟨x, passed, rfl⟩ := List.exists_cons_of_ne_nil hne
  rw [List.cons_append] at hc
  obtain ⟨reached, hreach⟩ := exists_reach_append (c.rest_after [x] (passed ++ rest))
    (fun y hy => hpassed y (List.mem_cons_of_mem _ hy)) []
  rw [many1, matchAt_append, matchAt_one hc (hpassed x List.mem_cons_self), matchAt,
    Cursor.rest_after, hreach, reach_of_head? hrest, Cursor.after_after, List.singleton_append,
    List.findSome?_cons, hend]

/-- A run that cannot go on from its end gives back its last character, unless it has only one. -/
theorem matchAt_many1_of_last {d : Cursor} {x : Char} (hc : c.rest = passed ++ x :: rest)
    (hne : passed ≠ []) (hpassed : ∀ y ∈ passed, p y = true) (hx : p x = true)
    (hrest : ∀ y ∈ rest.head?, p y = false) (hend : k (c.after (passed ++ [x]) rest) = none)
    (hlast : k (c.after passed (x :: rest)) = some d) : (many1 p).matchAt k c = some d := by
  obtain ⟨y, passed, rfl⟩ := List.exists_cons_of_ne_nil hne
  rw [List.cons_append] at hc hend
  obtain ⟨reached, hreach⟩ := exists_reach_append (c.rest_after [y] (passed ++ x :: rest))
    (fun z hz => hpassed z (List.mem_cons_of_mem _ hz)) []
  rw [many1, matchAt_append, matchAt_one hc (hpassed y List.mem_cons_self), matchAt,
    Cursor.rest_after, hreach, Cursor.reach, if_pos hx, reach_of_head? hrest, Cursor.past_eq_after,
    Cursor.after_after, Cursor.after_after, List.singleton_append, List.findSome?_cons, hend]
  dsimp only
  rw [List.findSome?_cons, Cursor.after_after, List.singleton_append, hlast]

/-- A run of a single character goes on from its end only. -/
theorem matchAt_many1_of_single {x : Char} (hc : c.rest = x :: rest) (hx : p x = true)
    (hrest : ∀ y ∈ rest.head?, p y = false) : (many1 p).matchAt k c = k (c.after [x] rest) := by
  rw [many1, matchAt_append, matchAt_one hc hx, matchAt, Cursor.rest_after, reach_of_head? hrest,
    List.findSome?_cons, List.findSome?_nil]
  cases k (c.after [x] rest) <;> rfl

end RepoScope.Pattern
