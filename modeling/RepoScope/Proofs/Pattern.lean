import Mathlib.Data.List.Basic
import RepoScope.Pattern

/-!
# How a match starts

Whether every match of a pattern starts with a character of some class can be read off the pattern
(`Pattern.opens`), as long as the pattern starts with literals. For a pattern that only matches at the start
of a text, the first character of each text in which it is found is then one of the class
(`head_of_isIn`).
-/

namespace RepoScope.Pattern

/-! ## Patterns at the start of a text

A search tries a pattern at each place in turn. For a pattern that starts with `atStart`, all places but the first
can be left out.
-/

/-- Whether a pattern matches at the start of a text only. -/
def isAnchored : Pattern → Bool
  | atStart => true
  | seq first _ => first.isAnchored
  | either first second => first.isAnchored && second.isAnchored
  | captured body => body.isAnchored
  | _ => false

/-- A pattern for the start of a text matches nowhere else. -/
theorem matchAt_of_isAnchored {p : Pattern} (h : p.isAnchored = true) {k : Cursor → Option Cursor}
    {c : Cursor} (hc : c.offset ≠ 0) : p.matchAt k c = none := by
  induction p generalizing k with
  | atStart => rw [matchAt, if_neg hc]
  | seq first second ihf _ =>
    rw [matchAt]
    exact ihf h
  | either first second ihf ihs =>
    rw [isAnchored, Bool.and_eq_true] at h
    rw [matchAt, ihf h.1, ihs h.2]
  | captured body ih =>
    rw [matchAt]
    exact ih h
  | _ => cases h

/-- A pattern for the start of a text is found in the text if and only if it matches there. -/
theorem isIn_of_isAnchored {p : Pattern} (h : p.isAnchored = true) (text : List Char) :
    p.isIn text = (p.matchAt some (Cursor.ofText text)).isSome := by
  -- Behind the start the search finds nothing.
  have hbehind : ∀ (rest : List Char) (offset : Nat) (before : Option Char),
      p.search (offset + 1) before rest = none := by
    intro rest
    induction rest with
    | nil => exact fun offset before => matchAt_of_isAnchored h (Nat.succ_ne_zero offset)
    | cons x rest ih =>
      intro offset before
      rw [search, matchAt_of_isAnchored h (Nat.succ_ne_zero offset)]
      exact ih (offset + 1) (some x)
  cases text with
  | nil => rfl
  | cons x rest =>
    rw [isIn, search, hbehind rest 0 (some x), Cursor.ofText]
    cases p.matchAt some ⟨0, none, x :: rest, []⟩ <;> rfl

/-! ## First characters

Two properties are computed along the pattern together, since a sequence starts with its second part where the
first takes no character. Soundness is one induction over the pattern for both (`opens_sound`), with the
continuation kept general: a match that has taken no character goes on with the same text.
-/

mutual

/-- Whether every match takes at least one character, and one of the class first. -/
def opens (p : Char → Bool) : Pattern → Bool
  | literal (x :: _) => p x
  | seq first second => first.opens p || (first.mayOpen p && second.opens p)
  | either first second => first.opens p && second.opens p
  | captured body => body.opens p
  | _ => false

/-- Whether every match that takes a character takes one of the class first. -/
def mayOpen (p : Char → Bool) : Pattern → Bool
  | atStart => true
  | atStop => true
  | atLineStart => true
  | atWordEdge => true
  | literal [] => true
  | literal (x :: _) => p x
  | seq first second => first.opens p || (first.mayOpen p && second.mayOpen p)
  | either first second => first.mayOpen p && second.mayOpen p
  | repeated body => body.opens p
  | captured body => body.mayOpen p
  | _ => false

end

/-- Whether a character of the class stands behind the cursor. -/
def Cursor.StandsBefore (c : Cursor) (p : Char → Bool) : Prop :=
  ∃ x rest, c.rest = x :: rest ∧ p x = true

/-- A match starts with a character of the class, or goes on without having taken a character. -/
theorem opens_sound {cls : Char → Bool} (p : Pattern) {k : Cursor → Option Cursor} {c d : Cursor}
    (h : p.matchAt k c = some d) :
    (p.opens cls = true → c.StandsBefore cls) ∧
      (p.mayOpen cls = true → c.StandsBefore cls ∨ ∃ c', c'.rest = c.rest ∧ k c' = some d) := by
  induction p generalizing k c with
  | atStart | atStop | atLineStart | atWordEdge =>
    -- A test takes no character, so the match goes on from the same cursor.
    rw [matchAt] at h
    split at h
    · exact ⟨fun ho => absurd ho Bool.false_ne_true, fun _ => .inr ⟨c, rfl, h⟩⟩
    · cases h
  | literal text =>
    rw [matchAt] at h
    split at h
    · next rest hrest =>
      have hc : c.rest = text ++ rest := (List.isPrefixOf?_eq_some_iff_append_eq.mp hrest).symm
      cases text with
      | nil => exact ⟨fun ho => absurd ho Bool.false_ne_true, fun _ => .inr ⟨_, hc.symm, h⟩⟩
      | cons x text =>
        have hbefore : cls x = true → c.StandsBefore cls := fun hx => ⟨x, text ++ rest, hc, hx⟩
        exact ⟨hbefore, fun hx => .inl (hbefore hx)⟩
    · cases h
  | one _ | run _ | many _ => exact ⟨fun ho => absurd ho Bool.false_ne_true, fun ho => absurd ho Bool.false_ne_true⟩
  | seq first second ihf ihs =>
    rw [matchAt] at h
    -- Where the first part has taken no character, the second one starts at the same text.
    obtain ⟨hopens, hmay⟩ := ihf h
    simp only [opens, mayOpen, Bool.or_eq_true, Bool.and_eq_true]
    constructor
    · rintro (ho | ⟨hf, hs⟩)
      · exact hopens ho
      · rcases hmay hf with hbefore | ⟨c', hrest, hk⟩
        · exact hbefore
        · obtain ⟨x, rest, hx⟩ := (ihs hk).1 hs
          exact ⟨x, rest, hrest ▸ hx⟩
    · rintro (ho | ⟨hf, hs⟩)
      · exact .inl (hopens ho)
      · rcases hmay hf with hbefore | ⟨c', hrest, hk⟩
        · exact .inl hbefore
        · rcases (ihs hk).2 hs with ⟨x, rest, hx⟩ | ⟨c'', hrest', hk'⟩
          · exact .inl ⟨x, rest, hrest ▸ hx⟩
          · exact .inr ⟨c'', hrest'.trans hrest, hk'⟩
  | either first second ihf ihs =>
    simp only [opens, mayOpen, Bool.and_eq_true]
    rw [matchAt] at h
    split at h
    · next e hfirst =>
      cases h
      obtain ⟨hopens, hmay⟩ := ihf hfirst
      exact ⟨fun ho => hopens ho.1, fun ho => hmay ho.1⟩
    · obtain ⟨hopens, hmay⟩ := ihs h
      exact ⟨fun ho => hopens ho.2, fun ho => hmay ho.2⟩
  | repeated body ih =>
    refine ⟨fun ho => absurd ho Bool.false_ne_true, fun ho => ?_⟩
    rw [mayOpen] at ho
    rw [matchAt] at h
    -- The pattern is tried once more only if characters are left, and then its match starts with one of the
    -- class.
    cases hn : c.rest.length with
    | zero =>
      rw [hn, repeatMatch] at h
      exact .inr ⟨c, rfl, h⟩
    | succ n =>
      rw [hn, repeatMatch] at h
      split at h
      · next e hbody =>
        cases h
        exact .inl ((ih hbody).1 ho)
      · exact .inr ⟨c, rfl, h⟩
  | captured body ih =>
    rw [matchAt] at h
    obtain ⟨hopens, hmay⟩ := ih h
    refine ⟨hopens, fun ho => (hmay ho).imp_right ?_⟩
    rintro ⟨c', hrest, hk⟩
    exact ⟨{ c' with captures := c.rest.take (c'.offset - c.offset) :: c'.captures }, hrest, hk⟩

/-- A text in which a pattern for its start is found starts with a character of the class. -/
theorem head_of_isIn (cls : Char → Bool) {p : Pattern} {text : List Char}
    (hanchored : p.isAnchored = true) (hopens : p.opens cls = true) (h : p.isIn text = true) :
    ∃ x rest, text = x :: rest ∧ cls x = true := by
  rw [isIn_of_isAnchored hanchored, Option.isSome_iff_exists] at h
  obtain ⟨d, hd⟩ := h
  exact (opens_sound p hd).1 hopens

end RepoScope.Pattern
