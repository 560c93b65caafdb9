import Mathlib.Data.List.Infix
import RepoScope.Proofs.Denylist
import RepoScope.Text.Letter

/-!
# Texts in lower case

The lower-case form of a text is that of its characters one behind the other. A letter beyond ASCII never turns into a
character of ASCII, but for the dotted capital I and the Kelvin sign, whose forms have an i and a k
(`notMem_toLower_of_ascii`). So a word of ASCII characters without these two stands in the form of a text if and only if
it stands in the text itself with some of its ASCII letters in upper case (`infix_lowerCase_iff`).
-/

namespace RepoScope.Text

theorem containsBlock_iff {cs part : List Char} : containsBlock cs part = true ↔ part <:+: cs := by
  induction cs with
  | nil =>
    unfold containsBlock
    rw [List.isEmpty_iff, List.infix_nil]
  | cons c rest ih =>
    unfold containsBlock
    rw [Bool.or_eq_true, List.isPrefixOf_iff_prefix, ih, List.infix_cons_iff]

theorem toLower_ne_nil (c : Char) : toLower c ≠ [] := by
  unfold toLower
  split
  · exact List.cons_ne_nil _ _
  · split
    · exact List.cons_ne_nil _ _
    · split <;> exact List.cons_ne_nil _ _

theorem lowerCase_cons (c : Char) (rest : List Char) : lowerCase (c :: rest) = toLower c ++ lowerCase rest := rfl

theorem lowerCase_append (cs rest : List Char) : lowerCase (cs ++ rest) = lowerCase cs ++ lowerCase rest := by
  unfold lowerCase
  rw [List.flatMap_append]

theorem lowerCase_flatten (parts : List (List Char)) : lowerCase parts.flatten = (parts.map lowerCase).flatten := by
  induction parts with
  | nil => rfl
  | cons part parts ih => rw [List.flatten_cons, lowerCase_append, ih, List.map_cons, List.flatten_cons]

theorem lowerCase_eq_nil_iff {cs : List Char} : lowerCase cs = [] ↔ cs = [] := by
  unfold lowerCase
  rw [List.flatMap_eq_nil_iff]
  constructor
  · intro h
    exact List.eq_nil_iff_forall_not_mem.mpr fun c hc => toLower_ne_nil c (h c hc)
  · rintro rfl c hc
    exact absurd hc List.not_mem_nil

/-- A start of a text with the same form as the text is all of it, since no character has an empty form. -/
theorem eq_of_prefix_of_lowerCase_eq {front cs : List Char} (h : front <+: cs) (heq : lowerCase front = lowerCase cs) :
    front = cs := by
  obtain ⟨rest, rfl⟩ := h
  rw [lowerCase_append, List.self_eq_append_right, lowerCase_eq_nil_iff] at heq
  rw [heq, List.append_nil]

/-! ## ASCII characters

The form of a letter is looked up in a table of shifts. Two letters beyond ASCII have forms with an ASCII character
in them, and these are the two characters left out of `IsOfAscii`; that there are no others is decided on the
table.
-/

/-- An ASCII character that no letter beyond ASCII turns into: all but i and k. -/
def IsOfAscii (d : Char) : Prop :=
  0 < d.toNat ∧ d.toNat < 0x80 ∧ d ≠ 'i' ∧ d ≠ 'k'

instance (d : Char) : Decidable (IsOfAscii d) :=
  inferInstanceAs (Decidable (_ ∧ _))

theorem toLower_of_ascii {c : Char} (hc : c.toNat < 0x80) : toLower c = [c.toLower] := by
  unfold toLower
  rw [if_pos hc]

/-- The form of a letter beyond ASCII is one beyond ASCII, but for that of the Kelvin sign. -/
theorem first_add_shift : ∀ e ∈ Letter.lowerShift,
    e.1.last < 0x80 ∨ 0x80 ≤ (e.1.first : Int) + e.2 ∨ (e.1.last : Int) + e.2 = 'k'.toNat ∧ e.1.first = e.1.last := by
  -- The table is closed, so this is decided entry by entry.
  decide +kernel

/-- No letter beyond ASCII has one of these characters in its form. -/
theorem notMem_toLower_of_ascii {c d : Char} (hd : IsOfAscii d) (hc : ¬c.toNat < 0x80) : d ∉ toLower c := by
  obtain ⟨hpos, hascii, hi, hk⟩ := hd
  unfold toLower
  rw [if_neg hc]
  split
  · rintro (_ | ⟨_, _ | ⟨_, h⟩⟩)
    · exact hi rfl
    · revert hascii
      decide
    · cases h
  · split
    · next p shift hfind =>
      intro hmem
      have hcontains : p.contains c.toNat = true := by simpa using List.find?_some hfind
      unfold Letter.Progression.contains at hcontains
      rw [Bool.and_eq_true, Bool.and_eq_true, decide_eq_true_eq, decide_eq_true_eq] at hcontains
      -- What is no code of a character has the form of code 0.
      have hform : (c.toNat + shift).toNat = d.toNat := by
        rw [List.mem_singleton] at hmem
        by_cases hvalid : (c.toNat + shift).toNat.isValidChar
        · rw [hmem, Char.ofNat, dif_pos hvalid]
          rfl
        · rw [hmem, Char.ofNat, dif_neg hvalid] at hpos
          exact absurd hpos (Nat.lt_irrefl 0)
      rcases first_add_shift _ (List.mem_of_find?_eq_some hfind) with hlast | hfirst | ⟨hcode, hsingle⟩
      · simp only at hlast
        omega
      · simp only at hfirst
        omega
      · simp only at hcode hsingle
        exact hk (Char.ext (UInt32.toNat_inj.mp (show d.toNat = 'k'.toNat by omega)))
    · intro hmem
      rw [List.mem_singleton] at hmem
      exact hc (hmem ▸ hascii)

/-- A letter with one of these characters in its form is that letter of ASCII, in upper or lower case. -/
theorem toLower_of_mem {c d : Char} (hd : IsOfAscii d) (h : d ∈ toLower c) : toLower c = [d] ∧ c.toLower = d := by
  have hc : c.toNat < 0x80 := by
    by_contra hc
    exact notMem_toLower_of_ascii hd hc h
  rw [toLower_of_ascii hc, List.mem_singleton] at h
  exact ⟨by rw [toLower_of_ascii hc, h], h.symm⟩

theorem toLower_of_toLower_eq {c d : Char} (hd : IsOfAscii d) (h : c.toLower = d) : toLower c = [d] := by
  have hc : c.toNat < 0x80 := by
    by_contra hc
    have hsame : c.toLower = c := by
      delta Char.toLower
      have hZ : 'Z'.val.toNat = 90 := rfl
      refine dif_neg ?_
      rintro ⟨-, hle⟩
      rw [UInt32.le_iff_toNat_le] at hle
      have hval : c.val.toNat = c.toNat := rfl
      omega
    exact hc (hsame ▸ h ▸ hd.2.1)
  rw [toLower_of_ascii hc, h]

/-! ## Words in a text

Where a word of these characters stands in the lower-case form, each of its characters comes from one of the text,
so it stands in the text in the same place.
-/

/-- A word of such characters starts the lower-case form if it starts the text in some case. -/
theorem prefix_lowerCase_iff {word cs : List Char} (hword : ∀ d ∈ word, IsOfAscii d) :
    word <+: lowerCase cs ↔ ∃ part, part <+: cs ∧ lowerAscii part = word := by
  induction word generalizing cs with
  | nil => exact iff_of_true List.nil_prefix ⟨[], List.nil_prefix, rfl⟩
  | cons d word ih =>
    obtain ⟨hd, hword⟩ := List.forall_mem_cons.mp hword
    constructor
    · rintro ⟨behind, heq⟩
      cases cs with
      | nil => cases heq
      | cons c cs =>
        have hmem : d ∈ toLower c := by
          obtain ⟨e, more, hform⟩ := List.exists_cons_of_ne_nil (toLower_ne_nil c)
          rw [lowerCase_cons, hform] at heq
          rw [hform, (List.cons.inj heq).1]
          exact List.mem_cons_self
        obtain ⟨hform, hlower⟩ := toLower_of_mem hd hmem
        rw [lowerCase_cons, hform] at heq
        obtain ⟨part, hpart, hcase⟩ := (ih hword).mp ⟨behind, (List.cons.inj heq).2⟩
        exact ⟨c :: part, List.cons_prefix_cons.mpr ⟨rfl, hpart⟩, congrArg₂ List.cons hlower hcase⟩
    · rintro ⟨part, hpart, hcase⟩
      cases part with
      | nil => cases hcase
      | cons c part =>
        obtain ⟨hlower, hcase⟩ := List.cons.inj hcase
        obtain ⟨behind, rfl⟩ := hpart
        obtain ⟨more, hmore⟩ := (ih hword).mpr ⟨part, List.prefix_append part behind, hcase⟩
        refine ⟨more, ?_⟩
        rw [List.cons_append, List.cons_append, hmore, lowerCase_cons, toLower_of_toLower_eq hd hlower]
        rfl

/-- A word of such characters stands in the lower-case form of a text if it stands in the text in some case. -/
theorem infix_lowerCase_iff {word cs : List Char} (hne : word ≠ []) (hword : ∀ d ∈ word, IsOfAscii d) :
    word <:+: lowerCase cs ↔ ∃ part, part <:+: cs ∧ lowerAscii part = word := by
  induction cs with
  | nil =>
    constructor
    · intro h
      exact absurd (List.infix_nil.mp h) hne
    · rintro ⟨part, hpart, rfl⟩
      rw [List.infix_nil.mp hpart] at hne
      exact absurd rfl hne
  | cons c cs ih =>
    have hsplit : word <:+: lowerCase (c :: cs) ↔ word <+: lowerCase (c :: cs) ∨ word <:+: lowerCase cs := by
      constructor
      · rintro ⟨before, behind, heq⟩
        rw [lowerCase_cons, List.append_assoc, List.append_eq_append_iff] at heq
        rcases heq with ⟨rest, hform, hword'⟩ | ⟨rest, rfl, heq⟩
        · cases rest with
          | nil => exact .inr ⟨[], behind, hword'⟩
          | cons e rest =>
            -- The word starts in the form of the first character, which is then its first character alone.
            obtain ⟨d, word, rfl⟩ := List.exists_cons_of_ne_nil hne
            obtain ⟨rfl, -⟩ := List.cons.inj hword'
            have hmem : d ∈ toLower c := by
              rw [hform]
              exact List.mem_append_right _ List.mem_cons_self
            obtain ⟨hsingle, -⟩ := toLower_of_mem (hword d List.mem_cons_self) hmem
            have hlength := congrArg List.length (hsingle.symm.trans hform)
            have hbefore : before = [] := by
              rw [List.length_append, List.length_singleton, List.length_cons] at hlength
              exact List.eq_nil_of_length_eq_zero (by omega)
            rw [hbefore, List.nil_append] at hform
            exact .inl ⟨behind, by rw [lowerCase_cons, hform]; exact hword'⟩
        · exact .inr ⟨rest, behind, by rw [List.append_assoc]; exact heq.symm⟩
      · rintro (h | h)
        · exact h.isInfix
        · exact h.trans (List.suffix_append _ _).isInfix
    rw [hsplit, prefix_lowerCase_iff hword, ih]
    simp only [List.infix_cons_iff, or_and_right, exists_or]

end RepoScope.Text
