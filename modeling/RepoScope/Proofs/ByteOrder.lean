import RepoScope.Text.Utf8

/-!
# The order of texts and of their bytes

Strings are compared character by character. The bytes that encode them stand in the same order
(`encode_lt_encode`): the code of a smaller character has a smaller byte where it first differs,
and no code is the start of another.
-/

namespace RepoScope.Text

/-- The code of a smaller character comes first, whatever follows it. -/
theorem utf8EncodeChar_append_lt {c d : Char} (h : c < d) (s t : Bytes) :
    String.utf8EncodeChar c ++ s < String.utf8EncodeChar d ++ t := by
  have hv : c.val.toNat < d.val.toNat := h
  have hd : d.val.toNat < 0x110000 := by
    rcases d.valid with hlow | hhigh
    · exact Nat.lt_trans hlow (by decide)
    · exact hhigh.2
  unfold String.utf8EncodeChar
  generalize c.val.toNat = m at hv
  generalize d.val.toNat = n at hv hd
  dsimp only
  -- The digits to base 64, of which each code is a list.
  have hm₂ : m / 4096 = m / 64 / 64 := by omega
  have hm₃ : m / 262144 = m / 64 / 64 / 64 := by omega
  have hn₂ : n / 4096 = n / 64 / 64 := by omega
  have hn₃ : n / 262144 = n / 64 / 64 / 64 := by omega
  rw [hm₂, hm₃, hn₂, hn₃]
  -- The number of bytes grows with the character, and the lead byte with their number.
  repeat' split
  all_goals
    simp only [List.cons_append, List.nil_append, List.cons_lt_cons_iff, UInt8.lt_iff_toNat_lt,
      ← UInt8.toNat_inj, UInt8.toNat_ofNat']
    simp (disch := omega) only [Nat.mod_eq_of_lt]
    omega

theorem encode_cons (c : Char) (cs : List Char) :
    encode (c :: cs) = String.utf8EncodeChar c ++ encode cs := by
  simp [encode]

/-- Texts and their bytes stand in the same order. -/
theorem encode_lt_encode {a b : List Char} (h : a < b) : encode a < encode b := by
  induction a generalizing b with
  | nil =>
    cases b with
    | nil => exact absurd h (List.not_lt_nil _)
    | cons d ds =>
      obtain ⟨x, xs, hx⟩ := List.exists_cons_of_ne_nil (String.utf8EncodeChar_ne_nil (c := d))
      rw [encode_cons, hx]
      exact List.nil_lt_cons _ _
  | cons c cs ih =>
    cases b with
    | nil => exact absurd h (List.not_lt_nil _)
    | cons d ds =>
      rw [encode_cons, encode_cons]
      rcases List.cons_lt_cons_iff.mp h with hlt | ⟨rfl, hrest⟩
      · exact utf8EncodeChar_append_lt hlt _ _
      · exact List.append_left_lt (ih hrest)

end RepoScope.Text
