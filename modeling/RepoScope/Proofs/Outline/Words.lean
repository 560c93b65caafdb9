import RepoScope.Outline.Declaration
import RepoScope.Proofs.Pattern

/-!
# How lines start

The tests on the words of a line look at its start, so what they find tells what the first character is:
a declaration starts with a letter, and an import with a letter or a hash. Neither of them is then taken for
an annotation.
-/

namespace RepoScope.Outline

/-- A letter is none of the signs. -/
theorem beq_eq_false_of_isAlpha {c d : Char} (hc : c.isAlpha = true) (hd : d.isAlpha = false) :
    (d == c) = false := by
  rw [beq_eq_false_iff_ne]
  rintro rfl
  rw [hc] at hd
  cases hd

/-- A letter is none of a choice of signs. -/
theorem oneOf_eq_false_of_isAlpha {chars : String} (hchars : chars.toList.all (!·.isAlpha) = true)
    {c : Char} (hc : c.isAlpha = true) : Pattern.oneOf chars c = false := by
  rw [Pattern.oneOf, List.contains_eq_mem, decide_eq_false_iff_not]
  intro hmem
  have hnot := List.all_eq_true.mp hchars c hmem
  rw [hc] at hnot
  cases hnot

/-- A line that starts with a letter is no annotation. -/
theorem isAnnotation_of_isAlpha {c : Char} (hc : c.isAlpha = true) (rest : List Char) (opens : Bool) :
    isAnnotation (c :: rest) opens = false := by
  have hslash : ('/' == c) = false := beq_eq_false_of_isAlpha hc (by decide)
  have hhash : ('#' == c) = false := beq_eq_false_of_isAlpha hc (by decide)
  have hat : ('@' == c) = false := beq_eq_false_of_isAlpha hc (by decide)
  simp [ isAnnotation, Text.startsWith, List.isPrefixOf, hslash, hhash, hat]

/-- A declaration starts with a letter. -/
theorem exists_letter_of_declares {trimmed : List Char}
    (h : declarationHeader.isIn trimmed = true ∨ containerHeader.isIn trimmed = true) :
    ∃ c rest, trimmed = c :: rest ∧ c.isAlpha = true := by
  rcases h with h | h
  · exact Pattern.head_of_isIn Char.isAlpha (by decide) (by decide) h
  · exact Pattern.head_of_isIn Char.isAlpha (by decide) (by decide) h

/-- No import starts like an attribute or the line that names an interpreter. -/
theorem isAnnotation_of_importLine {trimmed : List Char} (h : importLine.isIn trimmed = true)
    (opens : Bool) : isAnnotation trimmed opens = false := by
  obtain ⟨c, rest, rfl, hc⟩ :=
    Pattern.head_of_isIn (fun c => c.isAlpha || c == '#') (by decide) (by decide) h
  rw [Bool.or_eq_true, beq_iff_eq] at hc
  rcases hc with hc | rfl
  · exact isAnnotation_of_isAlpha hc rest opens
  · rw [Pattern.isIn_of_isAnchored (by decide)] at h
    cases rest with
    | nil => rfl
    | cons d more =>
      -- Behind the hash a word comes next, so the pattern fails on these two.
      have hbracket : ('[' == d) = false := by
        rw [beq_eq_false_iff_ne]
        rintro rfl
        cases h
      have hbang : ('!' == d) = false := by
        rw [beq_eq_false_iff_ne]
        rintro rfl
        cases h
      simp [ isAnnotation, Text.startsWith, List.isPrefixOf, hbracket, hbang]

/-- An import is not blank. -/
theorem ne_nil_of_importLine {trimmed : List Char} (h : importLine.isIn trimmed = true) :
    trimmed ≠ [] := by
  obtain ⟨c, rest, rfl, -⟩ :=
    Pattern.head_of_isIn (fun c => c.isAlpha || c == '#') (by decide) (by decide) h
  exact List.cons_ne_nil c rest

/-- An import of an indented language starts with a letter too. -/
theorem exists_letter_of_moduleImport {trimmed : List Char} (h : moduleImport.isIn trimmed = true) :
    ∃ c rest, trimmed = c :: rest ∧ c.isAlpha = true :=
  Pattern.head_of_isIn Char.isAlpha (by decide) (by decide) h

/-- The start of a function is none of a class, an import, a comment or a decorator. -/
theorem starts_of_defHeader {trimmed : List Char} (h : defHeader.isIn trimmed = true) :
    ∃ c rest, trimmed = c :: rest ∧ (c = 'a' ∨ c = 'd') ∧ isClassHeader trimmed = false ∧
      moduleImport.isIn trimmed = false := by
  obtain ⟨c, rest, rfl, hc⟩ :=
    Pattern.head_of_isIn (fun c => c == 'a' || c == 'd') (by decide) (by decide) h
  rw [Bool.or_eq_true, beq_iff_eq, beq_iff_eq] at hc
  refine ⟨c, rest, rfl, hc, ?_, ?_⟩
  · rcases hc with rfl | rfl <;> rfl
  · rw [Bool.eq_false_iff]
    intro himport
    obtain ⟨d, more, heq, hd⟩ :=
      Pattern.head_of_isIn (fun c => c == 'i' || c == 'f') (by decide) (by decide) himport
    rw [(List.cons.inj heq).1] at hc
    rcases hc with rfl | rfl <;> exact absurd hd (by decide)

end RepoScope.Outline
