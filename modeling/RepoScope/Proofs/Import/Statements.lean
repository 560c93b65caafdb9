import Mathlib.Tactic.IntervalCases
import RepoScope.Import.Python
import RepoScope.Proofs.Pattern.Lines
import RepoScope.Proofs.Pattern.Steps

/-!
# Where import statements start

Both patterns for import statements of Python are for lines that start with a keyword, behind gaps (`firstName`).
Where no line of a text but the first starts with one of the keywords (`QuietBelow`), the matches of the text are the
match on the first line and those behind the text (`allMatches_append_of_quietBelow`).
-/

namespace RepoScope.Import.Python

open Pattern Text

/-! ## Characters

The classes of gaps and of characters of words have no character in common, so a run of one ends where the other
starts.
-/

theorem isWordChar_eq_false_of_isBlank {c : Char} (h : isBlank c = true) : isWordChar c = false := by
  simp only [isBlank, Bool.or_eq_true, Bool.and_eq_true, decide_eq_true_eq, beq_iff_eq] at h
  unfold isWordChar
  generalize c.toNat = n at h ⊢
  rcases h with ((((((((((⟨hlow, hhigh⟩ | rfl) | rfl) | rfl) | rfl) | ⟨hlow, hhigh⟩) | rfl) | rfl) | rfl)
    | rfl) | rfl)
  all_goals first
    | decide +kernel
    | interval_cases n <;> decide +kernel

/-- The gaps are the space and the tab. -/
theorem isGap_iff {c : Char} : isGap c = true ↔ c = ' ' ∨ c = '\t' := by
  rw [isGap, Bool.or_eq_true, beq_iff_eq, beq_iff_eq]

theorem isWordChar_eq_false_of_isGap {c : Char} (h : isGap c = true) : isWordChar c = false := by
  rcases isGap_iff.mp h with rfl | rfl <;> decide

theorem isGap_eq_false_of_isWordChar {c : Char} (h : isWordChar c = true) : isGap c = false := by
  cases hc : isGap c with
  | false => rfl
  | true => exact absurd h (by rw [isWordChar_eq_false_of_isGap hc]; decide)

/-! ## The first name of a line

Both patterns want a keyword behind the gaps of a line, and a gap behind it. So they fit nothing on a line whose
first word is another one (`matchAt_keyword_eq_none`). Whether a text that stands behind others is an import
statement depends on what stands before it: `Closes` says that the text does not prolong a word or the gaps before
one.
-/

/-- The word that a text starts with, behind gaps. -/
def firstName (text : List Char) : List Char :=
  (text.dropWhile isGap).takeWhile isWordChar

/-- The first name of a line is read off its cut into gaps, a word and what ends the word. -/
theorem firstName_eq {gaps word rest : List Char} (hgaps : ∀ c ∈ gaps, isGap c = true)
    (hword : ∀ c ∈ word, isWordChar c = true) (hrest : ∀ c ∈ rest.head?, isWordChar c = false)
    (hhead : ∀ c ∈ (word ++ rest).head?, isGap c = false) :
    firstName (gaps ++ (word ++ rest)) = word := by
  rw [firstName, dropWhile_append_exact hgaps hhead, takeWhile_append_exact hword hrest]

/-- Whether a line that starts so is no import statement. -/
def IsQuiet (text : List Char) : Prop :=
  firstName text ≠ "from".toList ∧ firstName text ≠ "import".toList

/-- A gap before a line makes no difference. -/
theorem isQuiet_cons {c : Char} (hc : isGap c = true) {text : List Char} :
    IsQuiet (c :: text) ↔ IsQuiet text := by
  rw [IsQuiet, IsQuiet, firstName, firstName, List.dropWhile_cons_of_pos hc]

/-- Whether a text starts neither with a gap nor in a word. -/
def Closes (text : List Char) : Prop :=
  ∀ c ∈ text.head?, isGap c = false ∧ isWordChar c = false

/-- A text that starts with neither a gap nor a character of a word closes what stands before it. -/
theorem closes_cons {c : Char} (hgap : isGap c = false) (hword : isWordChar c = false)
    (text : List Char) : Closes (c :: text) := by
  intro d hd
  obtain rfl : c = d := by simpa using hd
  exact ⟨hgap, hword⟩

/-- A text that closes what stands before it has no first name, and so is no import statement. -/
theorem Closes.isQuiet {text : List Char} (h : Closes text) : IsQuiet text := by
  have hname : firstName ([] ++ ([] ++ text)) = [] :=
    firstName_eq (by simp) (by simp) (fun c hc => (h c hc).2) fun c hc => (h c hc).1
  rw [IsQuiet, show firstName text = [] from hname]
  decide

/-- The start of a pattern for a keyword fits nothing if the line starts with another word. -/
theorem matchAt_keyword_eq_none (keyword : String) {k : Cursor → Option Cursor} {c : Cursor}
    (hkeyword : keyword.toList.all isWordChar = true)
    (hc : firstName c.rest ≠ keyword.toList) :
    (atLineStart ++ run isGap ++ lit keyword ++ run1 isGap).matchAt k c = none := by
  simp only [matchAt_append]
  obtain ⟨gaps, rest, hrest, hgaps, hhead⟩ := exists_span isGap c.rest
  rw [matchAt]
  split
  · rw [matchAt_run hrest hgaps hhead]
    by_cases hprefix : keyword.toList <+: rest
    · obtain ⟨more, rfl⟩ := hprefix
      have hmore : (c.after gaps (keyword.toList ++ more)).rest = keyword.toList ++ more := rfl
      rw [matchAt_lit hmore]
      refine matchAt_run1_eq_none fun x hx => ?_
      -- A gap would end the word, which would be the keyword then.
      by_contra hgap
      rw [Bool.not_eq_false] at hgap
      obtain ⟨more, rfl⟩ := List.head?_eq_some_iff.mp hx
      rw [hrest] at hc
      exact hc (firstName_eq hgaps (List.all_eq_true.mp hkeyword)
        (forall_head?_cons (isWordChar_eq_false_of_isGap hgap) more) hhead)
    · exact matchAt_lit_eq_none hprefix
  · rfl

/-- The start of a pattern for a keyword fits nothing behind other characters of the line. -/
theorem matchAt_keyword_of_before (keyword : String) {k : Cursor → Option Cursor} {c : Cursor}
    (hc : c.before.all (· == '\n') = false) :
    (atLineStart ++ run isGap ++ lit keyword ++ run1 isGap).matchAt k c = none := by
  simp only [matchAt_append]
  rw [matchAt, if_neg (by simp [hc])]

/-! ## The patterns of both statements

Both read line by line in the sense of `Pattern.ReadsLines`, and fail at once on a line that starts with another
word.
-/

/-- The pattern for imports of names is for the start of a line, and reads no other. -/
theorem readsLines_fromStatement : fromStatement.ReadsLines where
  stays := by decide
  needs k c hc := matchAt_keyword_eq_none "from" (by decide) (by rw [hc]; decide)
  anchored k c hc := matchAt_keyword_of_before "from" hc

/-- So is the pattern for imports of modules. -/
theorem readsLines_importStatement : importStatement.ReadsLines where
  stays := by decide
  needs k c hc := matchAt_keyword_eq_none "import" (by decide) (by rw [hc]; decide)
  anchored k c hc := matchAt_keyword_of_before "import" hc

/-- Names are imported only by a line that starts with `from`. -/
theorem matchAtStart?_fromStatement_eq_none {text : List Char} (h : firstName text ≠ "from".toList) :
    fromStatement.matchAtStart? text = none := by
  have hnone : fromStatement.matchAt some (Cursor.ofText text) = none :=
    matchAt_keyword_eq_none "from" (c := Cursor.ofText text) (by decide) h
  rw [matchAtStart?, hnone, Option.map_none]

/-- Modules are imported only by a line that starts with `import`. -/
theorem matchAtStart?_importStatement_eq_none {text : List Char}
    (h : firstName text ≠ "import".toList) : importStatement.matchAtStart? text = none := by
  have hnone : importStatement.matchAt some (Cursor.ofText text) = none :=
    matchAt_keyword_eq_none "import" (c := Cursor.ofText text) (by decide) h
  rw [matchAtStart?, hnone, Option.map_none]

/-! ## Texts of several lines

A statement may go on over several lines, and the patterns are tried on each of them. `QuietBelow` is said with the
text that follows, since the last line of a text may be prolonged by it. It is put together along the text,
character by character (`quietBelow_cons`, `quietBelow_append`).
-/

/-- Whether no line of `text` but the first starts an import statement, where `rest` follows. -/
def QuietBelow (rest : List Char) : List Char → Prop
  | [] => True
  | c :: text => (c = '\n' → IsQuiet (text ++ rest)) ∧ QuietBelow rest text

/-- A character that is no line feed starts no line. -/
theorem quietBelow_cons {c : Char} (hc : c ≠ '\n') {rest text : List Char} :
    QuietBelow rest (c :: text) ↔ QuietBelow rest text :=
  and_iff_right fun heq => absurd heq hc

/-- Of two texts, the first is to be quiet with the second behind it. -/
theorem quietBelow_append {rest text more : List Char} :
    QuietBelow rest (text ++ more) ↔ QuietBelow (more ++ rest) text ∧ QuietBelow rest more := by
  induction text with
  | nil => simp [QuietBelow]
  | cons c text ih => rw [List.cons_append, QuietBelow, QuietBelow, ih, List.append_assoc, and_assoc]

/-- A text of one line has no other lines. -/
theorem quietBelow_of_notMem_lf {rest text : List Char} (h : '\n' ∉ text) : QuietBelow rest text := by
  induction text with
  | nil => trivial
  | cons c text ih =>
    rw [List.mem_cons, not_or] at h
    exact ⟨fun hc => absurd hc.symm h.1, ih h.2⟩

/--
The matches in a text of which no line but the first starts an import statement are the match on the first line and
those behind the text.
-/
theorem allMatches_append_of_quietBelow {p : Pattern} (hp : p.ReadsLines)
    (hquiet : ∀ text, IsQuiet text → p.matchAtStart? text = none) {text rest : List Char}
    (htext : QuietBelow rest text) (hrest : IsQuiet rest) :
    p.allMatches (text ++ rest) = (p.matchAtStart? (text ++ rest)).toList ++ p.allMatches rest := by
  -- Induction on the lines of the text.
  induction hlength : text.length using Nat.strong_induction_on generalizing text with
  | _ n ih =>
    by_cases hlf : '\n' ∈ text
    · obtain ⟨line, more, rfl, hline⟩ := List.eq_append_cons_of_mem hlf
      obtain ⟨-, hmore, hbelow⟩ := quietBelow_append.mp htext
      have hshort : more.length < n := by
        rw [← hlength, List.length_append, List.length_cons]
        omega
      rw [List.append_assoc, List.cons_append, hp.allMatches_append_lf,
        hp.matchAtStart?_append_lf, hp.allMatches_of_notMem_lf hline,
        ih _ hshort hbelow rfl, hquiet _ (hmore rfl)]
      rfl
    · by_cases hlf' : '\n' ∈ rest
      · obtain ⟨line, more, rfl, hline⟩ := List.eq_append_cons_of_mem hlf'
        have hnone := hquiet _ hrest
        rw [hp.matchAtStart?_append_lf] at hnone
        rw [← List.append_assoc, hp.allMatches_append_lf, hp.matchAtStart?_append_lf,
          hp.allMatches_append_lf, hp.allMatches_of_notMem_lf hline, hnone,
          hp.allMatches_of_notMem_lf (by simp [hlf, hline])]
        rfl
      · rw [hp.allMatches_of_notMem_lf hlf', hquiet _ hrest,
          hp.allMatches_of_notMem_lf (by simp [hlf, hlf'])]
        simp

end RepoScope.Import.Python
