import RepoScope.Render.Xml

/-!
# Escaped texts and sections

What is written for a character of a text is a reference or the character itself, which then is none of the
five special ones (`escapeChar_cases`). A text between marks is written in sections: it is cut behind the two
brackets of every closing mark in it (`verbatim_eq`), so the sections hold the text in order
(`flatten_sections`) and none of them holds a closing mark (`isFree_of_mem_sections`).
-/

namespace RepoScope.Render.Xml

/-! ## Escaped texts

Five characters are written as references, all others as they are.
-/

/-- The references to the five special characters. -/
def references : List (List Char) :=
  ["&lt;".toList, "&gt;".toList, "&amp;".toList, "&apos;".toList, "&quot;".toList]

/-- What is written for a character is a reference, or the character itself if it is no special one. -/
theorem escapeChar_cases (c : Char) :
    escapeChar c ∈ references ∨
      escapeChar c = [c] ∧ c ≠ '<' ∧ c ≠ '>' ∧ c ≠ '&' ∧ c ≠ '\x27' ∧ c ≠ '\x22' := by
  unfold escapeChar
  split
  case h_6 hlt hgt hamp hapos hquot => exact .inr ⟨rfl, hlt, hgt, hamp, hapos, hquot⟩
  all_goals exact .inl (by decide)

/-- No special character but the ampersand is left in what is written for a text. -/
theorem notMem_escape {special : Char}
    (h : special = '<' ∨ special = '>' ∨ special = '\x27' ∨ special = '\x22') (text : String) :
    special ∉ escape text := by
  rw [escape, List.mem_flatMap]
  rintro ⟨c, -, hmem⟩
  rcases escapeChar_cases c with href | ⟨hself, hlt, hgt, -, hapos, hquot⟩
  · have hfree : ∀ reference ∈ references, '<' ∉ reference ∧ '>' ∉ reference ∧
        '\x27' ∉ reference ∧ '\x22' ∉ reference := by decide
    obtain ⟨h₁, h₂, h₃, h₄⟩ := hfree _ href
    rcases h with rfl | rfl | rfl | rfl
    · exact h₁ hmem
    · exact h₂ hmem
    · exact h₃ hmem
    · exact h₄ hmem
  · rw [hself, List.mem_singleton] at hmem
    subst hmem
    rcases h with h | h | h | h <;> contradiction

/-! ## Sections

The writer never goes back: it counts the closing brackets it has just written and, at a greater-than sign behind
two of them, ends the section and opens another one before it. The sections are given by a recursion that goes
along with it (`sectionsFrom`), with the count and the characters of the open section as its state.
-/

/-- The mark that opens a section. -/
def openingMark : List Char := "<![CDATA[".toList

/-- The mark that closes a section. -/
def closingMark : List Char := [']', ']', '>']

/-- A section with its marks. -/
def marked (content : List Char) : List Char := openingMark ++ content ++ closingMark

/--
The sections of the characters behind those in `done`, newest first. `brackets` is the number of closing
brackets that directly precede.
-/
def sectionsFrom (brackets : Nat) (done : List Char) : List Char → List (List Char)
  | [] => [done.reverse]
  | c :: rest =>
    if c = ']' then sectionsFrom (brackets + 1) (c :: done) rest
    else if c = '>' ∧ 2 ≤ brackets then done.reverse :: sectionsFrom 0 [c] rest
    else sectionsFrom 0 (c :: done) rest

/-- The sections that a text between marks is written in. -/
def sections (text : List Char) : List (List Char) := sectionsFrom 0 [] text

/-- The sections hold the text in order, from any state. -/
theorem flatten_sectionsFrom (brackets : Nat) (done text : List Char) :
    (sectionsFrom brackets done text).flatten = done.reverse ++ text := by
  fun_induction sectionsFrom brackets done text with
  | case1 brackets done => simp
  | case2 brackets done rest ih => simp [ih]
  | case3 brackets done c rest hc hcut ih => simp [ih]
  | case4 brackets done c rest hc hcut ih => simp [ih]

/-- The sections hold the text in order. -/
theorem flatten_sections (text : List Char) : (sections text).flatten = text :=
  flatten_sectionsFrom 0 [] text

/-- What the open section holds so far comes first in what is written. -/
theorem verbatimFrom_append (brackets : Nat) (done before text : List Char) :
    verbatimFrom brackets (done ++ before) text
      = before.reverse ++ verbatimFrom brackets done text := by
  induction text generalizing brackets done before with
  | nil => simp [verbatimFrom]
  | cons c rest ih =>
    rw [verbatimFrom, verbatimFrom]
    split
    · exact ih (brackets + 1) (c :: done) before
    · split
      · rw [← List.append_assoc]
        exact ih 0 (c :: verbatimCut.reverse ++ done) before
      · exact ih 0 (c :: done) before

/-- From any state, what is written are the sections with their marks. -/
theorem verbatimFrom_eq (brackets : Nat) (done text : List Char) :
    openingMark ++ verbatimFrom brackets done text ++ closingMark
      = (sectionsFrom brackets done text).flatMap marked := by
  fun_induction sectionsFrom brackets done text with
  | case1 brackets done => simp [verbatimFrom, marked]
  | case2 brackets done rest ih => rw [verbatimFrom, if_pos rfl, ih]
  | case3 brackets done c rest hc hcut ih =>
    -- What stands between two sections closes the one and opens the other.
    have hmarks : verbatimCut = closingMark ++ openingMark := rfl
    have hdone : c :: verbatimCut.reverse ++ done = [c] ++ (verbatimCut.reverse ++ done) := rfl
    rw [verbatimFrom, if_neg hc, if_pos hcut, hdone, verbatimFrom_append, List.flatMap_cons, ← ih,
      hmarks]
    simp [marked]
  | case4 brackets done c rest hc hcut ih => rw [verbatimFrom, if_neg hc, if_neg hcut, ih]

/-- A text between marks is written in sections. -/
theorem verbatim_eq (text : String) : verbatim text = (sections text.toList).flatMap marked :=
  verbatimFrom_eq 0 [] text.toList

/-! ### No section holds a closing mark -/

/-- Whether no closing mark stands in a text. -/
def IsFree (text : List Char) : Prop := ¬closingMark <:+: text

theorem isFree_nil : IsFree [] := by
  rw [IsFree, List.infix_nil]
  exact List.cons_ne_nil _ _

/-- One more character closes a section if it is the last one of a mark. -/
theorem isFree_reverse_cons {c : Char} {done : List Char} :
    IsFree (c :: done).reverse ↔ IsFree done.reverse ∧ ¬(c = '>' ∧ [']', ']'] <+: done) := by
  have hmark : closingMark = ['>', ']', ']'].reverse := rfl
  rw [IsFree, IsFree, hmark, List.reverse_infix, List.reverse_infix, List.infix_cons_iff,
    List.cons_prefix_cons, not_or, and_comm, eq_comm]

/-- Two closing brackets precede if the count is at least two. -/
theorem prefix_iff_brackets {done : List Char} :
    [']', ']'] <+: done ↔ 2 ≤ (done.takeWhile (· == ']')).length := by
  rcases done with _ | ⟨c, _ | ⟨d, rest⟩⟩
  · simp
  · by_cases hc : c = ']' <;> simp [hc]
  · by_cases hc : c = ']'
    · by_cases hd : d = ']'
      · simp [hc, hd]
      · simp [hc, hd, Ne.symm hd]
    · simp [hc, Ne.symm hc]

/-- From any state in which the open section has no closing mark and the count is right, no section gets one. -/
theorem isFree_of_mem_sectionsFrom {brackets : Nat} {done text : List Char}
    (hfree : IsFree done.reverse) (hbrackets : brackets = (done.takeWhile (· == ']')).length) :
    ∀ content ∈ sectionsFrom brackets done text, IsFree content := by
  -- Along the text, `brackets` counts the brackets at the end of what is done.
  fun_induction sectionsFrom brackets done text with
  | case1 brackets done => simpa using hfree
  | case2 brackets done rest ih =>
    refine ih (isFree_reverse_cons.mpr ⟨hfree, fun h => absurd h.1 (by decide)⟩) ?_
    simp [hbrackets]
  | case3 brackets done c rest hc hcut ih =>
    obtain ⟨rfl, -⟩ := hcut
    have hsingle : IsFree ['>'].reverse :=
      isFree_reverse_cons.mpr ⟨isFree_nil, fun h => absurd h.2 (by decide)⟩
    intro content hcontent
    rcases List.mem_cons.mp hcontent with rfl | hcontent
    · exact hfree
    · exact ih hsingle rfl content hcontent
  | case4 brackets done c rest hc hcut ih =>
    refine ih (isFree_reverse_cons.mpr ⟨hfree, fun h => hcut ⟨h.1, ?_⟩⟩) ?_
    · rw [hbrackets]
      exact prefix_iff_brackets.mp h.2
    · simp [hc]

/-- No section holds a closing mark. -/
theorem isFree_of_mem_sections {text content : List Char} (h : content ∈ sections text) :
    IsFree content := by
  have hnil : IsFree ([] : List Char).reverse := isFree_nil
  exact isFree_of_mem_sectionsFrom hnil rfl content h

/-- Brackets in front of a closing mark stay with it, and a mark may begin where another one was cut. -/
example : (sections "a]]]>]]>>".toList).map String.ofList = ["a]]]", ">]]", ">>"] := by decide

end RepoScope.Render.Xml
