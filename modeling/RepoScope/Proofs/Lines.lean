import Mathlib.Data.List.TakeWhile
import RepoScope.Proofs.Names

/-!
# Lines and blanks

No line has a line feed in it (`lf_notMem_of_mem_lines`), and every list of such lines is that of some
text (`lines_writeLines`). The text is written with a carriage return before each line feed, since a line
may end with a carriage return of its own. Lines joined by line feeds alone are read back as no more lines
than they were (`length_lines_joinLines_le`).
-/

namespace RepoScope.Text

/-! ## Blanks

Blanks are taken off at both ends of a text. What is left starts and ends with no blank, and is empty if there was
nothing else.
-/

theorem dropEndWhile_eq_nil_iff {p : Char → Bool} {cs : List Char} :
    dropEndWhile p cs = [] ↔ ∀ c ∈ cs, p c = true := by
  rw [dropEndWhile, List.reverse_eq_nil_iff, List.dropWhile_eq_nil_iff]
  simp

/-- Nothing is left of a text without its blanks if and only if it has nothing but blanks. -/
theorem trim_eq_nil_iff {cs : List Char} : trim cs = [] ↔ ∀ c ∈ cs, isBlank c = true := by
  rw [trim, trimEnd, dropEndWhile_eq_nil_iff, trimStart]
  constructor
  · intro h
    -- A text whose rest is blank has no rest, since the rest starts with a character that is not.
    have hnil : cs.dropWhile isBlank = [] := by
      cases hrest : cs.dropWhile isBlank with
      | nil => rfl
      | cons c rest =>
        have hne : cs.dropWhile isBlank ≠ [] := by rw [hrest]; exact List.cons_ne_nil c rest
        have hhead := List.head_dropWhile_not isBlank hne
        have hblank := h _ (List.head_mem hne)
        rw [hhead] at hblank
        cases hblank
    exact List.dropWhile_eq_nil_iff.mp hnil
  · intro h c hc
    exact h c ((List.dropWhile_sublist _).subset hc)

theorem isBlankText_eq_false_iff {cs : List Char} : isBlankText cs = false ↔ trim cs ≠ [] := by
  rw [ne_eq, trim_eq_nil_iff, isBlankText, List.all_eq_false]
  simp

theorem isBlankText_eq_false_of_mem {c : Char} {cs : List Char} (hmem : c ∈ cs)
    (hc : isBlank c = false) : isBlankText cs = false := by
  rw [isBlankText, List.all_eq_false]
  exact ⟨c, hmem, by simp [hc]⟩

theorem trim_append_right {blanks : List Char} (hblanks : ∀ c ∈ blanks, isBlank c = true)
    (cs : List Char) : trim (cs ++ blanks) = trim cs := by
  have hend : ∀ cs, trimEnd (cs ++ blanks) = trimEnd cs := by
    intro cs
    have hreverse : ∀ c ∈ blanks.reverse, isBlank c = true := fun c hc =>
      hblanks c (List.mem_reverse.mp hc)
    rw [trimEnd, trimEnd, dropEndWhile, dropEndWhile, List.reverse_append,
      List.dropWhile_append_of_pos hreverse]
  rw [trim, trim, trimStart, trimStart, List.dropWhile_append]
  split
  · next hnil =>
    rw [List.isEmpty_iff.mp hnil, List.dropWhile_eq_nil_iff.mpr hblanks]
  · exact hend _

theorem trim_append_left {blanks : List Char} (hblanks : ∀ c ∈ blanks, isBlank c = true)
    (cs : List Char) : trim (blanks ++ cs) = trim cs := by
  rw [trim, trim, trimStart, trimStart, List.dropWhile_append_of_pos hblanks]

/-- A text is the blanks at its start, what is left without the blanks at its ends, and the blanks at its end. -/
theorem exists_eq_append_trim (cs : List Char) :
    ∃ behind, (∀ c ∈ behind, isBlank c = true) ∧ cs = leadingBlanks cs ++ trim cs ++ behind := by
  refine ⟨((trimStart cs).reverse.takeWhile isBlank).reverse, ?_, ?_⟩
  · intro c hc
    exact List.mem_takeWhile_imp (List.mem_reverse.mp hc)
  · have hsplit : trimStart cs = trim cs ++ ((trimStart cs).reverse.takeWhile isBlank).reverse := by
      rw [trim, trimEnd, dropEndWhile, ← List.reverse_append, List.takeWhile_append_dropWhile,
        List.reverse_reverse]
    rw [List.append_assoc, ← hsplit, leadingBlanks, trimStart, List.takeWhile_append_dropWhile]

/-- The blanks at the start of a text and what stands between the blanks at its ends are its start. -/
theorem isPrefix_leadingBlanks_append_trim (cs : List Char) : leadingBlanks cs ++ trim cs <+: cs := by
  obtain ⟨behind, -, hcs⟩ := exists_eq_append_trim cs
  exact ⟨behind, hcs.symm⟩

theorem isBlank_head?_trim {cs : List Char} {c : Char} (h : (trim cs).head? = some c) : isBlank c = false := by
  have hprefix : trim cs <+: trimStart cs := by
    rw [trim, trimEnd, dropEndWhile, ← List.reverse_suffix, List.reverse_reverse]
    exact List.dropWhile_suffix _
  have hhead : (trimStart cs).head? = some c := by
    obtain ⟨rest, hrest⟩ := hprefix
    rw [← hrest, List.head?_append, h, Option.some_or]
  have hnot := List.head?_dropWhile_not isBlank cs
  rw [← trimStart, hhead] at hnot
  exact hnot

theorem isBlank_getLast?_trim {cs : List Char} {c : Char} (h : (trim cs).getLast? = some c) : isBlank c = false := by
  rw [trim, trimEnd, dropEndWhile, List.getLast?_reverse] at h
  have hnot := List.head?_dropWhile_not isBlank (trimStart cs).reverse
  rw [h] at hnot
  exact hnot

/-- A text is left as it is if there is no blank at its ends. -/
theorem trim_eq_self_iff {cs : List Char} :
    trim cs = cs ↔ (∀ c, cs.head? = some c → isBlank c = false) ∧ ∀ c, cs.getLast? = some c → isBlank c = false := by
  constructor
  · intro h
    rw [← h]
    exact ⟨fun c => isBlank_head?_trim, fun c => isBlank_getLast?_trim⟩
  · rintro ⟨hhead, hlast⟩
    have hkept : ∀ xs : List Char, (∀ c, xs.head? = some c → isBlank c = false) → xs.dropWhile isBlank = xs := by
      intro xs hxs
      cases xs with
      | nil => rfl
      | cons x xs => simp [hxs x rfl]
    rw [trim, trimStart, hkept cs hhead, trimEnd, dropEndWhile,
      hkept _ fun c hc => hlast c (List.head?_reverse ▸ hc), List.reverse_reverse]

/-! ## Lines

A text is cut at its line feeds, and a carriage return at the end of a line is dropped. A line feed at the end of a
text starts no further line.
-/

theorem lf_notMem_of_mem_dropReturn {line : List Char} (h : '\n' ∉ line) : '\n' ∉ dropReturn line := by
  rw [dropReturn]
  split
  · exact fun hc => h (List.dropLast_subset _ hc)
  · exact h

/-- No line has a line feed in it. -/
theorem lf_notMem_of_mem_lines {cs line : List Char} (h : line ∈ lines cs) : '\n' ∉ line := by
  have hpiece : ∀ piece ∈ pieces '\n' cs, '\n' ∉ piece := fun piece hp hc => by
    simpa using eq_false_of_mem_piecesBy hp '\n' hc
  rw [lines, List.mem_append] at h
  rcases h with h | h
  · obtain ⟨piece, hp, rfl⟩ := List.mem_map.mp h
    exact lf_notMem_of_mem_dropReturn (hpiece piece (List.dropLast_subset _ hp))
  · obtain ⟨hlast, -⟩ := List.mem_filter.mp h
    exact hpiece line (List.mem_of_getLast? (Option.mem_toList.mp hlast))

/-- A blank text has only blank lines. -/
theorem isBlankText_of_mem_lines {cs line : List Char} (h : isBlankText cs = true) (hline : line ∈ lines cs) :
    isBlankText line = true := by
  have hsubset : line ⊆ cs := by
    rw [lines, List.mem_append] at hline
    rcases hline with hline | hline
    · obtain ⟨piece, hp, rfl⟩ := List.mem_map.mp hline
      have hpiece : dropReturn piece ⊆ piece := by
        rw [dropReturn]
        split
        · exact List.dropLast_subset piece
        · exact List.Subset.refl piece
      exact List.Subset.trans hpiece (subset_of_mem_piecesBy (List.dropLast_subset _ hp))
    · obtain ⟨hlast, -⟩ := List.mem_filter.mp hline
      exact subset_of_mem_piecesBy (List.mem_of_getLast? (Option.mem_toList.mp hlast))
  exact List.all_eq_true.mpr fun c hc => List.all_eq_true.mp h c (hsubset hc)

/-- A line feed ends the first line. -/
theorem lines_append_lf {line rest : List Char} (h : '\n' ∉ line) :
    lines (line ++ '\n' :: rest) = dropReturn line :: lines rest := by
  have hline : ∀ c ∈ line, (c == '\n') = false := by
    intro c hc
    have : c ≠ '\n' := fun heq => h (heq ▸ hc)
    simpa using this
  have hpieces : pieces '\n' (line ++ '\n' :: rest) = line :: pieces '\n' rest :=
    piecesBy_append_sep hline (by simp)
  have hne : pieces '\n' rest ≠ [] := piecesBy_ne_nil _ rest
  rw [lines, lines, hpieces, List.dropLast_cons_of_ne_nil hne, List.getLast?_cons_of_ne_nil hne]
  rfl

/-- Lines written as a text, each ended by a carriage return and a line feed. -/
def writeLines (written : List (List Char)) : List Char :=
  written.flatMap (· ++ ['\r', '\n'])

/-- A text that is written line by line has these lines. -/
theorem lines_writeLines {written : List (List Char)} (h : ∀ line ∈ written, '\n' ∉ line) :
    lines (writeLines written) = written := by
  induction written with
  | nil => rfl
  | cons line rest ih =>
    have hline : '\n' ∉ line ++ ['\r'] := by
      simpa using h line List.mem_cons_self
    have hreturn : dropReturn (line ++ ['\r']) = line := by
      rw [dropReturn, if_pos (by simp), List.dropLast_concat]
    have hwrite : writeLines (line :: rest) = (line ++ ['\r']) ++ '\n' :: writeLines rest := by
      simp [writeLines]
    rw [hwrite, lines_append_lf hline, hreturn, ih fun l hl => h l (List.mem_cons_of_mem _ hl)]

/-- A text without lines is empty. -/
theorem lines_ne_nil {cs : List Char} (h : cs ≠ []) : lines cs ≠ [] := by
  intro hnil
  rw [lines, List.append_eq_nil_iff, List.map_eq_nil_iff] at hnil
  obtain ⟨hinit, hlast⟩ := hnil
  -- Otherwise the text is cut into one piece, and this is empty.
  obtain ⟨piece, rest, hpieces⟩ := List.exists_cons_of_ne_nil (piecesBy_ne_nil (· == '\n') cs)
  have hpieces : pieces '\n' cs = piece :: rest := hpieces
  cases rest with
  | cons next rest =>
    rw [hpieces] at hinit
    cases hinit
  | nil =>
    rw [hpieces] at hlast
    have hpiece : piece = [] := by simpa using hlast
    have hjoined : cs = piece := by
      cases cs with
      | nil => exact absurd rfl h
      | cons c rest =>
        by_cases hc : (c == '\n') = true
        · rw [pieces, piecesBy_cons_sep _ c rest hc, List.cons.injEq] at hpieces
          exact absurd hpieces.2 (piecesBy_ne_nil _ rest)
        · obtain ⟨front, back, hrest⟩ :=
            List.exists_cons_of_ne_nil (piecesBy_ne_nil (· == '\n') rest)
          rw [pieces, piecesBy_cons_other _ c rest front back (by simpa using hc) hrest,
            List.cons.injEq, hpiece] at hpieces
          cases hpieces.1
    exact h (hjoined.trans hpiece)

/-! ## Lines joined by line feeds

Joining is not the inverse of cutting: a line may hold a carriage return at its end that is dropped when the text
is read again, and an empty last line is lost. The number of lines can only fall.
-/

theorem joinLines_concat {front : List (List Char)} (h : front ≠ []) (last : List Char) :
    joinLines (front ++ [last]) = joinLines front ++ '\n' :: last := by
  rw [joinLines, intercalate_append h (List.cons_ne_nil _ _), List.intercalate_singleton, joinLines]

/-- The last character of joined lines is that of the last line. -/
theorem getLast?_joinLines (front : List (List Char)) {last : List Char} (h : last ≠ []) :
    (joinLines (front ++ [last])).getLast? = last.getLast? := by
  cases front with
  | nil => simp [joinLines]
  | cons line rest =>
    rw [joinLines_concat (List.cons_ne_nil _ _), List.getLast?_append, List.getLast?_cons_of_ne_nil h,
      List.getLast?_eq_some_getLast h, Option.some_or]

/-- Joined lines are read as no more lines, with or without a line feed behind them. -/
theorem length_lines_joinLines_le {written : List (List Char)} (hne : written ≠ [])
    (hlf : ∀ line ∈ written, '\n' ∉ line) :
    (lines (joinLines written)).length ≤ written.length ∧
      (lines (joinLines written ++ ['\n'])).length ≤ written.length := by
  constructor
  · have hpieces : pieces '\n' (joinLines written) = written := pieces_intercalate hne hlf
    have hfilter : (written.getLast?.toList.filter (· ≠ [])).length ≤ 1 :=
      Nat.le_trans (List.length_filter_le _ _) (by cases written.getLast? <;> simp)
    have hpos := List.length_pos_iff.mpr hne
    rw [lines, hpieces, List.length_append, List.length_map, List.length_dropLast]
    omega
  · have hall : ∀ line ∈ written ++ [[]], '\n' ∉ line := by
      intro line hline
      rcases List.mem_append.mp hline with hline | hline
      · exact hlf line hline
      · simp [List.mem_singleton.mp hline]
    have hpieces : pieces '\n' (joinLines (written ++ [[]])) = written ++ [[]] :=
      pieces_intercalate (by simp) hall
    rw [← joinLines_concat hne [], lines, hpieces]
    simp

end RepoScope.Text
