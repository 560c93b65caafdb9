import RepoScope.Outline.Braces
import RepoScope.Proofs.Lines
import RepoScope.Proofs.Outline.Marks

/-!
# What a line says by its brackets

A reading counts the brackets of a line. Its depth is the depth at the start of the line plus the height
of the brackets (`Reading.depth_eq`). A brace that opens no lower than the line starts is seen as the one
that opens a block, or comes behind the one that is (`Reading.openAt_le`).
-/

namespace RepoScope.Outline.Braces

open Text

deriving instance DecidableEq for Reading

/-! ## Counting

The tally of a line goes from bracket to bracket and fails where a brace closes below zero. Each part of it is
followed by itself: the depth by the height of the brackets, the parentheses by theirs, and the column of the brace
that opens a block by what the depth was when it was met.
-/

/--
One bracket moves the depth by its rise, and is noted if it is the first brace that opens where the line starts.
-/
theorem Tally.add?_eq_some {start : Nat} {t t' : Tally} {b : Bracket}
    (h : Tally.add? start t b = some t') :
    (t'.depth : Int) = t.depth + b.rise ∧
      t'.openAt = if b.char = '{' ∧ t.openAt = none ∧ t.depth = start then some b.column
        else t.openAt := by
  rw [add?] at h
  rw [Bracket.rise]
  split at h
  · next hopen =>
    cases h
    simp [hopen]
  · next hopen =>
    have hother : ¬(b.char = '{' ∧ t.openAt = none ∧ t.depth = start) := fun hc => hopen hc.1
    rw [if_neg hopen, if_neg hother]
    split at h
    · next hclose =>
      rw [if_pos hclose]
      split at h
      · cases h
      · next hdepth =>
        cases h
        exact ⟨by simp only; omega, rfl⟩
    · next hclose =>
      rw [if_neg hclose]
      split at h
      · cases h
        exact ⟨by simp, rfl⟩
      · split at h <;> cases h <;> exact ⟨by simp, rfl⟩

/-- One bracket moves the count of parentheses. -/
theorem Tally.add?_parens {start : Nat} {t t' : Tally} {b : Bracket}
    (h : Tally.add? start t b = some t') : t'.parens = t.parens + parenHeight [b] := by
  rw [add?] at h
  split at h
  · next hb =>
    cases h
    simp [parenHeight, hb]
  · split at h
    · next hb =>
      split at h
      · cases h
      · cases h
        simp [parenHeight, hb]
    · split at h
      · next hb =>
        cases h
        simp [parenHeight, hb]
      · next hopen =>
        split at h
        · next hb =>
          cases h
          simp [parenHeight, hb, Int.sub_eq_add_neg]
        · next hclose =>
          cases h
          simp [parenHeight, hopen, hclose]

/-- The depth that is counted rises by the height of the brackets. -/
theorem foldlM_add?_depth {start : Nat} {bs : List Bracket} {t t' : Tally}
    (h : bs.foldlM (Tally.add? start) t = some t') : (t'.depth : Int) = t.depth + height bs := by
  induction bs generalizing t with
  | nil =>
    cases h
    simp
  | cons b rest ih =>
    rw [List.foldlM_cons] at h
    obtain ⟨next, hnext, hrest⟩ := Option.bind_eq_some_iff.mp h
    rw [ih hrest, (Tally.add?_eq_some hnext).1, height_cons, Int.add_assoc]

/-- The count of parentheses rises by that of the brackets. -/
theorem foldlM_add?_parens {start : Nat} {bs : List Bracket} {t t' : Tally}
    (h : bs.foldlM (Tally.add? start) t = some t') : t'.parens = t.parens + parenHeight bs := by
  induction bs generalizing t with
  | nil =>
    cases h
    simp
  | cons b rest ih =>
    rw [List.foldlM_cons] at h
    obtain ⟨next, hnext, hrest⟩ := Option.bind_eq_some_iff.mp h
    rw [ih hrest, Tally.add?_parens hnext, Int.add_assoc, ← parenHeight_append, List.singleton_append]

/-- The column of an opening brace that was noted comes from one of the brackets. -/
theorem foldlM_add?_openAt {start : Nat} {bs : List Bracket} {t t' : Tally} {column : Nat}
    (h : bs.foldlM (Tally.add? start) t = some t') (hopen : t'.openAt = some column) :
    t.openAt = some column ∨ ∃ b ∈ bs, b.char = '{' ∧ b.column = column := by
  induction bs generalizing t with
  | nil =>
    cases h
    exact .inl hopen
  | cons b rest ih =>
    rw [List.foldlM_cons] at h
    obtain ⟨next, hnext, hrest⟩ := Option.bind_eq_some_iff.mp h
    rcases ih hrest with hnoted | ⟨d, hd, hchar, hcolumn⟩
    · rw [(Tally.add?_eq_some hnext).2] at hnoted
      split at hnoted
      · next hopens => exact .inr ⟨b, List.mem_cons_self, hopens.1, Option.some.inj hnoted⟩
      · exact .inl hnoted
    · exact .inr ⟨d, List.mem_cons_of_mem _ hd, hchar, hcolumn⟩

/-- An opening brace that was noted stays so. -/
theorem foldlM_add?_openAt_of_some {start : Nat} {bs : List Bracket} {t t' : Tally} {column : Nat}
    (h : bs.foldlM (Tally.add? start) t = some t') (hopen : t.openAt = some column) :
    t'.openAt = some column := by
  induction bs generalizing t with
  | nil =>
    cases h
    exact hopen
  | cons b rest ih =>
    rw [List.foldlM_cons] at h
    obtain ⟨next, hnext, hrest⟩ := Option.bind_eq_some_iff.mp h
    refine ih hrest ?_
    rw [(Tally.add?_eq_some hnext).2, hopen]
    simp

/-- As long as no opening brace was noted, the depth is no higher than at the start. -/
theorem foldlM_add?_depth_le {start : Nat} {bs : List Bracket} {t t' : Tally}
    (h : bs.foldlM (Tally.add? start) t = some t') (ht : t.openAt = none → t.depth ≤ start)
    (hopen : t'.openAt = none) : t'.depth ≤ start := by
  induction bs generalizing t with
  | nil =>
    cases h
    exact ht hopen
  | cons b rest ih =>
    rw [List.foldlM_cons] at h
    obtain ⟨next, hnext, hrest⟩ := Option.bind_eq_some_iff.mp h
    refine ih hrest fun hnone => ?_
    -- At the depth of the start, the next brace to open would have been noted.
    obtain ⟨hdepth, hnoted⟩ := Tally.add?_eq_some hnext
    rw [hnoted] at hnone
    split at hnone
    · cases hnone
    · next hother =>
      have hle := ht hnone
      by_cases hchar : b.char = '{'
      · have hne : t.depth ≠ start := fun heq => hother ⟨hchar, hnone, heq⟩
        rw [Bracket.rise_open hchar] at hdepth
        omega
      · have hrise : b.rise ≤ 0 := by
          rw [Bracket.rise, if_neg hchar]
          split <;> decide
        omega

/-! ## Readings

What is known of a reading is that it comes from the tally of the brackets of its line.
-/

/-- What a reading of a line consists of. -/
theorem Reading.of?_eq_some {lexis : Lexis} {inside : Inside} {start : Nat} {line : Line} {r : Reading}
    (h : Reading.of? lexis inside start line = some r) :
    ∃ t, tally? start (scanLine lexis inside line.text).1 = some t ∧
      r = { line, trimmed := trim line.text, startsInside := inside != .code,
            inside := (scanLine lexis inside line.text).2, start, depth := t.depth,
            parens := t.parens, openAt := t.openAt } := by
  rw [Reading.of?, Option.map_eq_some_iff] at h
  obtain ⟨t, ht, rfl⟩ := h
  exact ⟨t, ht, rfl⟩

/-- A reading is one of its line. -/
theorem Reading.line_eq {lexis : Lexis} {inside : Inside} {start : Nat} {line : Line} {r : Reading}
    (h : Reading.of? lexis inside start line = some r) : r.line = line := by
  obtain ⟨t, -, rfl⟩ := Reading.of?_eq_some h
  rfl

/-- It starts at the depth it was given. -/
theorem Reading.start_eq {lexis : Lexis} {inside : Inside} {start : Nat} {line : Line} {r : Reading}
    (h : Reading.of? lexis inside start line = some r) : r.start = start := by
  obtain ⟨t, -, rfl⟩ := Reading.of?_eq_some h
  rfl

/-- It ends inside of what the scanner does. -/
theorem Reading.inside_eq {lexis : Lexis} {inside : Inside} {start : Nat} {line : Line} {r : Reading}
    (h : Reading.of? lexis inside start line = some r) :
    r.inside = (scanLine lexis inside line.text).2 := by
  obtain ⟨t, -, rfl⟩ := Reading.of?_eq_some h
  rfl

/-- Its trimmed text is that of the line. -/
theorem Reading.trimmed_eq {lexis : Lexis} {inside : Inside} {start : Nat} {line : Line} {r : Reading}
    (h : Reading.of? lexis inside start line = some r) : r.trimmed = trim line.text := by
  obtain ⟨t, -, rfl⟩ := Reading.of?_eq_some h
  rfl

/-- The depth at the end of a line is that at its start plus the height of its brackets. -/
theorem Reading.depth_eq {lexis : Lexis} {inside : Inside} {start : Nat} {line : Line} {r : Reading}
    (h : Reading.of? lexis inside start line = some r) :
    (r.depth : Int) = start + height (scanLine lexis inside line.text).1 := by
  obtain ⟨t, ht, rfl⟩ := Reading.of?_eq_some h
  exact foldlM_add?_depth ht

/-- Its parentheses are those that the brackets of the line leave open. -/
theorem Reading.parens_eq {lexis : Lexis} {inside : Inside} {start : Nat} {line : Line} {r : Reading}
    (h : Reading.of? lexis inside start line = some r) :
    r.parens = parenHeight (scanLine lexis inside line.text).1 := by
  obtain ⟨t, ht, rfl⟩ := Reading.of?_eq_some h
  simpa using foldlM_add?_parens ht

/-- A brace that opens no lower than its line starts is noted, or comes behind one that is. -/
theorem Reading.openAt_le {lexis : Lexis} {inside : Inside} {start : Nat} {line : Line} {r : Reading}
    (h : Reading.of? lexis inside start line = some r) {front behind : List Bracket} {o : Bracket}
    (hbrackets : (scanLine lexis inside line.text).1 = front ++ o :: behind) (hchar : o.char = '{')
    (hheight : 0 ≤ height front) : ∃ column, r.openAt = some column ∧ column ≤ o.column := by
  obtain ⟨t, ht, rfl⟩ := Reading.of?_eq_some h
  have hcolumns := pairwise_column_scanLine lexis inside line.text
  rw [tally?, hbrackets, List.foldlM_append] at ht
  obtain ⟨tfront, hfront, hrest⟩ := Option.bind_eq_some_iff.mp ht
  rw [List.foldlM_cons] at hrest
  obtain ⟨topen, hopen, hbehind⟩ := Option.bind_eq_some_iff.mp hrest
  have hdepth := foldlM_add?_depth hfront
  simp only at hdepth
  -- Either one of the braces in front was noted, or the depth is still that of the start.
  cases hnoted : tfront.openAt with
  | some column =>
    rcases foldlM_add?_openAt hfront hnoted with hnone | ⟨b, hb, -, rfl⟩
    · cases hnone
    · have hkept : topen.openAt = some b.column := by
        rw [(Tally.add?_eq_some hopen).2, hnoted]
        simp
      refine ⟨b.column, foldlM_add?_openAt_of_some hbehind hkept, ?_⟩
      rw [hbrackets, List.pairwise_append] at hcolumns
      exact Nat.le_of_lt (hcolumns.2.2 b hb o List.mem_cons_self)
  | none =>
    have hle : tfront.depth ≤ start := foldlM_add?_depth_le hfront (fun _ => Nat.le_refl _) hnoted
    have hstart : tfront.depth = start := by omega
    have hkept : topen.openAt = some o.column := by
      rw [(Tally.add?_eq_some hopen).2, if_pos ⟨hchar, hnoted, hstart⟩]
    exact ⟨o.column, foldlM_add?_openAt_of_some hbehind hkept, Nat.le_refl _⟩

/-- In the column of the brace that a line is noted to open stands a brace. -/
theorem Reading.getElem?_of_openAt {lexis : Lexis} {inside : Inside} {start : Nat} {line : Line}
    {r : Reading} (h : Reading.of? lexis inside start line = some r) {column : Nat}
    (hopen : r.openAt = some column) : line.text[column]? = some '{' := by
  obtain ⟨t, ht, rfl⟩ := Reading.of?_eq_some h
  rcases foldlM_add?_openAt ht hopen with hnone | ⟨b, hb, hchar, rfl⟩
  · cases hnone
  · rw [← hchar]
    exact getElem?_of_mem_scanLine hb

/-- A line with a bracket is not blank. -/
theorem Reading.trimmed_ne_nil {lexis : Lexis} {inside : Inside} {start : Nat} {line : Line}
    {r : Reading} (h : Reading.of? lexis inside start line = some r) {o : Bracket}
    (ho : o ∈ (scanLine lexis inside line.text).1) (hchar : isBlank o.char = false) :
    r.trimmed ≠ [] := by
  obtain ⟨t, -, rfl⟩ := Reading.of?_eq_some h
  have hmem : o.char ∈ line.text := List.mem_of_getElem? (getElem?_of_mem_scanLine ho)
  intro hnil
  have hblank := trim_eq_nil_iff.mp hnil o.char hmem
  rw [hchar] at hblank
  cases hblank

end RepoScope.Outline.Braces
