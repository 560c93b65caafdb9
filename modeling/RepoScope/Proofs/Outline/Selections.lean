import RepoScope.Outline.Selection

/-!
# What a selection gains from a line

An outliner goes through the lines of a text, and each of them does one of a few things to the selection
(`Selection.Update`). From these few it follows at once for every outliner that the lines of a selection
come from the lines that were read (`Update.has`), that what is kept stays kept (`Update.kept`), and that
no line stands twice or before an earlier one (`Update.isOrdered`).
-/

namespace RepoScope.Outline.Selection

/-! ## Lines that are kept or wait

Whether a line is kept or waits makes no difference to where it comes from, so what is shown of a selection's
origin is stated for both together (`Has`).
-/

/-- Whether a line is kept or waits. -/
def Has (s : Selection) (l : Line) : Prop := l ∈ s.kept ∨ l ∈ s.waiting

/-- Keeping a line selects nothing else. -/
theorem has_keep {s : Selection} {line l : Line} (h : (s.keep line).Has l) : l = line ∨ s.Has l := by
  rcases h with h | h
  · rcases List.mem_cons.mp h with h | h
    · exact .inl h
    · exact .inr ((List.mem_append.mp h).symm)
  · exact absurd h List.not_mem_nil

/-- Letting a line wait selects nothing else. -/
theorem has_hold {s : Selection} {line l : Line} (h : (s.hold line).Has l) : l = line ∨ s.Has l := by
  rcases h with h | h
  · exact .inr (.inl h)
  · exact (List.mem_cons.mp h).imp_right .inr

/-- Dropping what waits selects nothing. -/
theorem has_discard {s : Selection} {l : Line} (h : s.discard.Has l) : s.Has l :=
  .inl (h.resolve_right List.not_mem_nil)

/-- A blank line drops what waits, or else is kept after what was kept before. -/
theorem blank_eq (s : Selection) (row : Nat) :
    s.blank row = s.discard ∨ s.blank row = s.discard.keep ⟨row, []⟩ := by
  rw [blank]
  split
  · split
    · exact .inl rfl
    · next hkept _ =>
      right
      rw [keep, discard, hkept]
      rfl
  · exact .inl rfl

/-- What is kept stays kept when a line is. -/
theorem mem_kept_keep {s : Selection} {line l : Line} (h : l ∈ s.kept) : l ∈ (s.keep line).kept :=
  List.mem_cons_of_mem _ (List.mem_append_right _ h)

/-- A line that is kept takes with it what waits. -/
theorem mem_kept_keep_of_has {s : Selection} {line l : Line} (h : s.Has l) : l ∈ (s.keep line).kept :=
  List.mem_cons_of_mem _ (List.mem_append.mpr h.symm)

/-- The lines of an outline have been kept. -/
theorem mem_kept_of_mem_lines {s : Selection} {l : Line} (h : l ∈ s.lines) : l ∈ s.kept :=
  (List.dropWhile_sublist _).subset (List.mem_reverse.mp h)

/-- Of the lines that are kept, an outline loses none but blank ones. -/
theorem mem_lines_of_mem_kept {s : Selection} {l : Line} (h : l ∈ s.kept)
    (hblank : Text.isBlankText l.text = false) : l ∈ s.lines := by
  rw [lines, List.mem_reverse]
  generalize s.kept = kept at h
  -- Blank lines are dropped from the newest on, up to the first that is not blank.
  induction kept with
  | nil => exact h
  | cons first rest ih =>
    rw [List.dropWhile_cons]
    split
    · next hfirst =>
      rcases List.mem_cons.mp h with rfl | h
      · rw [hblank] at hfirst
        cases hfirst
      · exact ih h
    · exact h

/-! ## One line

A line can leave a selection as it is, drop what waits, be kept with what waits or without it, or wait itself; an
outliner does nothing else to a selection. The cases of `Update` carry which lines may be shown, so that the same
lemmas serve outliners that abridge in different ways.
-/

/-- What a line can do to a selection, where `Shows` says what may be shown of the line. -/
inductive Update (Shows : Line → Prop) (s : Selection) : Selection → Prop
  | none : Update Shows s s
  | discard : Update Shows s s.discard
  | keep {line : Line} (h : Shows line) : Update Shows s (s.keep line)
  | keepAlone {line : Line} (h : Shows line) : Update Shows s (s.discard.keep line)
  | hold {line : Line} (h : Shows line) : Update Shows s (s.hold line)

namespace Update

variable {Shows : Line → Prop} {s s' : Selection}

/-- A blank line is an update that may show it. -/
theorem blank {row : Nat} (h : Shows ⟨row, []⟩) : Update Shows s (s.blank row) := by
  rcases s.blank_eq row with heq | heq
  · rw [heq]
    exact .discard
  · rw [heq]
    exact .keepAlone h

/-- What may be shown can be given more widely. -/
theorem mono {Shows' : Line → Prop} (h : Update Shows s s') (hshows : ∀ l, Shows l → Shows' l) :
    Update Shows' s s' := by
  cases h with
  | none => exact .none
  | discard => exact .discard
  | keep h => exact .keep (hshows _ h)
  | keepAlone h => exact .keepAlone (hshows _ h)
  | hold h => exact .hold (hshows _ h)

/-- What is selected behind a line was selected before, or is shown of the line. -/
theorem has (h : Update Shows s s') {l : Line} (hl : s'.Has l) : s.Has l ∨ Shows l := by
  have hshows : ∀ {line : Line}, Shows line → (l = line ∨ s.Has l) → s.Has l ∨ Shows l := by
    intro line hline hl
    rcases hl with rfl | hl
    · exact .inr hline
    · exact .inl hl
  cases h with
  | none => exact .inl hl
  | discard => exact .inl (has_discard hl)
  | keep h => exact hshows h (has_keep hl)
  | keepAlone h => exact hshows h ((has_keep hl).imp_right has_discard)
  | hold h => exact hshows h (has_hold hl)

/-- What is kept stays kept. -/
theorem kept (h : Update Shows s s') {l : Line} (hl : l ∈ s.kept) : l ∈ s'.kept := by
  cases h with
  | none => exact hl
  | discard => exact hl
  | keep _ => exact mem_kept_keep hl
  | keepAlone _ => exact mem_kept_keep (s := s.discard) hl
  | hold _ => exact hl

end Update

/-! ## The order of the lines

Lines stand newest first while a text is read, so the order is kept by a line with a higher number than all before.
It is that of the source once the lines of the outline are put the right way around (`pairwise_lines`).
-/

/-- Whether all lines come from the source lines before `row`, none of them twice and the newest first. -/
structure IsOrdered (s : Selection) (row : Nat) : Prop where
  pairwise : (s.waiting ++ s.kept).Pairwise fun a b => b.row < a.row
  row_lt : ∀ l ∈ s.waiting ++ s.kept, l.row < row

namespace IsOrdered

variable {s s' : Selection} {row : Nat}

theorem empty (row : Nat) : Selection.empty.IsOrdered row :=
  ⟨List.Pairwise.nil, fun _ h => absurd h List.not_mem_nil⟩

/-- An order stays one for later lines. -/
theorem mono (h : s.IsOrdered row) {row' : Nat} (hle : row ≤ row') : s.IsOrdered row' :=
  ⟨h.pairwise, fun l hl => Nat.lt_of_lt_of_le (h.row_lt l hl) hle⟩

/-- Dropping what waits keeps the order. -/
theorem discard (h : s.IsOrdered row) : s.discard.IsOrdered row :=
  ⟨h.pairwise.sublist (List.sublist_append_right _ _),
    fun l hl => h.row_lt l (List.mem_append_right _ hl)⟩

/-- A newer line may come before all others. -/
theorem cons (h : s.IsOrdered row) {line : Line} (hline : line.row = row) :
    (line :: (s.waiting ++ s.kept)).Pairwise (fun a b => b.row < a.row) ∧
      ∀ l ∈ line :: (s.waiting ++ s.kept), l.row < row + 1 := by
  refine ⟨List.pairwise_cons.mpr ⟨fun l hl => hline ▸ h.row_lt l hl, h.pairwise⟩, fun l hl => ?_⟩
  rcases List.mem_cons.mp hl with rfl | hl
  · omega
  · exact Nat.lt_succ_of_lt (h.row_lt l hl)

/-- A line that is read next may be kept. -/
theorem keep (h : s.IsOrdered row) {line : Line} (hline : line.row = row) :
    (s.keep line).IsOrdered (row + 1) :=
  ⟨(h.cons hline).1, (h.cons hline).2⟩

/-- A line that is read next may wait. -/
theorem hold (h : s.IsOrdered row) {line : Line} (hline : line.row = row) :
    (s.hold line).IsOrdered (row + 1) :=
  ⟨(h.cons hline).1, (h.cons hline).2⟩

/-- The lines of an outline stand in the order of the source, each source line at most once. -/
theorem pairwise_lines (h : s.IsOrdered row) : s.lines.Pairwise fun a b => a.row < b.row := by
  rw [lines, List.pairwise_reverse]
  exact h.discard.pairwise.sublist (List.dropWhile_sublist _)

/-- A line stays in an outline if a line below it does that is not blank. -/
theorem mem_lines (h : s.IsOrdered row) {l below : Line} (hl : l ∈ s.kept) (hbelow : below ∈ s.kept)
    (hblank : Text.isBlankText below.text = false) (hrow : l.row ≤ below.row) : l ∈ s.lines := by
  have hpairwise : s.kept.Pairwise fun a b => b.row < a.row := h.discard.pairwise
  rw [lines, List.mem_reverse]
  generalize s.kept = kept at hl hbelow hpairwise
  induction kept with
  | nil => exact hl
  | cons first rest ih =>
    obtain ⟨hfirst, hrest⟩ := List.pairwise_cons.mp hpairwise
    rw [List.dropWhile_cons]
    split
    · next hdropped =>
      rcases List.mem_cons.mp hbelow with rfl | hbehind
      · rw [hblank] at hdropped
        cases hdropped
      · rcases List.mem_cons.mp hl with rfl | hl
        · have := hfirst below hbehind
          omega
        · exact ih hl hbehind hrest
    · exact hl

end IsOrdered

/-- A line that is read next keeps the order. -/
theorem Update.isOrdered {Shows : Line → Prop} {s s' : Selection} {row : Nat} (h : Update Shows s s')
    (hrow : ∀ l, Shows l → l.row = row) (hs : s.IsOrdered row) : s'.IsOrdered (row + 1) := by
  cases h with
  | none => exact hs.mono (Nat.le_succ row)
  | discard => exact hs.discard.mono (Nat.le_succ row)
  | keep h => exact hs.keep (hrow _ h)
  | keepAlone h => exact hs.discard.keep (hrow _ h)
  | hold h => exact hs.hold (hrow _ h)

end RepoScope.Outline.Selection
