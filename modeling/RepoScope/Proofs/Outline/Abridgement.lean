import Mathlib.Data.List.Forall2
import Mathlib.Data.List.Perm.Subperm
import RepoScope.Proofs.Outline.Indented.Run
import RepoScope.Proofs.Outline.Run

/-!
# Outlines are abridgements

The lines of an outline are lines of its text, in the order of the text and each from a line of its own,
whole or abridged (`abridged_of_select?`). So an outline has no more lines than its text, and it ends with
a line feed if and only if the text does.

* **`outline_abridges`**: all of this for every text and every extension.
-/

namespace RepoScope.Outline

open Text

/-! ## The lines of a selection

Both outliners satisfy the law of `Outliner`, so what a selection holds is known of both at once.
-/

/-- What a run over a text selects is abridged from lines of the text, in their order. -/
theorem Outliner.abridged_of_run? {σ : Type} {O : Outliner σ} {s s' : σ} {text : List Char}
    (h : O.run? s 0 (lines text) = some s') (hs : O.selection s = .empty) :
    (O.selection s').IsOrdered (lines text).length ∧
      ∀ l ∈ (O.selection s').kept, ∃ source, (lines text)[l.row]? = some source ∧
        Abridged source l.text := by
  constructor
  · have hordered := O.isOrdered_of_run? h (by rw [hs]; exact Selection.IsOrdered.empty 0)
    rwa [Nat.zero_add] at hordered
  · intro l hl
    rcases O.has_of_run? h (.inl hl) with hstart | ⟨i, source, hsource, hrow, habridged⟩
    · rw [hs] at hstart
      exact hstart.elim (fun hk => absurd hk List.not_mem_nil) fun hw => absurd hw List.not_mem_nil
    · simp only [Nat.zero_add] at hrow
      exact ⟨source, hrow ▸ hsource, habridged⟩

/-- What is selected of a text comes from its lines, in their order, and is abridged from them. -/
theorem abridged_of_select? {layout : Layout} {text : List Char} {selection : Selection}
    (h : select? layout text = some selection) :
    selection.IsOrdered (lines text).length ∧
      ∀ l ∈ selection.kept, ∃ source, (lines text)[l.row]? = some source ∧
        Abridged source l.text := by
  cases layout with
  | braces lexis =>
    obtain ⟨s, hrun, -, rfl⟩ := Braces.select?_eq_some.mp h
    rw [Braces.run?_eq_run?] at hrun
    exact Outliner.abridged_of_run? hrun rfl
  | indented lexis =>
    obtain ⟨s, hrun, -, rfl⟩ := Indented.select?_eq_some.mp h
    exact Outliner.abridged_of_run? (O := Indented.outliner lexis) hrun rfl

/-! ## The lines of an outline

A finished outline is written as a text, so to speak of its lines it has to be cut again. No line that is shown has
a line feed in it, and the last one is not blank, so cutting gives back the lines that were joined. All further
bounds are those on the list of lines.
-/

/--
The lines that a finished outline is joined from: those of the selection, or the elision mark if there are
none. Nothing is joined if there are none and the source is blank.
-/
def Selection.shown (s : Selection) (source : List Char) : List (List Char) :=
  if s.lines = [] then if isBlankText source then [] else [elision] else s.lines.map (·.text)

/-- An outline joins the lines that are shown, and ends in a line feed if its source does. -/
theorem Selection.finish_eq (s : Selection) (source : List Char) :
    s.finish source =
      if s.shown source = [] then source
      else joinLines (s.shown source) ++ if source.getLast? = some '\n' then ['\n'] else [] := by
  rw [finish, shown]
  by_cases hnil : s.lines = []
  · by_cases hblank : isBlankText source = true
    · simp [hnil, hblank]
    · simp only [hnil, hblank, List.isEmpty_nil, Bool.and_false, Bool.false_eq_true, if_false,
        if_true, List.cons_ne_nil, joinLines, List.intercalate_singleton]
      split <;> simp
  · simp only [List.isEmpty_eq_false_iff.mpr hnil, Bool.false_and, Bool.false_eq_true, if_false,
      if_neg hnil, List.map_eq_nil_iff]
    split <;> simp

/-- Nothing is shown of a blank text only. -/
theorem Selection.isBlankText_of_shown_eq_nil {s : Selection} {source : List Char}
    (h : s.shown source = []) : isBlankText source = true := by
  rw [shown] at h
  split at h
  · by_contra hblank
    rw [if_neg hblank] at h
    cases h
  · next hne => exact absurd (List.map_eq_nil_iff.mp h) hne

/-- The last line that is shown is not blank. -/
theorem Selection.exists_shown_eq_concat {s : Selection} {source : List Char}
    (hne : s.shown source ≠ []) :
    ∃ front last, s.shown source = front ++ [last] ∧ isBlankText last = false := by
  rw [shown] at hne ⊢
  split
  · next hnil =>
    rw [if_pos hnil] at hne
    split
    · next hblank =>
      rw [if_pos hblank] at hne
      exact absurd rfl hne
    · exact ⟨[], elision, rfl, by decide⟩
  · next hnil =>
    rw [lines, List.reverse_eq_nil_iff] at hnil
    have hlast : isBlankText ((s.kept.dropWhile fun l => isBlankText l.text).head hnil).text = false :=
      by simpa using List.head_dropWhile_not (fun l : Line => isBlankText l.text) hnil
    refine ⟨((s.kept.dropWhile fun l => isBlankText l.text).tail.reverse).map (·.text), _, ?_, hlast⟩
    rw [lines, ← List.map_singleton (f := fun l : Line => l.text), ← List.map_append,
      ← List.reverse_cons, List.cons_head_tail]

/-- An abridged line has no line feed that its source does not have. -/
theorem Abridged.lf_notMem {source line : List Char} (h : Abridged source line)
    (hlf : '\n' ∉ source) : '\n' ∉ line := by
  cases h with
  | whole => exact hlf
  | blank _ => exact List.not_mem_nil
  | body hfront =>
    have hfront := fun hmem => hlf (hfront.subset hmem)
    simpa [elision] using hfront
  | suite hfront =>
    have hfront := fun hmem => hlf (hfront.subset hmem)
    simpa [elision] using hfront
  | mark =>
    have hblanks := fun hmem => hlf ((List.takeWhile_prefix isBlank).subset hmem)
    simpa [elision, leadingBlanks] using hblanks

section

variable {layout : Layout} {text : List Char} {selection : Selection}

/-- No line that is shown has a line feed in it. -/
theorem lf_notMem_of_mem_shown (h : select? layout text = some selection) :
    ∀ line ∈ selection.shown text, '\n' ∉ line := by
  intro line hline
  rw [Selection.shown] at hline
  split at hline
  · split at hline
    · exact absurd hline List.not_mem_nil
    · rw [List.mem_singleton.mp hline]
      decide
  · obtain ⟨l, hl, rfl⟩ := List.mem_map.mp hline
    obtain ⟨source, hsource, habridged⟩ :=
      (abridged_of_select? h).2 l (Selection.mem_kept_of_mem_lines hl)
    exact habridged.lf_notMem (lf_notMem_of_mem_lines (List.mem_of_getElem? hsource))

/-- Each line of an outline comes from a line of the text, one from below the other. -/
theorem exists_rows_of_select? (h : select? layout text = some selection) :
    ∃ rows : List Nat, rows.Pairwise (· < ·) ∧
      List.Forall₂ (fun row line => ∃ source, (lines text)[row]? = some source ∧
        (Abridged source line ∨ selection.lines = [] ∧ line = elision)) rows
        (selection.shown text) := by
  obtain ⟨hordered, habridged⟩ := abridged_of_select? h
  rw [Selection.shown]
  split
  · next hnil =>
    split
    · exact ⟨[], .nil, .nil⟩
    · next hblank =>
      -- The mark that stands for everything may come from any line, say from the first.
      have hne : text ≠ [] := fun hempty => hblank (by rw [hempty]; rfl)
      obtain ⟨first, rest, hlines⟩ := List.exists_cons_of_ne_nil (lines_ne_nil hne)
      exact ⟨[0], List.pairwise_singleton _ _,
        .cons ⟨first, by rw [hlines]; rfl, .inr ⟨hnil, rfl⟩⟩ .nil⟩
  · refine ⟨selection.lines.map (·.row), List.pairwise_map.mpr hordered.pairwise_lines, ?_⟩
    rw [List.forall₂_map_left_iff, List.forall₂_map_right_iff, List.forall₂_same]
    intro l hl
    obtain ⟨source, hsource, hl⟩ := habridged l (Selection.mem_kept_of_mem_lines hl)
    exact ⟨source, hsource, .inl hl⟩

/-- Numbers that grow and stay below a bound are no more than it. -/
theorem length_le_of_pairwise_lt {rows : List Nat} {n : Nat} (h : rows.Pairwise (· < ·))
    (hlt : ∀ row ∈ rows, row < n) : rows.length ≤ n := by
  have hnodup : rows.Nodup := h.imp Nat.ne_of_lt
  have hsubset : rows ⊆ List.range n := fun row hrow => List.mem_range.mpr (hlt row hrow)
  simpa using (hnodup.subperm hsubset).length_le

/-- No more lines are shown than the text has. -/
theorem length_shown_le (h : select? layout text = some selection) :
    (selection.shown text).length ≤ (lines text).length := by
  obtain ⟨rows, hpairwise, hrows⟩ := exists_rows_of_select? h
  rw [← hrows.length_eq]
  refine length_le_of_pairwise_lt hpairwise fun row hrow => ?_
  obtain ⟨i, hi, rfl⟩ := List.getElem_of_mem hrow
  obtain ⟨source, hsource, -⟩ := hrows.get hi (hrows.length_eq ▸ hi)
  exact (List.getElem?_eq_some_iff.mp hsource).1

/-- An outline has no more lines than its text. -/
theorem length_lines_finish_le (h : select? layout text = some selection) :
    (lines (selection.finish text)).length ≤ (lines text).length := by
  rw [Selection.finish_eq]
  split
  · exact Nat.le_refl _
  · next hne =>
    obtain ⟨hplain, hlf⟩ := length_lines_joinLines_le hne (lf_notMem_of_mem_shown h)
    split
    · exact Nat.le_trans hlf (length_shown_le h)
    · rw [List.append_nil]
      exact Nat.le_trans hplain (length_shown_le h)

/-- An outline ends with a line feed exactly if its text does. -/
theorem getLast?_finish (h : select? layout text = some selection) :
    (selection.finish text).getLast? = some '\n' ↔ text.getLast? = some '\n' := by
  rw [Selection.finish_eq]
  split
  · rfl
  · next hne =>
    split
    · next hends => simp [hends]
    · next hends =>
      -- Without a line feed behind it, the last line ends with a character of its own.
      obtain ⟨front, last, hshown, hlast⟩ := Selection.exists_shown_eq_concat hne
      have hlastne : last ≠ [] := fun hnil => by
        rw [hnil] at hlast
        cases hlast
      have hlf : '\n' ∉ last := lf_notMem_of_mem_shown h last (by rw [hshown]; simp)
      rw [List.append_nil, hshown, getLast?_joinLines front hlastne]
      exact iff_of_false (fun hlf' => hlf (List.mem_of_getLast? hlf')) hends

end

/-- An outline is finished from the selection of the layout that the extension stands for. -/
theorem outline?_eq_some {text out : List Char} {extension : Option String} :
    outline? text extension = some out ↔
      ∃ layout selection, extension.bind layout? = some layout ∧
        select? layout text = some selection ∧ selection.finish text = out := by
  simp only [outline?, Option.bind_eq_bind, Option.bind_eq_some_iff, Option.some.injEq]
  constructor
  · rintro ⟨name, hname, layout, hlayout, selection, hselect, hfinish⟩
    exact ⟨layout, selection, ⟨name, hname, hlayout⟩, hselect, hfinish⟩
  · rintro ⟨layout, selection, ⟨name, hname, hlayout⟩, hselect, hfinish⟩
    exact ⟨name, hname, layout, hlayout, selection, hselect, hfinish⟩

/-- The same where the layout is known. -/
theorem outline?_eq_some_iff {layout : Layout} {text out : List Char} {extension : String}
    (hlayout : layout? extension = some layout) :
    outline? text (some extension) = some out ↔
      ∃ selection, select? layout text = some selection ∧ selection.finish text = out := by
  rw [outline?_eq_some]
  constructor
  · rintro ⟨layout', selection, hlayout', hselect⟩
    have heq : layout? extension = some layout' := hlayout'
    rw [hlayout, Option.some.injEq] at heq
    subst heq
    exact ⟨selection, hselect⟩
  · rintro ⟨selection, hselect⟩
    exact ⟨layout, selection, hlayout, hselect⟩

/--
An outline is joined from lines that are abridged from lines of its text, one from below the other; it has no
more lines than its text, and ends with a line feed if and only if the text does.
-/
theorem outline_abridges (text : List Char) (extension : Option String) :
    (∀ out, outline? text extension = some out →
      ∃ layout selection, extension.bind layout? = some layout ∧
        select? layout text = some selection ∧
        (out =
          if selection.shown text = [] then text
          else joinLines (selection.shown text) ++
            if text.getLast? = some '\n' then ['\n'] else []) ∧
        (selection.shown text = [] → isBlankText text = true) ∧
        ∃ rows : List Nat, rows.Pairwise (· < ·) ∧
          List.Forall₂ (fun row line => ∃ source, (lines text)[row]? = some source ∧
            (Abridged source line ∨ selection.lines = [] ∧ line = elision)) rows
            (selection.shown text)) ∧
    (lines (outline text extension)).length ≤ (lines text).length ∧
    ((outline text extension).getLast? = some '\n' ↔ text.getLast? = some '\n') := by
  constructor
  · intro out hout
    obtain ⟨layout, selection, hlayout, hselect, rfl⟩ := outline?_eq_some.mp hout
    exact ⟨layout, selection, hlayout, hselect, Selection.finish_eq _ _,
      Selection.isBlankText_of_shown_eq_nil, exists_rows_of_select? hselect⟩
  · rw [outline]
    cases hout : outline? text extension with
    | none => exact ⟨Nat.le_refl _, Iff.rfl⟩
    | some out =>
      obtain ⟨layout, selection, -, hselect, rfl⟩ := outline?_eq_some.mp hout
      exact ⟨length_lines_finish_le hselect, getLast?_finish hselect⟩

/-- A function with a comment on it, a blank line, and a value on a line of its own. -/
def abridgedText : List Char :=
  "// Runs.\nexport function f() \x7b\n  run();\n\x7d\n\nexport const x =\n  1;\n".toList

/-- The comment and the blank line are shown, and of the function and the value the first lines. -/
theorem outline_abridges_sample :
    ∃ layout selection, (some "ts").bind layout? = some layout ∧
      select? layout abridgedText = some selection ∧
      "// Runs.\nexport function f() \x7b ... \x7d\n\nexport const x =\n  ...\n".toList =
        (if selection.shown abridgedText = [] then abridgedText
        else joinLines (selection.shown abridgedText) ++
          if abridgedText.getLast? = some '\n' then ['\n'] else []) ∧
      (selection.shown abridgedText = [] → isBlankText abridgedText = true) ∧
      ∃ rows : List Nat, rows.Pairwise (· < ·) ∧
        List.Forall₂ (fun row line => ∃ source, (lines abridgedText)[row]? = some source ∧
          (Abridged source line ∨ selection.lines = [] ∧ line = elision)) rows
          (selection.shown abridgedText) :=
  (outline_abridges abridgedText (some "ts")).1 _ (by decide +kernel)

end RepoScope.Outline
