import Mathlib.Data.Nat.Find
import RepoScope.Proofs.Lines
import RepoScope.Proofs.Outline.Marks
import RepoScope.Proofs.Outline.Selections

/-!
# Lines that belong together

A line that leaves brackets open belongs together with the lines below it, up to the first that closes what
is open. What has to be closed depends on the language, so it is a property of the brackets here
(`Selection.ShowsGroup`). Only a line with a bracket can be the first to close the others
(`marksBetween_of_isBlankText`), and a line that is not blank stays in the outline with all that was kept
above it (`Selection.showsGroup_of_kept`).
-/

namespace RepoScope.Outline

/-- The brackets of the lines from `first` to `last`, if the first of them starts in code. -/
def marksBetween (lexis : Lexis) (text : List Char) (first last : Nat) : List Mark :=
  marksFrom lexis .code first (((Text.lines text).drop first).take (last + 1 - first))

/-- A blank line adds no brackets to those above it. -/
theorem marksBetween_of_isBlankText {lexis : Lexis} {text line : List Char} {first last : Nat}
    (hle : first ≤ last) (hline : (Text.lines text)[last + 1]? = some line)
    (hblank : Text.isBlankText line = true) :
    marksBetween lexis text first (last + 1) = marksBetween lexis text first last := by
  have hcount : last + 1 + 1 - first = (last + 1 - first) + 1 := by omega
  have hget : ((Text.lines text).drop first)[last + 1 - first]? = some line := by
    rw [List.getElem?_drop, ← hline]
    congr 1
    omega
  rw [marksBetween, marksBetween, hcount, List.take_add_one, hget, Option.toList_some, marksFrom_append,
    marksFrom, marksFrom, scanLine_of_isBlankText hblank]
  simp

/--
Whether a selection shows a line with all lines below it, up to the first that closes what they open, where
`Closes` says of their brackets that nothing is open.
-/
def Selection.ShowsGroup (selection : Selection) (Closes : List Mark → Prop) (lexis : Lexis)
    (text : List Char) (first : Nat) : Prop :=
  ∃ last, first ≤ last ∧ last < (Text.lines text).length ∧ Closes (marksBetween lexis text first last) ∧
    (∀ k, first ≤ k → k < last → ¬Closes (marksBetween lexis text first k)) ∧
    ∀ k line, first ≤ k → k ≤ last → (Text.lines text)[k]? = some line → ⟨k, line⟩ ∈ selection.lines

/-- Lines that were kept up to one that closes what is open are shown, up to the first that does. -/
theorem Selection.showsGroup_of_kept {selection : Selection} {Closes : List Mark → Prop}
    [DecidablePred Closes] {lexis : Lexis} {text line : List Char} {first n rows : Nat}
    (hordered : selection.IsOrdered rows) (hfirst : (Text.lines text)[first]? = some line)
    (hblank : Text.isBlankText line = false) (hn : n < ((Text.lines text).drop first).length)
    (hcloses : Closes (marksFrom lexis .code first (((Text.lines text).drop first).take (n + 1))))
    (hkept : ∀ m ≤ n, ∀ line, ((Text.lines text).drop first)[m]? = some line →
      ⟨first + m, line⟩ ∈ selection.kept) :
    selection.ShowsGroup Closes lexis text first := by
  have hcount : first + n + 1 - first = n + 1 := by omega
  rw [List.length_drop] at hn
  have hexists : ∃ k, first ≤ k ∧ Closes (marksBetween lexis text first k) :=
    ⟨first + n, Nat.le_add_right first n, by rwa [marksBetween, hcount]⟩
  have hfindle : Nat.find hexists ≤ first + n :=
    Nat.find_min' hexists ⟨Nat.le_add_right first n, by rwa [marksBetween, hcount]⟩
  obtain ⟨hfound, hcloses'⟩ := Nat.find_spec hexists
  have hopen : ∀ k, first ≤ k → k < Nat.find hexists → ¬Closes (marksBetween lexis text first k) :=
    fun k hk hlt hclosed => Nat.find_min hexists hlt ⟨hk, hclosed⟩
  generalize Nat.find hexists = found at hfound hcloses' hfindle hopen
  have hlength : found < (Text.lines text).length := by omega
  -- The first line that closes all is the first line, or else it has a bracket.
  have hsolid : Text.isBlankText (Text.lines text)[found] = false := by
    rcases Nat.lt_or_eq_of_le hfound with hlt | rfl
    · obtain ⟨above, rfl⟩ := Nat.exists_eq_add_of_le' (Nat.lt_of_le_of_lt (Nat.zero_le _) hlt)
      rw [Bool.eq_false_iff]
      intro hbare
      rw [marksBetween_of_isBlankText (Nat.le_of_lt_succ hlt) (List.getElem?_eq_getElem hlength)
        hbare] at hcloses'
      exact hopen above (Nat.le_of_lt_succ hlt) (Nat.lt_succ_self above) hcloses'
    · rw [List.getElem?_eq_getElem hlength, Option.some.injEq] at hfirst
      rw [hfirst]
      exact hblank
  have hget : ∀ k shown, first ≤ k → k ≤ found → (Text.lines text)[k]? = some shown →
      ⟨k, shown⟩ ∈ selection.kept := by
    intro k shown hk hkle hshown
    obtain ⟨m, rfl⟩ := Nat.exists_eq_add_of_le hk
    exact hkept m (by omega) shown (by rwa [List.getElem?_drop])
  have hbelow := hget found _ hfound (Nat.le_refl found) (List.getElem?_eq_getElem hlength)
  refine ⟨found, hfound, hlength, hcloses', hopen, fun k shown hk hkle hshown => ?_⟩
  exact hordered.mem_lines (hget k shown hk hkle hshown) hbelow hsolid hkle

end RepoScope.Outline
