/-!
# Sorting

Lists in the order of a test that says which of two items may stand first. Items that may stand either way
keep the order they have. `sorted_eq_mergeSort` says that this is the merge sort of the core library, whose
laws thus hold here too; the definitions below are bounded by lengths of lists, so that closed instances can be
computed in a proof.
-/

namespace RepoScope.Sorting

variable {α : Type}

/-- Two lists in order as one. Of items that may stand either way, those of the first list come first. -/
def merge (le : α → α → Bool) : List α → List α → List α
  | [], ys => ys
  | x :: xs, [] => x :: xs
  | x :: xs, y :: ys =>
    if le x y then x :: merge le xs (y :: ys) else y :: merge le (x :: xs) ys
  termination_by xs ys => xs.length + ys.length

/-- The items of a list in order. -/
def sorted (le : α → α → Bool) (items : List α) : List α :=
  let half := (items.length + 1) / 2
  if 2 ≤ items.length then
    merge le (sorted le (items.take half)) (sorted le (items.drop half))
  else items
  termination_by items.length

/-- Strings in ascending order, each once. -/
def ascending (strings : List String) : List String :=
  (sorted (· ≤ ·) strings).eraseReps

theorem merge_eq (le : α → α → Bool) (xs ys : List α) : merge le xs ys = xs.merge ys le := by
  fun_induction merge le xs ys with
  | case1 ys => simp
  | case2 x xs => simp
  | case3 x xs y ys h ih => simp [h, ih]
  | case4 x xs y ys h ih => simp [h, ih]

/-- The order is that of the merge sort of the core library. -/
theorem sorted_eq_mergeSort (le : α → α → Bool) (items : List α) :
    sorted le items = items.mergeSort le := by
  fun_induction sorted le items with
  | case1 items half h first second =>
    obtain ⟨x, y, rest, rfl⟩ : ∃ x y rest, items = x :: y :: rest := by
      match items, h with
      | x :: y :: rest, _ => exact ⟨x, y, rest, rfl⟩
    rw [first, second, merge_eq, List.mergeSort]
    simp only [List.MergeSort.Internal.splitInTwo_fst, List.MergeSort.Internal.splitInTwo_snd]
    rfl
  | case2 items h =>
    match items, h with
    | [], _ => simp
    | [x], _ => simp
    | x :: y :: rest, h => simp at h

end RepoScope.Sorting
