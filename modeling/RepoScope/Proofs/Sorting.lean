import RepoScope.Sorting

/-!
# Laws of sorting

The laws of the core library's merge sort, for `Sorting.sorted`: what a sorted list holds, in which
order, and that sorting commutes with a change of the items that the order does not see. Items that may
stand either way keep their order (`filter_sorted`), so the first one of a key stays the first
(`find?_sorted`). A list that is strictly in order is determined by its members
(`eq_of_pairwise_of_mem_iff`).
-/

namespace RepoScope.Sorting

variable {α β : Type}

theorem perm_sorted (le : α → α → Bool) (items : List α) : (sorted le items).Perm items := by
  rw [sorted_eq_mergeSort]
  exact List.mergeSort_perm items le

@[simp] theorem mem_sorted {le : α → α → Bool} {items : List α} {a : α} :
    a ∈ sorted le items ↔ a ∈ items :=
  (perm_sorted le items).mem_iff

theorem pairwise_sorted {le : α → α → Bool} (trans : ∀ a b c, le a b → le b c → le a c)
    (total : ∀ a b, le a b || le b a) (items : List α) :
    (sorted le items).Pairwise fun a b => le a b = true := by
  rw [sorted_eq_mergeSort]
  exact List.pairwise_mergeSort trans total items

/-- A change of the items that keeps their order can be made before or after sorting. -/
theorem map_sorted {le : α → α → Bool} {le' : β → β → Bool} {f : α → β}
    (h : ∀ a b, le a b = le' (f a) (f b)) (items : List α) :
    (sorted le items).map f = sorted le' (items.map f) := by
  rw [sorted_eq_mergeSort, sorted_eq_mergeSort]
  exact List.map_mergeSort fun a _ b _ => h a b

/-- Items of which each may stand before each other keep the order they have. -/
theorem filter_sorted {le : α → α → Bool} (trans : ∀ a b c, le a b → le b c → le a c)
    (total : ∀ a b, le a b || le b a) {p : α → Bool} (hp : ∀ a b, p a → p b → le a b)
    (items : List α) : (sorted le items).filter p = items.filter p := by
  have hordered : (items.filter p).Pairwise fun a b => le a b = true :=
    List.pairwise_of_forall_mem_list fun a ha b hb =>
      hp a b (List.mem_filter.mp ha).2 (List.mem_filter.mp hb).2
  have hsub : (items.filter p).Sublist (sorted le items) := by
    rw [sorted_eq_mergeSort]
    exact List.sublist_mergeSort trans total hordered List.filter_sublist
  have hsub' : (items.filter p).Sublist ((sorted le items).filter p) := by
    simpa using hsub.filter p
  exact (hsub'.eq_of_length ((perm_sorted le items).filter p).length_eq.symm).symm

/-! ## In the order of a key

Most lists here are sorted by a text of each item, such as a path. The order of texts is total and transitive, so
all laws apply.
-/

theorem trans_key (key : α → String) (a b c : α) (hab : decide (key a ≤ key b))
    (hbc : decide (key b ≤ key c)) : decide (key a ≤ key c) :=
  decide_eq_true (String.le_trans (of_decide_eq_true hab) (of_decide_eq_true hbc))

theorem total_key (key : α → String) (a b : α) :
    decide (key a ≤ key b) || decide (key b ≤ key a) := by
  simpa using String.le_total (key a) (key b)

/-- Sorting by a key puts the items in its order. -/
theorem pairwise_le_sorted (key : α → String) (items : List α) :
    (sorted (fun a b => decide (key a ≤ key b)) items).Pairwise fun a b => key a ≤ key b :=
  (pairwise_sorted (trans_key key) (total_key key) items).imp of_decide_eq_true

/-- Sorting by a key leaves the first item of each key the first one. -/
theorem find?_sorted (key : α → String) (items : List α) (k : String) :
    (sorted (fun a b => decide (key a ≤ key b)) items).find? (key · == k)
      = items.find? (key · == k) := by
  have hsame : ∀ a b, (key a == k) = true → (key b == k) = true → decide (key a ≤ key b) = true := by
    intro a b ha hb
    rw [eq_of_beq ha, eq_of_beq hb]
    exact decide_eq_true (String.le_refl k)
  rw [← List.head?_filter, ← List.head?_filter, filter_sorted (trans_key key) (total_key key) hsame]

/-- Sorting by a key without repetitions puts the items strictly in its order. -/
theorem pairwise_lt_sorted {key : α → String} {items : List α} (h : (items.map key).Nodup) :
    (sorted (fun a b => decide (key a ≤ key b)) items).Pairwise fun a b => key a < key b := by
  have hne : (sorted (fun a b => decide (key a ≤ key b)) items).Pairwise fun a b => key a ≠ key b :=
    List.pairwise_map.mp (((perm_sorted _ items).map key).nodup_iff.mpr h)
  exact ((pairwise_le_sorted key items).and hne).imp fun hab => Std.lt_of_le_of_ne hab.1 hab.2

/-- Two lists in a strict order are equal if they have the same members. -/
theorem eq_of_pairwise_of_mem_iff {r : α → α → Prop} (asymm : ∀ a b, r a b → ¬r b a)
    {xs ys : List α} (hx : xs.Pairwise r) (hy : ys.Pairwise r) (h : ∀ a, a ∈ xs ↔ a ∈ ys) :
    xs = ys := by
  -- Strictly in order, no member comes twice, so the lists are permutations of each other.
  have nodup : ∀ {zs : List α}, zs.Pairwise r → zs.Nodup := by
    intro zs hz
    refine hz.imp fun {a b} hab heq => ?_
    subst heq
    exact asymm a a hab hab
  have hperm := (List.perm_ext_iff_of_nodup (nodup hx) (nodup hy)).mpr h
  exact hperm.eq_of_pairwise (fun a b _ _ hab hba => absurd hba (asymm a b hab)) hx hy

/-- Two lists strictly in the order of a key are equal if they have the same members. -/
theorem eq_of_mem_iff {key : α → String} {xs ys : List α}
    (hx : xs.Pairwise fun a b => key a < key b) (hy : ys.Pairwise fun a b => key a < key b)
    (h : ∀ a, a ∈ xs ↔ a ∈ ys) : xs = ys :=
  eq_of_pairwise_of_mem_iff (fun _ _ hab => String.lt_asymm hab) hx hy h

/-- A member that no other stands before is the first one. -/
theorem exists_eq_cons_of_pairwise {r : α → α → Prop} {items : List α} {a : α}
    (horder : items.Pairwise r) (ha : a ∈ items) (hfirst : ∀ b ∈ items, ¬r b a) :
    ∃ rest, items = a :: rest := by
  cases items with
  | nil => exact absurd ha List.not_mem_nil
  | cons b rest =>
    rcases List.mem_cons.mp ha with rfl | ha
    · exact ⟨rest, rfl⟩
    · exact absurd ((List.pairwise_cons.mp horder).1 a ha) (hfirst b List.mem_cons_self)

/-! ## Strings in ascending order

Strings are sorted and then kept once each, which leaves a list in strictly ascending order.
-/

theorem eraseReps_loop_eq_append (s : String) (strings passed : List String) :
    List.eraseRepsBy.loop (· == ·) s strings passed
      = passed.reverse ++ List.eraseReps (s :: strings) := by
  rw [List.eraseReps, List.eraseRepsBy]
  induction strings generalizing s passed with
  | nil => simp [List.eraseRepsBy.loop]
  | cons t rest ih =>
    rw [List.eraseRepsBy.loop, List.eraseRepsBy.loop]
    split
    · exact ih s passed
    · rw [ih t (s :: passed), ih t [s]]
      simp

/-- Of equal neighbours, one is kept. -/
theorem eraseReps_cons_cons (s t : String) (rest : List String) :
    (s :: t :: rest).eraseReps
      = if s = t then (t :: rest).eraseReps else s :: (t :: rest).eraseReps := by
  have hloop : (s :: t :: rest).eraseReps = List.eraseRepsBy.loop (· == ·) s (t :: rest) [] := rfl
  rw [hloop, List.eraseRepsBy.loop]
  by_cases h : s = t
  · subst h
    simp [eraseReps_loop_eq_append]
  · have hne : (s == t) = false := by simpa using h
    simp [h, hne, eraseReps_loop_eq_append]

theorem mem_eraseReps {s : String} {strings : List String} :
    s ∈ strings.eraseReps ↔ s ∈ strings := by
  induction strings with
  | nil => exact Iff.rfl
  | cons first rest ih =>
    cases rest with
    | nil => exact Iff.rfl
    | cons next rest =>
      rw [eraseReps_cons_cons]
      split
      · next heq =>
        subst heq
        rw [ih, List.mem_cons (b := first) (l := first :: rest), iff_or_self]
        exact fun heq => heq ▸ List.mem_cons_self
      · rw [List.mem_cons, ih, List.mem_cons (a := s) (b := first)]

/-- Without repetitions, strings in order are strictly in order. -/
theorem pairwise_eraseReps {strings : List String} (h : strings.Pairwise (· ≤ ·)) :
    strings.eraseReps.Pairwise (· < ·) := by
  induction strings with
  | nil => exact List.Pairwise.nil
  | cons first rest ih =>
    obtain ⟨hfirst, hrest⟩ := List.pairwise_cons.mp h
    cases rest with
    | nil => exact List.pairwise_singleton _ _
    | cons next rest =>
      rw [eraseReps_cons_cons]
      split
      · exact ih hrest
      · next hne =>
        refine List.pairwise_cons.mpr ⟨fun s hs => ?_, ih hrest⟩
        have hnext : first < next := Std.lt_of_le_of_ne (hfirst next List.mem_cons_self) hne
        -- What is left begins with `next`, and nothing comes before it.
        rcases List.mem_cons.mp (mem_eraseReps.mp hs) with rfl | hs
        · exact hnext
        · exact Std.lt_of_lt_of_le hnext ((List.pairwise_cons.mp hrest).1 s hs)

theorem mem_ascending {s : String} {strings : List String} :
    s ∈ ascending strings ↔ s ∈ strings := by
  rw [ascending, mem_eraseReps, mem_sorted]

theorem pairwise_ascending (strings : List String) : (ascending strings).Pairwise (· < ·) :=
  pairwise_eraseReps (pairwise_le_sorted id strings)

end RepoScope.Sorting
