import RepoScope.Proofs.Ranking

/-!
# Budgets one after the other

A cut is in the order of importance already, each path once, so ranking it again changes nothing but its length
(`inRoleOrder_rank`). All required files survive the first cut, so the second one demands as many of them as
the whole list does (`countP_isRequired_rank`). Where no path comes twice with one role, the best file for a
path is the same in every order of the files (`isBest_iff_of_nodup`), and so is the ranking.

* **`rank_budget_laws`**: two cuts are one at the smaller budget, a smaller budget keeps a front of what a
  larger one keeps, and the order of the files makes no difference.
-/

namespace RepoScope.Scope

/-! ## A cut, ranked again

A cut is a front of the ranking. It has one file for each path and is in order, so ranking it does nothing, and it
has all required files, so the second budget is held against the same number of these.
-/

/-- A cut is its own ranking. -/
theorem inRoleOrder_rank (files : List ScopedFile) (maxFiles : Nat) :
    inRoleOrder (rank files maxFiles) = rank files maxFiles := by
  have hsub := rank_sublist files maxFiles
  have hnodup : ((rank files maxFiles).map (·.path)).Nodup :=
    (isRanking_inRoleOrder files).nodup_paths.sublist (hsub.map _)
  -- Both lists are strictly in order, so it is enough that they have the same members.
  exact Sorting.eq_of_pairwise_of_mem_iff ScopedFile.standsBefore_asymm
    (pairwise_inRoleOrder hnodup) ((isRanking_inRoleOrder files).increasing.sublist hsub)
    fun f => (perm_inRoleOrder hnodup).mem_iff

/-- A list that begins with all that is wanted has all of it in its first items. -/
theorem countP_take_of_countP_le {α : Type} {p : α → Bool} {items : List α} {n : Nat}
    (hfirst : items.Pairwise fun a b => p b = true → p a = true) (hn : items.countP p ≤ n) :
    (items.take n).countP p = items.countP p := by
  induction items generalizing n with
  | nil => rw [List.take_nil]
  | cons a rest ih =>
    obtain ⟨ha, hrest⟩ := List.pairwise_cons.mp hfirst
    cases n with
    | zero => rw [List.take_zero, List.countP_nil, Nat.le_zero.mp hn]
    | succ n =>
      rw [List.take_succ_cons, List.countP_cons, List.countP_cons]
      by_cases hpa : p a = true
      · rw [List.countP_cons_of_pos hpa] at hn
        rw [ih hrest (by omega)]
      · -- Nothing wanted comes behind an item that is not.
        have hnone : rest.countP p = 0 :=
          List.countP_eq_zero.mpr fun b hb hpb => hpa (ha b hb hpb)
        rw [ih hrest (by omega)]

theorem countP_isRequired_rank (files : List ScopedFile) (maxFiles : Nat) :
    (rank files maxFiles).countP (·.role.isRequired)
      = (inRoleOrder files).countP (·.role.isRequired) :=
  countP_take_of_countP_le
    ((pairwise_precedes_inRoleOrder files).imp ScopedFile.isRequired_of_precedes)
    (Nat.le_max_right _ _)

/-- Two cuts are one cut, at the smaller budget. -/
theorem rank_rank (files : List ScopedFile) (a b : Nat) :
    rank (rank files a) b = rank files (min a b) := by
  -- Each cut takes at least the required files, and there are as many of them in both lists.
  let required := (inRoleOrder files).countP (·.role.isRequired)
  calc rank (rank files a) b
      = (rank files a).take (max b required) := by
        rw [rank, inRoleOrder_rank, countP_isRequired_rank]
    _ = (inRoleOrder files).take (min (max b required) (max a required)) := by
        rw [rank, List.take_take]
    _ = rank files (min a b) := by
        rw [rank, Nat.max_min_distrib_right, Nat.min_comm]

/-- The larger of two budgets keeps all that the smaller one keeps, in front. -/
theorem rank_isPrefix_rank {a b : Nat} (h : a ≤ b) (files : List ScopedFile) :
    rank files a <+: rank files b :=
  List.take_prefix_take_left (by omega)

/-! ## The order of the files

Where two files have one path and one role, the first of them is the best, so that the order of the files would
count. Without such pairs it does not.
-/

/-- Where no path comes twice with one role, a best file is one that no other outranks. -/
theorem isBest_iff_of_nodup {files : List ScopedFile}
    (hnodup : (files.map fun f => (f.path, f.role)).Nodup) {f : ScopedFile} :
    IsBest files f ↔ f ∈ files ∧ ∀ g ∈ files, g.path = f.path → f.role.rank ≤ g.role.rank := by
  constructor
  · intro h
    refine ⟨h.mem, fun g hg hpath => ?_⟩
    obtain ⟨front, back, rfl, hfront, hback⟩ := h
    rcases List.mem_append.mp hg with hg | hg
    · exact Nat.le_of_lt (hfront g hg hpath)
    · rcases List.mem_cons.mp hg with rfl | hg
      · exact Nat.le_refl _
      · exact hback g hg hpath
  · intro ⟨hf, hbest⟩
    obtain ⟨front, back, rfl⟩ := List.append_of_mem hf
    refine ⟨front, back, rfl, fun g hg hpath => ?_, fun g hg => hbest g (by simp [hg])⟩
    -- A file before it with its path has another role, so it is outranked strictly.
    have hne : (g.path, g.role) ≠ (f.path, f.role) := by
      rw [List.map_append, List.nodup_append] at hnodup
      exact hnodup.2.2 _ (List.mem_map_of_mem hg) _ (by simp)
    have hrole : f.role.rank ≠ g.role.rank := fun heq =>
      hne (by rw [hpath, Role.rank_injective heq])
    exact Nat.lt_of_le_of_ne (hbest g (by simp [hg]) hpath) hrole

/-- The best file of a path does not depend on the order of the files. -/
theorem isBest_perm {files files' : List ScopedFile} (hperm : files.Perm files')
    (hnodup : (files.map fun f => (f.path, f.role)).Nodup) {f : ScopedFile} :
    IsBest files f ↔ IsBest files' f := by
  have hnodup' : (files'.map fun f => (f.path, f.role)).Nodup := (hperm.map _).nodup_iff.mp hnodup
  rw [isBest_iff_of_nodup hnodup, isBest_iff_of_nodup hnodup']
  simp only [hperm.mem_iff]

/-- Nor does any cut. -/
theorem rank_perm {files files' : List ScopedFile} (hperm : files.Perm files')
    (hnodup : (files.map fun f => (f.path, f.role)).Nodup) (maxFiles : Nat) :
    rank files' maxFiles = rank files maxFiles := by
  have hranking := isRanking_inRoleOrder files
  have hranking' : IsRanking files' (inRoleOrder files) :=
    ⟨fun f => (hranking.mem_iff f).trans (isBest_perm hperm hnodup), hranking.increasing⟩
  rw [rank, rank, hranking'.eq (isRanking_inRoleOrder files')]

/-! ## The laws of budgets -/

/--
Two cuts one after the other are the cut at the smaller budget, so a second cut at the same budget changes
nothing; the smaller of two budgets keeps a front of what the larger keeps; and files of which no two share
both path and role may come in any order.
-/
theorem rank_budget_laws (files : List ScopedFile) :
    (∀ a b, rank (rank files a) b = rank files (min a b)) ∧
      (∀ a, rank (rank files a) a = rank files a) ∧
      (∀ a b, a ≤ b → rank files a <+: rank files b) ∧
      ∀ files', files.Perm files' →
        files.Pairwise (fun f g => ¬(f.path = g.path ∧ f.role = g.role)) →
        ∀ maxFiles, rank files' maxFiles = rank files maxFiles := by
  refine ⟨rank_rank files, fun a => ?_, fun a b h => rank_isPrefix_rank h files, ?_⟩
  · rw [rank_rank, Nat.min_self]
  · intro files' hperm hdistinct maxFiles
    have hnodup : (files.map fun f => (f.path, f.role)).Nodup :=
      List.pairwise_map.mpr (hdistinct.imp fun h heq => h (Prod.mk.injEq .. ▸ heq))
    exact rank_perm hperm hnodup maxFiles

/-- Three entries of which two have one path. -/
def repeatedFiles : List ScopedFile :=
  [⟨⟨"src/b.ts", 2, some "ts"⟩, .normal, .full⟩, ⟨⟨"src/a.ts", 1, some "ts"⟩, .normal, .full⟩,
    ⟨⟨"src/b.ts", 2, some "ts"⟩, .changed, .skeleton⟩]

theorem rank_budget_laws_sample :
    1 ≤ 2 ∧ rank repeatedFiles 1 <+: rank repeatedFiles 2 ∧
      repeatedFiles.Perm repeatedFiles.reverse ∧
      repeatedFiles.Pairwise (fun f g => ¬(f.path = g.path ∧ f.role = g.role)) ∧
      rank repeatedFiles.reverse 2 = rank repeatedFiles 2 ∧
      rank (rank repeatedFiles 1) 2 = rank repeatedFiles 1 ∧
      (rank repeatedFiles 2).map (fun f => (f.path, f.role))
        = [("src/b.ts", .changed), ("src/a.ts", .normal)] := by
  obtain ⟨hcompose, -, hfront, hperm⟩ := rank_budget_laws repeatedFiles
  have hreverse : repeatedFiles.Perm repeatedFiles.reverse := repeatedFiles.reverse_perm.symm
  have hdistinct : repeatedFiles.Pairwise (fun f g => ¬(f.path = g.path ∧ f.role = g.role)) := by
    decide
  exact ⟨by decide, hfront 1 2 (by decide), hreverse, hdistinct, hperm _ hreverse hdistinct 2,
    hcompose 1 2, by decide +kernel⟩

end RepoScope.Scope
