import Mathlib.Data.List.Induction
import Mathlib.Data.List.Nodup
import RepoScope.Proofs.Budget

/-!
# The ranking behind the budget

Of the files with one path, the ranking keeps the first of those that have the most important role (`IsBest`).
This is what the best files so far are after each file that is taken in (`mem_bestOfEachPath_iff`, by the step
`isBest_concat`). In the order of importance they are one list and no other (`IsRanking.eq`), of which the
budget takes the front.

* **`rank_eq_take_ranking`**: what is kept is the front of the ranking, as long as the budget or the required
  files demand.
-/

namespace RepoScope.Scope

/-! ## The best file for a path

The best file of a path is said by position: it has the most important role of all with its path, and is the first
of these. One more file at the end of the list takes over only if its role is more important (`isBest_concat`).
-/

/-- Whether a file is the first of those that have the most important role for its path. -/
def IsBest (files : List ScopedFile) (f : ScopedFile) : Prop :=
  ∃ front back, files = front ++ f :: back ∧
    (∀ g ∈ front, g.path = f.path → f.role.rank < g.role.rank) ∧
    ∀ g ∈ back, g.path = f.path → f.role.rank ≤ g.role.rank

theorem ScopedFile.outranks_eq_false_iff {a b : ScopedFile} :
    a.outranks b = false ↔ (a.path = b.path → b.role.rank ≤ a.role.rank) := by
  simp [outranks]

theorem IsBest.mem {files : List ScopedFile} {f : ScopedFile} (h : IsBest files f) : f ∈ files := by
  obtain ⟨front, back, rfl, -⟩ := h
  simp

/--
One more file is the best one if it has a better role than all before it, and else changes only what it
outranks.
-/
theorem isBest_concat {files : List ScopedFile} {x f : ScopedFile} :
    IsBest (files ++ [x]) f ↔
      IsBest files f ∧ x.outranks f = false ∨
        f = x ∧ ∀ g ∈ files, g.path = x.path → x.role.rank < g.role.rank := by
  rw [ScopedFile.outranks_eq_false_iff]
  constructor
  · rintro ⟨front, back, hfiles, hfront, hback⟩
    -- Nothing stands behind the best file, and it is the new one, or the new one is the last of those behind
    -- it.
    rcases List.eq_nil_or_concat back with rfl | ⟨back, y, rfl⟩
    · obtain ⟨rfl, hx⟩ := List.append_inj' hfiles rfl
      obtain rfl : x = f := by simpa using hx
      exact .inr ⟨rfl, hfront⟩
    · have hsplit : files ++ [x] = (front ++ f :: back) ++ [y] := by simpa using hfiles
      obtain ⟨rfl, hx⟩ := List.append_inj' hsplit rfl
      obtain rfl : x = y := by simpa using hx
      refine .inl ⟨⟨front, back, rfl, hfront, fun g hg => hback g (by simp [hg])⟩, ?_⟩
      exact hback x (by simp)
  · rintro (⟨⟨front, back, rfl, hfront, hback⟩, hx⟩ | ⟨rfl, hfiles⟩)
    · refine ⟨front, back ++ [x], by simp, hfront, fun g hg => ?_⟩
      rcases List.mem_append.mp hg with hg | hg
      · exact hback g hg
      · rw [List.mem_singleton.mp hg]
        exact hx
    · exact ⟨files, [], rfl, hfiles, fun g hg => absurd hg List.not_mem_nil⟩

/-! ## The best files so far

The fold keeps one file for each path, in the place where the path came first, and this is the best of its path up
to there. It is shown for a list that grows at its end.
-/

theorem map_path_keepBest (best : List ScopedFile) (x : ScopedFile) :
    (keepBest best x).map (·.path)
      = if best.any (·.path == x.path) then best.map (·.path) else best.map (·.path) ++ [x.path] := by
  rw [keepBest]
  split
  · rw [List.map_map]
    refine List.map_congr_left fun other _ => ?_
    simp only [Function.comp_apply]
    split
    · next h => exact eq_of_beq (Bool.and_eq_true_iff.mp h).1
    · rfl
  · rw [List.map_append, List.map_singleton]

theorem nodup_paths_keepBest {best : List ScopedFile} (hnodup : (best.map (·.path)).Nodup)
    (x : ScopedFile) : ((keepBest best x).map (·.path)).Nodup := by
  rw [map_path_keepBest]
  split
  · exact hnodup
  · next hany =>
    rw [List.nodup_append]
    refine ⟨hnodup, List.nodup_singleton _, fun path hpath other hother => ?_⟩
    obtain ⟨g, hg, rfl⟩ := List.mem_map.mp hpath
    rw [List.mem_singleton.mp hother]
    exact fun heq => hany (List.any_eq_true.mpr ⟨g, hg, by simp [heq]⟩)

/-- The last file is taken in behind all others. -/
theorem bestOfEachPath_concat (files : List ScopedFile) (x : ScopedFile) :
    bestOfEachPath (files ++ [x]) = keepBest (bestOfEachPath files) x := by
  rw [bestOfEachPath_eq_foldl, List.foldl_append]
  rfl

/-- No path has two files among the best. -/
theorem nodup_paths_bestOfEachPath (files : List ScopedFile) :
    ((bestOfEachPath files).map (·.path)).Nodup := by
  induction files using List.reverseRecOn with
  | nil => exact List.nodup_nil
  | append_singleton files x ih =>
    rw [bestOfEachPath_concat]
    exact nodup_paths_keepBest ih x

/-- One more file takes the place of the one that it outranks, or comes in if its path is new. -/
theorem mem_keepBest_iff {best : List ScopedFile} (hnodup : (best.map (·.path)).Nodup)
    {x f : ScopedFile} :
    f ∈ keepBest best x ↔
      f ∈ best ∧ x.outranks f = false ∨
        f = x ∧ ∀ g ∈ best, g.path = x.path → x.role.rank < g.role.rank := by
  rw [keepBest]
  split
  case isFalse hany =>
    have hnew : ∀ g ∈ best, g.path ≠ x.path := by simpa using hany
    have hkeeps : ∀ g ∈ best, x.outranks g = false := fun g hg =>
      ScopedFile.outranks_eq_false_iff.mpr fun heq => absurd heq.symm (hnew g hg)
    rw [List.mem_append, List.mem_singleton]
    refine or_congr (iff_self_and.mpr (hkeeps f)) (iff_self_and.mpr fun _ g hg heq => ?_)
    exact absurd heq (hnew g hg)
  case isTrue hany =>
    obtain ⟨other, hother, hpath⟩ : ∃ g ∈ best, g.path = x.path := by simpa using hany
    -- With its path, there is no file but `other`, which it outranks or not.
    have honly : ∀ g ∈ best, g.path = x.path → g = other := fun g hg heq =>
      List.inj_on_of_nodup_map hnodup hg hother (heq.trans hpath.symm)
    have hall : (∀ g ∈ best, g.path = x.path → x.role.rank < g.role.rank) ↔
        x.outranks other = true := by
      simp only [ScopedFile.outranks, Bool.and_eq_true, beq_iff_eq, decide_eq_true_eq]
      refine ⟨fun h => ⟨hpath.symm, h other hother hpath⟩, fun h g hg heq => ?_⟩
      rw [honly g hg heq]
      exact h.2
    rw [hall, List.mem_map]
    constructor
    · rintro ⟨g, hg, rfl⟩
      split
      · next h =>
        have hg' : g.path = x.path := (eq_of_beq (Bool.and_eq_true_iff.mp h).1).symm
        exact .inr ⟨rfl, honly g hg hg' ▸ h⟩
      · next h => exact .inl ⟨hg, Bool.eq_false_iff.mpr h⟩
    · rintro (⟨hf, h⟩ | ⟨rfl, h⟩)
      · exact ⟨f, hf, by simp [h]⟩
      · exact ⟨other, hother, if_pos h⟩

/-- Every path has a file among the best ones, with a role that is at least as important. -/
theorem exists_mem_bestOfEachPath {files : List ScopedFile} {f : ScopedFile} (hf : f ∈ files) :
    ∃ g ∈ bestOfEachPath files, g.path = f.path ∧ g.role.rank ≤ f.role.rank := by
  induction files using List.reverseRecOn with
  | nil => exact absurd hf List.not_mem_nil
  | append_singleton files x ih =>
    rw [bestOfEachPath_concat]
    have hmem {g : ScopedFile} := mem_keepBest_iff (nodup_paths_bestOfEachPath files) (x := x) (f := g)
    -- What is among the best ones stays, unless it is outranked; then `x` stands for it.
    have hkept : ∀ g ∈ bestOfEachPath files, ∃ h ∈ keepBest (bestOfEachPath files) x,
        h.path = g.path ∧ h.role.rank ≤ g.role.rank := by
      intro g hg
      by_cases hout : x.outranks g = true
      · obtain ⟨hpath, hrank⟩ : x.path = g.path ∧ x.role.rank < g.role.rank := by
          simpa [ScopedFile.outranks] using hout
        refine ⟨x, hmem.mpr (.inr ⟨rfl, fun h hh hpath' => ?_⟩), hpath, Nat.le_of_lt hrank⟩
        have heq : h = g := List.inj_on_of_nodup_map (nodup_paths_bestOfEachPath files) hh hg
          (hpath'.trans hpath)
        rwa [heq]
      · exact ⟨g, hmem.mpr (.inl ⟨hg, Bool.eq_false_iff.mpr hout⟩), rfl, Nat.le_refl _⟩
    rcases List.mem_append.mp hf with hf | hf
    · obtain ⟨g, hg, hpath, hrank⟩ := ih hf
      obtain ⟨h, hh, hpath', hrank'⟩ := hkept g hg
      exact ⟨h, hh, hpath'.trans hpath, Nat.le_trans hrank' hrank⟩
    · rw [List.mem_singleton.mp hf]
      by_cases hbest : ∀ g ∈ bestOfEachPath files, g.path = x.path → x.role.rank < g.role.rank
      · exact ⟨x, hmem.mpr (.inr ⟨rfl, hbest⟩), rfl, Nat.le_refl _⟩
      · obtain ⟨g, hg, hpath, hrank⟩ : ∃ g ∈ bestOfEachPath files, g.path = x.path ∧
            g.role.rank ≤ x.role.rank := by simpa using hbest
        obtain ⟨h, hh, hpath', hrank'⟩ := hkept g hg
        exact ⟨h, hh, hpath'.trans hpath, Nat.le_trans hrank' hrank⟩

/-- The best files are the first ones of the most important role for their paths. -/
theorem mem_bestOfEachPath_iff {files : List ScopedFile} {f : ScopedFile} :
    f ∈ bestOfEachPath files ↔ IsBest files f := by
  induction files using List.reverseRecOn generalizing f with
  | nil => exact iff_of_false List.not_mem_nil fun h => absurd h.mem List.not_mem_nil
  | append_singleton files x ih =>
    -- Among the best files there is one for each path, so `x` is compared with all files before it.
    have hall : (∀ g ∈ bestOfEachPath files, g.path = x.path → x.role.rank < g.role.rank) ↔
        ∀ g ∈ files, g.path = x.path → x.role.rank < g.role.rank := by
      refine ⟨fun h g hg hpath => ?_, fun h g hg => h g (mem_bestOfEachPath hg)⟩
      obtain ⟨best, hbest, hpath', hrank⟩ := exists_mem_bestOfEachPath hg
      exact Nat.lt_of_lt_of_le (h best hbest (hpath'.trans hpath)) hrank
    rw [bestOfEachPath_concat, mem_keepBest_iff (nodup_paths_bestOfEachPath files), isBest_concat,
      ih, hall]

/-! ## The ranking

The ranking is the list of the best files in the order of importance. With different paths this order is strict, so
there is one such list, whichever way it is found.
-/

/-- One file for each path, in the order of roles and paths. -/
structure IsRanking (files ranking : List ScopedFile) : Prop where
  mem_iff : ∀ f, f ∈ ranking ↔ IsBest files f
  increasing : ranking.Pairwise fun a b =>
    a.role.rank < b.role.rank ∨ a.role = b.role ∧ a.path < b.path

/-- There is one ranking only. -/
theorem IsRanking.eq {files xs ys : List ScopedFile} (hx : IsRanking files xs)
    (hy : IsRanking files ys) : xs = ys :=
  Sorting.eq_of_pairwise_of_mem_iff ScopedFile.standsBefore_asymm hx.increasing hy.increasing
    fun f => (hx.mem_iff f).trans (hy.mem_iff f).symm

/-- Sorting the best files gives the ranking. -/
theorem isRanking_inRoleOrder (files : List ScopedFile) : IsRanking files (inRoleOrder files) where
  mem_iff f := Sorting.mem_sorted.trans mem_bestOfEachPath_iff
  increasing := by
    have hbest := bestOfEachPath_of_nodup (nodup_paths_bestOfEachPath files)
    have hordered : inRoleOrder (bestOfEachPath files) = inRoleOrder files := by
      rw [inRoleOrder, hbest, inRoleOrder]
    rw [← hordered]
    exact pairwise_inRoleOrder (nodup_paths_bestOfEachPath files)

theorem IsRanking.nodup_paths {files ranking : List ScopedFile} (h : IsRanking files ranking) :
    (ranking.map (·.path)).Nodup := by
  rw [h.eq (isRanking_inRoleOrder files)]
  have hperm : (inRoleOrder files).Perm (bestOfEachPath files) := Sorting.perm_sorted _ _
  exact (hperm.map (·.path)).nodup_iff.mpr (nodup_paths_bestOfEachPath files)

/-- The ranking has a file for each path. -/
theorem IsRanking.exists_mem {files ranking : List ScopedFile} (h : IsRanking files ranking)
    {f : ScopedFile} (hf : f ∈ files) : ∃ g ∈ ranking, g.path = f.path := by
  obtain ⟨g, hg, hpath, -⟩ := exists_mem_bestOfEachPath hf
  exact ⟨g, (h.mem_iff g).mpr (mem_bestOfEachPath_iff.mp hg), hpath⟩

theorem Role.isRequired_eq_decide (role : Role) :
    role.isRequired = decide (role = .target ∨ role = .dependency) := by
  cases role <;> rfl

/-- A cut keeps the front of the ranking, as long as the budget allows or the required files demand. -/
theorem rank_eq_take {files ranking : List ScopedFile} (h : IsRanking files ranking) (maxFiles : Nat) :
    rank files maxFiles = ranking.take (min ranking.length
      (max maxFiles (ranking.countP fun f => f.role = .target ∨ f.role = .dependency))) := by
  rw [h.eq (isRanking_inRoleOrder files), rank, List.take_eq_take_min, Nat.min_comm]
  simp only [Role.isRequired_eq_decide]

/-- Required files of the ranking survive every budget. -/
theorem IsRanking.mem_rank {files ranking : List ScopedFile} (h : IsRanking files ranking)
    (maxFiles : Nat) {f : ScopedFile} (hf : f ∈ ranking)
    (hreq : f.role = .target ∨ f.role = .dependency) : f ∈ rank files maxFiles := by
  rw [h.eq (isRanking_inRoleOrder files)] at hf
  have hreq : f.role.isRequired = true := by
    rw [Role.isRequired_eq_decide]
    exact decide_eq_true hreq
  exact mem_take_of_countP_le
    ((pairwise_precedes_inRoleOrder files).imp ScopedFile.isRequired_of_precedes) hf hreq
    (Nat.le_max_right _ _)

/-- What is dropped comes behind all that is kept. -/
theorem standsBefore_of_notMem_take {ranking : List ScopedFile} {n : Nat}
    (h : ranking.Pairwise ScopedFile.StandsBefore) {f g : ScopedFile} (hf : f ∈ ranking)
    (hdropped : f ∉ ranking.take n) (hg : g ∈ ranking.take n) : g.StandsBefore f := by
  rw [← List.take_append_drop n ranking] at h hf
  exact (List.pairwise_append.mp h).2.2 g hg f ((List.mem_append.mp hf).resolve_left hdropped)

/--
For every list of files there is one ranking, with each path once; every cut is a front of it, in which all
required files are and behind which all that is dropped comes.
-/
theorem rank_eq_take_ranking (files : List ScopedFile) :
    ∃ ranking, (IsRanking files ranking ∧ ∀ other, IsRanking files other → other = ranking) ∧
      (ranking.map (·.path)).Nodup ∧ (∀ f ∈ files, ∃ g ∈ ranking, g.path = f.path) ∧
      ∀ maxFiles,
        rank files maxFiles = ranking.take (min ranking.length
          (max maxFiles (ranking.countP fun f => f.role = .target ∨ f.role = .dependency))) ∧
        (∀ f ∈ ranking, f.role = .target ∨ f.role = .dependency → f ∈ rank files maxFiles) ∧
        ∀ f ∈ ranking, f ∉ rank files maxFiles → ∀ g ∈ rank files maxFiles,
          g.role.rank < f.role.rank ∨ g.role = f.role ∧ g.path < f.path := by
  have hranking := isRanking_inRoleOrder files
  refine ⟨inRoleOrder files, ⟨hranking, fun other hother => hother.eq hranking⟩,
    hranking.nodup_paths, fun f hf => hranking.exists_mem hf, fun maxFiles => ⟨?_, ?_, ?_⟩⟩
  · exact rank_eq_take hranking maxFiles
  · exact fun f hf hreq => hranking.mem_rank maxFiles hf hreq
  · exact fun f hf hdropped g hg => standsBefore_of_notMem_take hranking.increasing hf hdropped hg

end RepoScope.Scope
