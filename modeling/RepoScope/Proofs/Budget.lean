import RepoScope.Proofs.Sorting
import RepoScope.Scope.Budget

/-!
# What the budget keeps

The cut at the budget drops files and invents none (`mem_rank`), and leaves what is kept strictly in
order (`pairwise_rank`). The target and its dependencies come before all other files in the order of
importance, and the budget is never smaller than their number, so they survive every cut
(`mem_rank_of_isRequired`, `rank_of_isRequired`), and nothing else exceeds it (`length_rank_le`).
Nothing but paths and roles decides what is kept and in which order (`rank_map`).
-/

namespace RepoScope.Scope

/-! ## The order of importance

Files are ordered by role and then by path. `precedes` is the test the sorting runs, `StandsBefore` the strict
order it amounts to where paths differ.
-/

/-- A file precedes another by its role, or with the same role by its path. -/
theorem ScopedFile.precedes_iff {a b : ScopedFile} :
    a.precedes b = true ↔
      a.role.rank < b.role.rank ∨ a.role.rank = b.role.rank ∧ a.path ≤ b.path := by
  simp [precedes]

/-- The order of importance is transitive. -/
theorem ScopedFile.precedes_trans (a b c : ScopedFile) (hab : a.precedes b = true)
    (hbc : b.precedes c = true) : a.precedes c = true := by
  rw [precedes_iff] at *
  rcases hab with hab | ⟨hab, hpath⟩
  · rcases hbc with hbc | ⟨hbc, -⟩
    · exact .inl (Nat.lt_trans hab hbc)
    · exact .inl (hbc ▸ hab)
  · rcases hbc with hbc | ⟨hbc, hpath'⟩
    · exact .inl (hab ▸ hbc)
    · exact .inr ⟨hab.trans hbc, String.le_trans hpath hpath'⟩

/-- Any two files are in order one way or the other. -/
theorem ScopedFile.precedes_total (a b : ScopedFile) :
    (a.precedes b || b.precedes a) = true := by
  rw [Bool.or_eq_true, precedes_iff, precedes_iff]
  rcases Nat.lt_trichotomy a.role.rank b.role.rank with h | h | h
  · exact .inl (.inl h)
  · exact (String.le_total a.path b.path).imp (fun hp => .inr ⟨h, hp⟩) fun hp => .inr ⟨h.symm, hp⟩
  · exact .inr (.inl h)

/-- Whether a file has a more important role than another, or the same role and a smaller path. -/
def ScopedFile.StandsBefore (a b : ScopedFile) : Prop :=
  a.role.rank < b.role.rank ∨ a.role = b.role ∧ a.path < b.path

/-- No two files stand before each other. -/
theorem ScopedFile.standsBefore_asymm (a b : ScopedFile) (hab : a.StandsBefore b) :
    ¬b.StandsBefore a := by
  rintro (hba | ⟨hba, hpath'⟩)
  · rcases hab with hab | ⟨hab, -⟩
    · exact Nat.lt_asymm hab hba
    · exact Nat.lt_irrefl _ (hab ▸ hba)
  · rcases hab with hab | ⟨-, hpath⟩
    · exact Nat.lt_irrefl _ (hba ▸ hab)
    · exact String.lt_asymm hpath hpath'

theorem Role.rank_injective {r s : Role} (h : r.rank = s.rank) : r = s := by
  cases r <;> cases s <;> simp [rank] at h ⊢

/-- With different paths, files in order are strictly in order. -/
theorem ScopedFile.standsBefore_of_precedes {a b : ScopedFile} (h : a.precedes b = true)
    (hne : a.path ≠ b.path) : a.StandsBefore b := by
  rcases precedes_iff.mp h with h | ⟨h, hpath⟩
  · exact .inl h
  · exact .inr ⟨Role.rank_injective h, Std.lt_of_le_of_ne hpath hne⟩

/-- The required roles are the first ones. -/
theorem Role.isRequired_iff {role : Role} : role.isRequired = true ↔ role.rank ≤ 1 := by
  cases role <;> decide

/-- The required roles are those of the target and of its dependencies. -/
theorem Role.eq_of_isRequired {role : Role} (h : role.isRequired = true) :
    role = .target ∨ role = .dependency := by
  cases role <;> simp [isRequired] at h ⊢

/-- Only a target stands before a target. -/
theorem ScopedFile.role_of_standsBefore {a b : ScopedFile} (h : a.StandsBefore b)
    (hb : b.role = .target) : a.role = .target := by
  rcases h with hlt | ⟨heq, -⟩
  · rw [hb] at hlt
    exact absurd hlt (Nat.not_lt_zero _)
  · exact heq.trans hb

/-- What comes before a required file is required. -/
theorem ScopedFile.isRequired_of_precedes {a b : ScopedFile} (h : a.precedes b = true)
    (hb : b.role.isRequired = true) : a.role.isRequired = true := by
  rw [Role.isRequired_iff] at *
  rcases precedes_iff.mp h with h | ⟨h, -⟩ <;> omega

/-! ## One file for each path

Where several files have a path, the best of them is kept, in the place of the first. The files of a scope have
different paths, and then nothing is dropped (`bestOfEachPath_of_nodup`).
-/

/-- One more file among the best ones so far. -/
def keepBest (best : List ScopedFile) (file : ScopedFile) : List ScopedFile :=
  if best.any (·.path == file.path) then
    best.map fun other => if file.outranks other then file else other
  else best ++ [file]

theorem bestOfEachPath_eq_foldl (files : List ScopedFile) :
    bestOfEachPath files = files.foldl keepBest [] := rfl

/-- A file that is kept is one of the best so far or the new one. -/
theorem mem_keepBest {best : List ScopedFile} {file f : ScopedFile} (h : f ∈ keepBest best file) :
    f ∈ best ∨ f = file := by
  rw [keepBest] at h
  split at h
  · obtain ⟨other, hother, hf⟩ := List.mem_map.mp h
    split at hf
    · exact .inr hf.symm
    · exact .inl (hf ▸ hother)
  · simpa using h

/-- The best files are some of the files. -/
theorem mem_bestOfEachPath {files : List ScopedFile} {f : ScopedFile}
    (h : f ∈ bestOfEachPath files) : f ∈ files := by
  -- Over the fold, a file is one of the best so far or one that is still to come.
  have hfold : ∀ best : List ScopedFile, f ∈ files.foldl keepBest best → f ∈ best ∨ f ∈ files := by
    clear h
    induction files with
    | nil => exact fun best hf => .inl hf
    | cons file rest ih =>
      intro best hf
      rcases ih _ hf with hf | hf
      · rcases mem_keepBest hf with hf | rfl
        · exact .inl hf
        · exact .inr List.mem_cons_self
      · exact .inr (List.mem_cons_of_mem _ hf)
  rw [bestOfEachPath_eq_foldl] at h
  simpa using hfold [] h

/-- Files with different paths are all the best ones for their paths. -/
theorem bestOfEachPath_of_nodup {files : List ScopedFile} (h : (files.map (·.path)).Nodup) :
    bestOfEachPath files = files := by
  -- As long as no path comes again, each file is put behind the best ones so far.
  have hfold : ∀ best : List ScopedFile, ((best ++ files).map (·.path)).Nodup →
      files.foldl keepBest best = best ++ files := by
    clear h
    induction files with
    | nil => exact fun best _ => (List.append_nil best).symm
    | cons file rest ih =>
      intro best hnodup
      have hfresh : best.any (·.path == file.path) = false := by
        rw [List.map_append, List.nodup_append] at hnodup
        rw [List.any_eq_false]
        intro other hother
        simpa using hnodup.2.2 other.path (List.mem_map_of_mem hother) file.path (by simp)
      have hnext : keepBest best file = best ++ [file] := by
        rw [keepBest, hfresh]
        rfl
      rw [List.foldl_cons, hnext, ih _ (by simpa using hnodup), List.append_assoc]
      rfl
  exact hfold [] (by simpa using h)

/-! ## The cut

The cut takes files from the front of the order of importance. All that is proved of the order, and that nothing is
invented, goes over to what is kept since it is a part of it in the same order (`rank_sublist`). That required
files survive needs the two facts behind the cut's bound: they come first in the order, and the bound is at least
their number.
-/

theorem mem_inRoleOrder {files : List ScopedFile} {f : ScopedFile} (h : f ∈ inRoleOrder files) :
    f ∈ files :=
  mem_bestOfEachPath (Sorting.mem_sorted.mp h)

theorem mem_rank {files : List ScopedFile} {maxFiles : Nat} {f : ScopedFile}
    (h : f ∈ rank files maxFiles) : f ∈ files :=
  mem_inRoleOrder (List.mem_of_mem_take h)

/-- Files with different paths are all sorted. -/
theorem perm_inRoleOrder {files : List ScopedFile} (hnodup : (files.map (·.path)).Nodup) :
    (inRoleOrder files).Perm files := by
  rw [inRoleOrder, bestOfEachPath_of_nodup hnodup]
  exact Sorting.perm_sorted _ files

/-- Sorted files have different paths if the files have. -/
theorem nodup_paths_inRoleOrder {files : List ScopedFile} (hnodup : (files.map (·.path)).Nodup) :
    ((inRoleOrder files).map (·.path)).Nodup :=
  ((perm_inRoleOrder hnodup).map (·.path)).nodup_iff.mpr hnodup

/-- Sorted files are in the order of importance. -/
theorem pairwise_precedes_inRoleOrder (files : List ScopedFile) :
    (inRoleOrder files).Pairwise fun a b => a.precedes b = true :=
  Sorting.pairwise_sorted ScopedFile.precedes_trans ScopedFile.precedes_total _

/-- With different paths, they are strictly so. -/
theorem pairwise_inRoleOrder {files : List ScopedFile} (hnodup : (files.map (·.path)).Nodup) :
    (inRoleOrder files).Pairwise ScopedFile.StandsBefore := by
  have hne : (inRoleOrder files).Pairwise fun a b => a.path ≠ b.path :=
    List.pairwise_map.mp (nodup_paths_inRoleOrder hnodup)
  exact ((pairwise_precedes_inRoleOrder files).and hne).imp fun hab =>
    ScopedFile.standsBefore_of_precedes hab.1 hab.2

/-- What is kept is a part of the sorted files. -/
theorem rank_sublist (files : List ScopedFile) (maxFiles : Nat) :
    (rank files maxFiles).Sublist (inRoleOrder files) :=
  List.take_sublist _ _

/-- What is kept is strictly in order. -/
theorem pairwise_rank {files : List ScopedFile} (maxFiles : Nat)
    (hnodup : (files.map (·.path)).Nodup) :
    (rank files maxFiles).Pairwise ScopedFile.StandsBefore :=
  (pairwise_inRoleOrder hnodup).sublist (rank_sublist files maxFiles)

/-- What is kept has different paths. -/
theorem nodup_paths_rank {files : List ScopedFile} (maxFiles : Nat)
    (hnodup : (files.map (·.path)).Nodup) : ((rank files maxFiles).map (·.path)).Nodup :=
  (nodup_paths_inRoleOrder hnodup).sublist ((rank_sublist files maxFiles).map _)

/-- No more files are kept than the budget allows or are required. -/
theorem length_rank_le {files : List ScopedFile} (maxFiles : Nat)
    (hnodup : (files.map (·.path)).Nodup) :
    (rank files maxFiles).length ≤ max maxFiles (files.countP (·.role.isRequired)) := by
  rw [rank, (perm_inRoleOrder hnodup).countP_eq]
  exact List.length_take_le _ _

/-- Where all files are required, the budget cuts off none. -/
theorem rank_of_isRequired {files : List ScopedFile} (maxFiles : Nat)
    (hreq : ∀ f ∈ files, f.role.isRequired = true) : rank files maxFiles = inRoleOrder files := by
  have hcount : (inRoleOrder files).countP (·.role.isRequired) = (inRoleOrder files).length :=
    List.countP_eq_length.mpr fun f hf => hreq f (mem_inRoleOrder hf)
  rw [rank, hcount]
  exact List.take_of_length_le (Nat.le_max_right _ _)

/-- Of a list that begins with all that is wanted, a cut that is long enough loses nothing wanted. -/
theorem mem_take_of_countP_le {α : Type} {p : α → Bool} {items : List α} {a : α} {n : Nat}
    (hfirst : items.Pairwise fun a b => p b = true → p a = true) (ha : a ∈ items)
    (hp : p a = true) (hn : items.countP p ≤ n) : a ∈ items.take n := by
  induction items generalizing n with
  | nil => exact absurd ha List.not_mem_nil
  | cons b rest ih =>
    obtain ⟨hb, hrest⟩ := List.pairwise_cons.mp hfirst
    -- Something wanted is left, so the first item is wanted, and the cut takes at least one.
    have hpb : p b = true := by
      rcases List.mem_cons.mp ha with rfl | ha
      · exact hp
      · exact hb a ha hp
    rw [List.countP_cons_of_pos hpb] at hn
    obtain ⟨m, rfl⟩ : ∃ m, n = m + 1 := ⟨n - 1, by omega⟩
    rw [List.take_succ_cons, List.mem_cons]
    rcases List.mem_cons.mp ha with rfl | ha
    · exact .inl rfl
    · exact .inr (ih hrest ha (by omega))

/-- Required files survive every budget. -/
theorem mem_rank_of_isRequired {files : List ScopedFile} {f : ScopedFile} (maxFiles : Nat)
    (hnodup : (files.map (·.path)).Nodup) (hf : f ∈ files) (hreq : f.role.isRequired = true) :
    f ∈ rank files maxFiles := by
  have hordered := pairwise_precedes_inRoleOrder files
  have hmem : f ∈ inRoleOrder files := (perm_inRoleOrder hnodup).mem_iff.mpr hf
  exact mem_take_of_countP_le (hordered.imp ScopedFile.isRequired_of_precedes) hmem hreq
    (Nat.le_max_right _ _)

/-! ## Paths and roles decide

A change `g` of the files that leaves path and role alone can be made before or after each of the steps.
-/

section

variable {g : ScopedFile → ScopedFile} (hpath : ∀ f, (g f).path = f.path)
  (hrole : ∀ f, (g f).role = f.role)

include hpath hrole

/-- Whether a file outranks another depends on their roles only. -/
theorem outranks_map (a b : ScopedFile) : (g a).outranks (g b) = a.outranks b := by
  simp [ScopedFile.outranks, hpath, hrole]

/-- Whether a file precedes another depends on their roles and paths only. -/
theorem precedes_map (a b : ScopedFile) : (g a).precedes (g b) = a.precedes b := by
  simp [ScopedFile.precedes, hpath, hrole]

/-- Keeping the best file looks at roles and paths only. -/
theorem keepBest_map (best : List ScopedFile) (file : ScopedFile) :
    keepBest (best.map g) (g file) = (keepBest best file).map g := by
  have hany : (best.map g).any (·.path == (g file).path) = best.any (·.path == file.path) := by
    simp [List.any_map, Function.comp_def, hpath]
  rw [keepBest, keepBest, hany]
  split
  · rw [List.map_map, List.map_map]
    refine List.map_congr_left fun other _ => ?_
    simp only [Function.comp_apply, outranks_map hpath hrole]
    split <;> rfl
  · rw [List.map_append, List.map_singleton]

/-- So does the choice of one file for each path. -/
theorem bestOfEachPath_map (files : List ScopedFile) :
    bestOfEachPath (files.map g) = (bestOfEachPath files).map g := by
  have hfold : ∀ best : List ScopedFile,
      (files.map g).foldl keepBest (best.map g) = (files.foldl keepBest best).map g := by
    induction files with
    | nil => exact fun best => rfl
    | cons file rest ih =>
      intro best
      rw [List.map_cons, List.foldl_cons, List.foldl_cons, keepBest_map hpath hrole, ih]
  exact hfold []

/-- A change of the files that keeps paths and roles can be made before or after the cut. -/
theorem rank_map (files : List ScopedFile) (maxFiles : Nat) :
    rank (files.map g) maxFiles = (rank files maxFiles).map g := by
  have hordered : inRoleOrder (files.map g) = (inRoleOrder files).map g := by
    rw [inRoleOrder, inRoleOrder, bestOfEachPath_map hpath hrole]
    exact (Sorting.map_sorted (fun a b => (precedes_map hpath hrole a b).symm) _).symm
  have hcount : ((inRoleOrder files).map g).countP (·.role.isRequired)
      = (inRoleOrder files).countP (·.role.isRequired) := by
    simp [List.countP_map, Function.comp_def, hrole]
  rw [rank, hordered, hcount, ← List.map_take]
  rfl

end

end RepoScope.Scope
