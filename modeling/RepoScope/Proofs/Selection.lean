import Mathlib.Data.List.Nodup
import RepoScope.Proofs.Sorting
import RepoScope.Scope.Resolve

/-!
# What is selected

Besides the target, selection takes candidates that are eligible: they are not the target under another
role, and no secrets (`mem_resolve`). All that is taken beside the target stays if no path is taken twice
(`mem_resolve_iff`), the target stays whatever else is selected (`targetFile_mem_resolve`), and no path comes
twice (`pairwise_resolve`). How large the target is makes no difference to what is selected (`resolve_resize`).
-/

namespace RepoScope.Scope

/-! ## The order of paths

Sorting by path puts equal paths side by side, and all but the first of each are then dropped. What is kept
therefore has strictly ascending paths (`pairwise_inPathOrder`), and every path that was there
(`exists_mem_dropRepeats`).
-/

section

open inPathOrder

/-- Dropping repeats keeps the order. -/
theorem dropRepeats_sublist (files : List ScopedFile) : (dropRepeats files).Sublist files := by
  induction files with
  | nil => exact List.Sublist.refl _
  | cons f rest ih =>
    rw [dropRepeats]
    exact ((List.dropWhile_sublist _).trans ih).cons_cons f

/-- Nothing in order after `path` is equal to it, once what is equal at the start has been dropped. -/
theorem lt_of_mem_dropWhile {files : List ScopedFile} {path : String}
    (horder : files.Pairwise fun a b => a.path < b.path) (hle : ∀ f ∈ files, path ≤ f.path) :
    ∀ f ∈ files.dropWhile (·.path == path), path < f.path := by
  induction files with
  | nil => simp
  | cons first rest ih =>
    obtain ⟨hfirst, hrest⟩ := List.pairwise_cons.mp horder
    rw [List.dropWhile_cons]
    split
    · exact ih hrest fun f hf => hle f (List.mem_cons_of_mem _ hf)
    · next hne =>
      have hlt : path < first.path :=
        Std.lt_of_le_of_ne (hle first List.mem_cons_self) fun heq => hne (by simp [heq])
      intro f hf
      rcases List.mem_cons.mp hf with rfl | hf
      · exact hlt
      · exact String.lt_trans hlt (hfirst f hf)

/-- In order, only the first of equal paths is kept. -/
theorem pairwise_dropRepeats {files : List ScopedFile}
    (h : files.Pairwise fun a b => a.path ≤ b.path) :
    (dropRepeats files).Pairwise fun a b => a.path < b.path := by
  induction files with
  | nil => exact List.Pairwise.nil
  | cons f rest ih =>
    obtain ⟨hf, hrest⟩ := List.pairwise_cons.mp h
    rw [dropRepeats, List.pairwise_cons]
    refine ⟨?_, (ih hrest).sublist (List.dropWhile_sublist _)⟩
    exact lt_of_mem_dropWhile (ih hrest) fun g hg => hf g ((dropRepeats_sublist rest).subset hg)

/-- What is not dropped stays. -/
theorem mem_dropWhile_of_not {α : Type} {p : α → Bool} {items : List α} {a : α} (ha : a ∈ items)
    (hp : p a = false) : a ∈ items.dropWhile p := by
  induction items with
  | nil => exact ha
  | cons b rest ih =>
    rw [List.dropWhile_cons]
    split
    · next hb =>
      rcases List.mem_cons.mp ha with rfl | ha
      · rw [hp] at hb
        cases hb
      · exact ih ha
    · exact ha

/-- Every path is kept. -/
theorem exists_mem_dropRepeats {files : List ScopedFile} {f : ScopedFile} (hf : f ∈ files) :
    ∃ g ∈ dropRepeats files, g.path = f.path := by
  induction files with
  | nil => exact absurd hf List.not_mem_nil
  | cons first rest ih =>
    rw [dropRepeats]
    rcases List.mem_cons.mp hf with rfl | hf
    · exact ⟨f, List.mem_cons_self, rfl⟩
    · obtain ⟨g, hg, hpath⟩ := ih hf
      -- What is dropped has the path of the first file, which stays.
      by_cases hfirst : g.path = first.path
      · exact ⟨first, List.mem_cons_self, hfirst.symm.trans hpath⟩
      · exact ⟨g, List.mem_cons_of_mem _ (mem_dropWhile_of_not hg (by simpa using hfirst)), hpath⟩

theorem mem_inPathOrder {files : List ScopedFile} {f : ScopedFile} (h : f ∈ inPathOrder files) :
    f ∈ files :=
  Sorting.mem_sorted.mp ((dropRepeats_sublist _).subset h)

/-- A file stays if no other file has its path. -/
theorem mem_inPathOrder_of_unique {files : List ScopedFile} {f : ScopedFile} (hf : f ∈ files)
    (hunique : ∀ g ∈ files, g.path = f.path → g = f) : f ∈ inPathOrder files := by
  obtain ⟨g, hg, hpath⟩ := exists_mem_dropRepeats (Sorting.mem_sorted.mpr hf)
  have heq : g = f := hunique g (mem_inPathOrder hg) hpath
  exact heq ▸ hg

/-- Paths come in strictly ascending order. -/
theorem pairwise_inPathOrder (files : List ScopedFile) :
    (inPathOrder files).Pairwise fun a b => a.path < b.path := by
  exact pairwise_dropRepeats (Sorting.pairwise_le_sorted ScopedFile.path files)

/-- A change of the files that keeps paths can be made before or after they are put in order. -/
theorem inPathOrder_map {g : ScopedFile → ScopedFile} (hpath : ∀ f, (g f).path = f.path)
    (files : List ScopedFile) : inPathOrder (files.map g) = (inPathOrder files).map g := by
  have hdrop : ∀ ordered : List ScopedFile,
      dropRepeats (ordered.map g) = (dropRepeats ordered).map g := by
    intro ordered
    induction ordered with
    | nil => rfl
    | cons f rest ih =>
      rw [List.map_cons, dropRepeats, dropRepeats, ih, List.map_cons, List.dropWhile_map]
      simp only [Function.comp_def, hpath]
  rw [inPathOrder, inPathOrder, ← hdrop, Sorting.map_sorted]
  exact fun a b => by simp only [hpath]

end

/-! ## Files beside the target

What is selected is the target, if it is shown, and the others: with a target whose dependencies are given these,
and else the candidates that the directives select. The others are filtered by one test (`isEligible`), which takes
out the target's path and every sensitive one. So no clash of paths can push the target out.
-/

/-- The files that are selected beside the target, in no order. -/
def Inputs.others (i : Inputs) (d : Directives) : List ScopedFile :=
  match i.target, i.dependencies with
  | some _, some dependencies =>
    (dependencies.filter i.isEligible).map fun c => ⟨c, .dependency, i.contextMode d⟩
  | _, _ =>
    (i.candidates.filter fun c => i.isEligible c && i.selects d c.path).map fun c =>
      ⟨c, i.roleOf c.path, i.contextMode d⟩

/-- What is selected is the target and the others in the order of their paths. -/
theorem resolve_files (i : Inputs) (d : Directives) :
    (resolve i d).files = inPathOrder (i.targetFile ++ i.others d) := by
  cases htarget : i.target <;> cases hdeps : i.dependencies <;>
    simp only [resolve, Inputs.others, htarget, hdeps]

/-- A role that is told from a path is never that of a target. -/
theorem Inputs.roleOf_ne_target (i : Inputs) (path : String) : i.roleOf path ≠ .target := by
  rw [roleOf]
  split
  · decide
  · split <;> decide

/-- Nor is it that of a dependency. -/
theorem Inputs.roleOf_ne_dependency (i : Inputs) (path : String) : i.roleOf path ≠ .dependency := by
  rw [roleOf]
  split
  · decide
  · split <;> decide

/-- No mode for the context excludes a file. -/
theorem Inputs.contextMode_ne_excluded (i : Inputs) (d : Directives) :
    i.contextMode d ≠ .excluded := by
  rw [contextMode]
  split <;> decide

/-- A file beside the target is an eligible one of the candidates or dependencies. -/
theorem Inputs.mem_others {i : Inputs} {d : Directives} {f : ScopedFile} (h : f ∈ i.others d) :
    (f.candidate ∈ i.candidates ∨ ∃ dependencies, i.dependencies = some dependencies ∧
      f.candidate ∈ dependencies) ∧
    i.isEligible f.candidate = true ∧ f.role ≠ .target ∧ f.mode = i.contextMode d := by
  rw [others] at h
  split at h
  · next dependencies htarget hdeps =>
    obtain ⟨c, hc, rfl⟩ := List.mem_map.mp h
    obtain ⟨hmem, helig⟩ := List.mem_filter.mp hc
    exact ⟨.inr ⟨dependencies, hdeps, hmem⟩, helig, by simp, rfl⟩
  · obtain ⟨c, hc, rfl⟩ := List.mem_map.mp h
    obtain ⟨hmem, htests⟩ := List.mem_filter.mp hc
    exact ⟨.inl hmem, (Bool.and_eq_true_iff.mp htests).1, i.roleOf_ne_target c.path, rfl⟩

/-- Files beside the target are dependencies all or none: with a target whose dependencies are given, all. -/
theorem Inputs.role_of_mem_others {i : Inputs} {d : Directives} {f : ScopedFile}
    (h : f ∈ i.others d) :
    f.role = .dependency ↔ i.target.isSome = true ∧ i.dependencies.isSome = true := by
  rw [others] at h
  split at h
  · next dependencies htarget hdeps =>
    obtain ⟨c, -, rfl⟩ := List.mem_map.mp h
    simp [htarget, hdeps]
  · next hnone =>
    obtain ⟨c, -, rfl⟩ := List.mem_map.mp h
    refine iff_of_false (i.roleOf_ne_dependency c.path) ?_
    rintro ⟨htarget, hdeps⟩
    obtain ⟨target, htarget⟩ := Option.isSome_iff_exists.mp htarget
    obtain ⟨dependencies, hdeps⟩ := Option.isSome_iff_exists.mp hdeps
    exact hnone target dependencies htarget hdeps

/-- A candidate is eligible if it is neither the target nor sensitive. -/
theorem Inputs.isEligible_iff {i : Inputs} {c : Candidate} :
    i.isEligible c = true ↔ i.isTarget c.path = false ∧ Secret.isSensitive c.path = false := by
  simp [isEligible]

/-- The target as a selected file. -/
theorem Inputs.mem_targetFile {i : Inputs} {f : ScopedFile} :
    f ∈ i.targetFile ↔ ∃ target, i.target = some target ∧
      f = ⟨target, .target,
        if i.withhold || Secret.isSensitive target.path then .excluded else .full⟩ := by
  cases htarget : i.target <;> simp [targetFile, htarget]

/-- What is selected is the target or one of the others. -/
theorem mem_resolve {i : Inputs} {d : Directives} {f : ScopedFile}
    (h : f ∈ (resolve i d).files) : f ∈ i.targetFile ∨ f ∈ i.others d := by
  rw [resolve_files] at h
  exact List.mem_append.mp (mem_inPathOrder h)

/-- What is selected has strictly ascending paths. -/
theorem pairwise_resolve (i : Inputs) (d : Directives) :
    (resolve i d).files.Pairwise fun a b => a.path < b.path := by
  rw [resolve_files]
  exact pairwise_inPathOrder _

/-- No path is selected twice. -/
theorem nodup_paths_resolve (i : Inputs) (d : Directives) :
    ((resolve i d).files.map (·.path)).Nodup := by
  rw [List.Nodup, List.pairwise_map]
  exact (pairwise_resolve i d).imp String.ne_of_lt

/-- No file beside the target has its path. -/
theorem Inputs.path_ne_of_mem_others {i : Inputs} {d : Directives} {f g : ScopedFile}
    (hf : f ∈ i.targetFile) (hg : g ∈ i.others d) : g.path ≠ f.path := by
  obtain ⟨target, htarget, rfl⟩ := mem_targetFile.mp hf
  intro hpath
  -- With the path of the target, it would not be eligible.
  have hother : i.isTarget g.candidate.path = false := (isEligible_iff.mp (mem_others hg).2.1).1
  have hsame : g.candidate.path = target.path := hpath
  simp [isTarget, htarget, hsame] at hother

/-- There is one target at most. -/
theorem Inputs.eq_of_mem_targetFile {i : Inputs} {f g : ScopedFile} (hf : f ∈ i.targetFile)
    (hg : g ∈ i.targetFile) : g = f := by
  obtain ⟨target, htarget, rfl⟩ := mem_targetFile.mp hf
  obtain ⟨other, hother, rfl⟩ := mem_targetFile.mp hg
  rw [htarget, Option.some.injEq] at hother
  rw [hother]

/-- The target stays whatever else is selected. -/
theorem targetFile_mem_resolve {i : Inputs} (d : Directives) {f : ScopedFile}
    (h : f ∈ i.targetFile) : f ∈ (resolve i d).files := by
  rw [resolve_files]
  refine mem_inPathOrder_of_unique (List.mem_append_left _ h) fun g hg hpath => ?_
  rcases List.mem_append.mp hg with hg | hg
  · exact Inputs.eq_of_mem_targetFile h hg
  · exact absurd hpath (Inputs.path_ne_of_mem_others h hg)

/-- If the files beside the target have different paths, all of them stay. -/
theorem mem_resolve_iff {i : Inputs} {d : Directives}
    (hnodup : ((i.others d).map (·.path)).Nodup) {f : ScopedFile} :
    f ∈ (resolve i d).files ↔ f ∈ i.targetFile ∨ f ∈ i.others d := by
  refine ⟨mem_resolve, fun h => ?_⟩
  rcases h with h | h
  · exact targetFile_mem_resolve d h
  · rw [resolve_files]
    refine mem_inPathOrder_of_unique (List.mem_append_right _ h) fun g hg hpath => ?_
    rcases List.mem_append.mp hg with hg | hg
    · exact absurd hpath.symm (Inputs.path_ne_of_mem_others hg h)
    · exact List.inj_on_of_nodup_map hnodup hg h hpath

/-! ## The size of the target

A selected file holds its candidate, with a size. The size of a target tells whether its text has changed, so to
say that selection does not depend on that text, files are compared without sizes (`sizeless`).
-/

/-- A selected file without the size of its candidate. -/
def ScopedFile.sizeless (f : ScopedFile) : ScopedFile :=
  { f with candidate := { f.candidate with size := 0 } }

@[simp] theorem ScopedFile.sizeless_path (f : ScopedFile) : f.sizeless.path = f.path := rfl

@[simp] theorem ScopedFile.sizeless_role (f : ScopedFile) : f.sizeless.role = f.role := rfl

@[simp] theorem ScopedFile.sizeless_mode (f : ScopedFile) : f.sizeless.mode = f.mode := rfl

/-- Without their sizes, files are told apart by path, extension, role and mode. -/
theorem ScopedFile.sizeless_eq_iff {f g : ScopedFile} :
    f.sizeless = g.sizeless ↔
      f.path = g.path ∧ f.candidate.extension = g.candidate.extension ∧ f.role = g.role ∧
        f.mode = g.mode := by
  simp only [sizeless, ScopedFile.mk.injEq, Candidate.mk.injEq, true_and, and_assoc]
  rfl

/-- Selection tells targets of different sizes apart by their sizes alone. -/
theorem resolve_resize (i : Inputs) (d : Directives) (target : Candidate) (size : Nat) :
    (resolve { i with target := some { target with size } } d).files.map ScopedFile.sizeless
      = (resolve { i with target := some target } d).files.map ScopedFile.sizeless ∧
    (resolve { i with target := some { target with size } } d).warnings
      = (resolve { i with target := some target } d).warnings := by
  obtain ⟨candidates, _, dependencies, changed, activity, withhold⟩ := i
  constructor
  · rw [resolve_files, resolve_files, ← inPathOrder_map ScopedFile.sizeless_path,
      ← inPathOrder_map ScopedFile.sizeless_path, List.map_append, List.map_append]
    cases dependencies <;> rfl
  · cases dependencies <;> rfl

end RepoScope.Scope
