import RepoScope.Content.Load
import RepoScope.Proofs.Access
import RepoScope.Proofs.Selection

/-!
# What loading reads

Loading opens a file through its path alone. An excluded file is not opened (`loadFile_of_excluded`), and
what is shown of any other file is the text of what its path leads to (`follow_of_content`). Two
repositories are loaded alike as far as the same is reached by the paths of files that are not excluded
(`load_congr`). All this holds on every host, whatever access it gives and whatever it is equipped with.
-/

namespace RepoScope.Content

open Scope

/-- Whether loading a selected file gives a file to show or to list. -/
def Yields (host : Host) (repo : Repository) (countTokens : Bool) (f : ScopedFile) (s : ShownFile) : Prop :=
  loadFile host repo countTokens f = .shown s ∨
    ∃ warning, loadFile host repo countTokens f = .listed s warning

variable {host : Host} {repo : Repository} {countTokens : Bool} {f : ScopedFile} {s : ShownFile}

theorem loadFile_of_excluded (h : f.mode = .excluded) :
    loadFile host repo countTokens f = .shown (bare f) := by
  rw [loadFile, if_pos h]

/-- What comes of a selected file is the file without content, or the text that its path leads to. -/
theorem Yields.cases (h : Yields host repo countTokens f s) :
    s = bare f ∨
      f.mode ≠ .excluded ∧ ∃ place content, repo.follow f.path = some ⟨place, .file content⟩ ∧
        s = withText host countTokens f (shownText f (Text.decodeLossy content)) := by
  rw [Yields, loadFile] at h
  split at h
  · simp only [Loaded.shown.injEq, reduceCtorEq, exists_false, or_false] at h
    exact .inl h.symm
  · next hmode =>
    split at h
    · simp at h
    · split at h
      · split at h <;> simp at h
        exact .inl h.symm
      · next content hread =>
        split at h
        · split at h <;> simp at h
          exact .inl h.symm
        · simp only [Loaded.shown.injEq, reduceCtorEq, exists_false, or_false] at h
          obtain ⟨place, hfollow⟩ := Repository.follow_of_readFile hread
          exact .inr ⟨hmode, place, content, hfollow, h.symm⟩

/-- A loaded file keeps the path, role and mode of the file that it comes from. -/
theorem Yields.same (h : Yields host repo countTokens f s) :
    s.path = f.path ∧ s.role = f.role ∧ s.mode = f.mode := by
  rcases h.cases with rfl | ⟨-, place, content, -, rfl⟩ <;> exact ⟨rfl, rfl, rfl⟩

/-- Content comes from the regular file that the path leads to, and never from an excluded file. -/
theorem Yields.follow_of_content {text : String} (h : Yields host repo countTokens f s)
    (ht : s.content = some text) :
    f.mode ≠ .excluded ∧ ∃ place content, repo.follow f.path = some ⟨place, .file content⟩ ∧
      text = String.ofList (shownText f (Text.decodeLossy content)) := by
  rcases h.cases with rfl | ⟨hmode, place, content, hfollow, rfl⟩
  · cases ht
  · rw [withText, Option.some.injEq] at ht
    exact ⟨hmode, place, content, hfollow, ht.symm⟩

theorem Yields.bare_of_excluded (h : Yields host repo countTokens f s) (hmode : f.mode = .excluded) :
    s = bare f := by
  rcases h.cases with hbare | ⟨hne, -⟩
  · exact hbare
  · exact absurd hmode hne

theorem mem_files_load {files : List ScopedFile} :
    s ∈ (load repo countTokens files host).files ↔ ∃ f ∈ files, Yields host repo countTokens f s := by
  rw [load, List.filterMap_map, List.mem_filterMap]
  refine exists_congr fun f => and_congr_right fun _ => ?_
  rw [Yields, Function.comp_apply]
  cases loadFile host repo countTokens f <;> simp

/-! ## Repositories that are loaded alike

Loading is a function of what is reached by the paths of the files that it opens, and of the host. The host is the
same on both sides, so repositories in which the same is reached are loaded alike.
-/

variable {repo' : Repository}

/-- Loading depends on the path, role and mode of a file, and on what its path reaches. -/
theorem loadFile_congr {f' : ScopedFile} (hroot : repo.root = repo'.root) (hf : f.sizeless = f'.sizeless)
    (h : f.mode = .excluded ∨ repo.reach host.access f.path = repo'.reach host.access f.path) :
    loadFile host repo countTokens f = loadFile host repo' countTokens f' := by
  obtain ⟨hpath, hext, hrole, hmode⟩ := ScopedFile.sizeless_eq_iff.mp hf
  have hbare : bare f = bare f' := by simp only [bare, hpath, hrole, hmode]
  rcases h with h | h
  · rw [loadFile_of_excluded h, loadFile_of_excluded (hmode ▸ h), hbare]
  · have hread : repo.readFile host.access f.path = repo'.readFile host.access f'.path := by
      rw [Repository.readFile, Repository.readFile, h, hpath]
    have hmay : mayBeText host repo f.path = mayBeText host repo' f'.path := by
      rw [mayBeText, mayBeText, fullExtension?, fullExtension?, h, hroot, hpath]
    have htext : ∀ text, withText host countTokens f (shownText f text)
        = withText host countTokens f' (shownText f' text) := fun text => by
      simp only [withText, shownText, hpath, hrole, hmode, hext]
    rw [loadFile, loadFile, hread, hmay, hbare, hmode, hrole, hpath]
    simp only [htext]

/-- Two selections that differ in sizes alone are loaded alike from paths that reach the same. -/
theorem load_congr {files files' : List ScopedFile} (hroot : repo.root = repo'.root)
    (hfiles : files.map ScopedFile.sizeless = files'.map ScopedFile.sizeless)
    (h : ∀ f ∈ files,
      f.mode = .excluded ∨ repo.reach host.access f.path = repo'.reach host.access f.path) :
    load repo countTokens files host = load repo' countTokens files' host := by
  have hloaded : files.map (loadFile host repo countTokens)
      = files'.map (loadFile host repo' countTokens) := by
    induction files generalizing files' with
    | nil =>
      rw [List.map_nil, eq_comm, List.map_eq_nil_iff] at hfiles
      rw [hfiles, List.map_nil, List.map_nil]
    | cons f rest ih =>
      cases files' with
      | nil => cases hfiles
      | cons f' rest' =>
        rw [List.map_cons, List.map_cons, List.cons.injEq] at hfiles
        rw [List.map_cons, List.map_cons, loadFile_congr hroot hfiles.1 (h f List.mem_cons_self),
          ih hfiles.2 fun g hg => h g (List.mem_cons_of_mem _ hg)]
  rw [load, load, hloaded]

end RepoScope.Content
