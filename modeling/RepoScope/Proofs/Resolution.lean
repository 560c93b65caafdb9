import RepoScope.Proofs.Selection

/-!
# What selection makes of its inputs

Of files with one path, the first one stays (`mem_inPathOrder_iff`), since sorting keeps their order. What is
selected beside the target is thus decided path by path: by whether the path is admitted, and by the first of
the candidates or dependencies that has it (`Inputs.find?_others`).

* **`resolve_isSelection`**: the files and warnings of a selection, for all inputs and directives
  (`IsSelection`).
-/

namespace RepoScope.Scope

/-! ## The first file of a path

Sorting keeps the order of files with one path, and dropping repeats keeps the first, so what a look-up by path
finds is the same before and after (`find?_inPathOrder`). Files are put in order as a whole, but can be asked for
one path at a time.
-/

section

open inPathOrder

/-- What is dropped at the start does not matter for what is looked for, if it is none of that. -/
theorem find?_dropWhile {α : Type} {p q : α → Bool} (h : ∀ a, q a = true → p a = false)
    (items : List α) : (items.dropWhile q).find? p = items.find? p := by
  induction items with
  | nil => rfl
  | cons a rest ih =>
    rw [List.dropWhile_cons]
    split
    · next hq => rw [ih, List.find?_cons_of_neg (by simp [h a hq])]
    · rfl

theorem find?_dropRepeats (files : List ScopedFile) (path : String) :
    (dropRepeats files).find? (·.path == path) = files.find? (·.path == path) := by
  induction files with
  | nil => rfl
  | cons f rest ih =>
    rw [dropRepeats]
    by_cases hf : f.path = path
    · rw [List.find?_cons_of_pos (by simp [hf]), List.find?_cons_of_pos (by simp [hf])]
    · have hdropped : ∀ g : ScopedFile, (g.path == f.path) = true → (g.path == path) = false := by
        intro g hg
        rw [eq_of_beq hg]
        simpa using hf
      rw [List.find?_cons_of_neg (by simp [hf]), List.find?_cons_of_neg (by simp [hf]),
        find?_dropWhile hdropped, ih]

theorem find?_inPathOrder (files : List ScopedFile) (path : String) :
    (inPathOrder files).find? (·.path == path) = files.find? (·.path == path) := by
  rw [inPathOrder, find?_dropRepeats]
  exact Sorting.find?_sorted ScopedFile.path files path

/-- Of files with one path, the first one stays. -/
theorem mem_inPathOrder_iff {files : List ScopedFile} {f : ScopedFile} :
    f ∈ inPathOrder files ↔ files.find? (·.path == f.path) = some f := by
  rw [← find?_inPathOrder]
  refine ⟨fun hf => ?_, List.mem_of_find?_eq_some⟩
  cases hfind : (inPathOrder files).find? (·.path == f.path) with
  | none => simpa using List.find?_eq_none.mp hfind f hf
  | some g =>
    have hpath : g.path = f.path := by simpa using List.find?_some hfind
    have hnodup : ((inPathOrder files).map (·.path)).Nodup :=
      List.pairwise_map.mpr ((pairwise_inPathOrder files).imp String.ne_of_lt)
    rw [List.inj_on_of_nodup_map hnodup (List.mem_of_find?_eq_some hfind) hf hpath]

end

/-! ## Files beside the target, path by path

Whether a path is admitted does not depend on its candidate. So the look-up of a path among the admitted candidates
finds the first candidate of this path or none at all.
-/

/-- Files that are made of the admitted ones of some candidates, looked up by a path. -/
theorem find?_map_filter (candidates : List Candidate) (admits : String → Bool)
    (role : String → Role) (mode : Mode) (path : String) :
    ((candidates.filter fun c => admits c.path).map fun c =>
        (⟨c, role c.path, mode⟩ : ScopedFile)).find? (·.path == path)
      = if admits path then
          (candidates.find? (·.path == path)).map fun c => ⟨c, role path, mode⟩
        else none := by
  have hpath : (((·.path == path) : ScopedFile → Bool) ∘ fun c : Candidate => ⟨c, role c.path, mode⟩)
      = fun c => c.path == path := rfl
  rw [List.find?_map, hpath, List.find?_filter]
  by_cases hadmits : admits path = true
  · have hsame : (fun c : Candidate => decide (admits c.path = true ∧ (c.path == path) = true))
        = fun c => c.path == path := by
      funext c
      by_cases hc : c.path = path <;> simp [hc, hadmits]
    rw [if_pos hadmits, hsame]
    cases hfind : candidates.find? (·.path == path) with
    | none => rfl
    | some c =>
      have hc : c.path = path := by simpa using List.find?_some hfind
      rw [Option.map_some, Option.map_some, hc]
  · rw [if_neg hadmits, Option.map_eq_none_iff, List.find?_eq_none]
    intro c _ hc
    obtain ⟨hadmitted, hc⟩ := of_decide_eq_true hc
    rw [eq_of_beq hc] at hadmitted
    exact hadmits hadmitted

/-- Whether a path is that of the target. -/
theorem Inputs.isTarget_eq_false_iff {i : Inputs} {path : String} :
    i.isTarget path = false ↔ ∀ target, i.target = some target → path ≠ target.path := by
  cases h : i.target with
  | none => simp [isTarget, h]
  | some target => simpa [isTarget, h] using ne_comm

/-- Whether a path may be selected beside the target. -/
def Inputs.isOpen (i : Inputs) (path : String) : Bool :=
  !i.isTarget path && !Secret.isSensitive path

/-- With dependencies given, the first of them is found for each open path. -/
theorem Inputs.find?_others_of_shaken {i : Inputs} (d : Directives) {target : Candidate}
    {dependencies : List Candidate} (htarget : i.target = some target)
    (hdeps : i.dependencies = some dependencies) (path : String) :
    (i.others d).find? (·.path == path)
      = if i.isOpen path then
          (dependencies.find? (·.path == path)).map fun c => ⟨c, .dependency, i.contextMode d⟩
        else none := by
  rw [others, htarget, hdeps]
  exact find?_map_filter dependencies i.isOpen (fun _ => .dependency) (i.contextMode d) path

/-- Otherwise the first candidate is found for each open path that the directives select. -/
theorem Inputs.find?_others {i : Inputs} (d : Directives)
    (h : i.target = none ∨ i.dependencies = none) (path : String) :
    (i.others d).find? (·.path == path)
      = if i.isOpen path && i.selects d path then
          (i.candidates.find? (·.path == path)).map fun c => ⟨c, i.roleOf path, i.contextMode d⟩
        else none := by
  have hothers : i.others d
      = (i.candidates.filter fun c => i.isOpen c.path && i.selects d c.path).map fun c =>
          ⟨c, i.roleOf c.path, i.contextMode d⟩ := by
    rcases h with h | h
    · rw [others, h]
      rfl
    · rw [others, h]
      cases i.target <;> rfl
  rw [hothers]
  exact find?_map_filter i.candidates (fun p => i.isOpen p && i.selects d p) i.roleOf
    (i.contextMode d) path

/-- A file is selected if it is the target, or the first beside it with its path. -/
theorem mem_resolve_iff_find? {i : Inputs} {d : Directives} {f : ScopedFile} :
    f ∈ (resolve i d).files ↔
      f ∈ i.targetFile ∨ (i.others d).find? (·.path == f.path) = some f := by
  constructor
  · rw [resolve_files, mem_inPathOrder_iff, List.find?_append, Option.or_eq_some_iff]
    rintro (h | ⟨-, h⟩)
    · exact .inl (List.mem_of_find?_eq_some h)
    · exact .inr h
  · rintro (h | h)
    · exact targetFile_mem_resolve d h
    · have hnone : i.targetFile.find? (·.path == f.path) = none := by
        refine List.find?_eq_none.mpr fun t ht hpath => ?_
        exact Inputs.path_ne_of_mem_others ht (List.mem_of_find?_eq_some h) (eq_of_beq hpath).symm
      rw [resolve_files, mem_inPathOrder_iff, List.find?_append, hnone, Option.none_or, h]

/-- Beside the target, a file is selected if it is the first with its path. -/
theorem mem_resolve_iff_of_isTarget_eq_false {i : Inputs} {d : Directives} {f : ScopedFile}
    (h : i.isTarget f.path = false) :
    f ∈ (resolve i d).files ↔ (i.others d).find? (·.path == f.path) = some f := by
  rw [mem_resolve_iff_find?]
  refine or_iff_right fun hf => ?_
  obtain ⟨target, htarget, rfl⟩ := Inputs.mem_targetFile.mp hf
  exact Inputs.isTarget_eq_false_iff.mp h target htarget rfl

/-- Beside the target, a path is selected if a file with it is. -/
theorem exists_mem_resolve_iff {i : Inputs} {d : Directives} {path : String}
    (h : i.isTarget path = false) :
    (∃ f ∈ (resolve i d).files, f.path = path) ↔
      ((i.others d).find? (·.path == path)).isSome = true := by
  constructor
  · rintro ⟨f, hf, rfl⟩
    rw [(mem_resolve_iff_of_isTarget_eq_false h).mp hf]
    rfl
  · intro hsome
    obtain ⟨f, hf⟩ := Option.isSome_iff_exists.mp hsome
    obtain rfl : f.path = path := by simpa using List.find?_some hf
    exact ⟨f, (mem_resolve_iff_of_isTarget_eq_false h).mpr hf, rfl⟩

/-! ## The tests of a path

Each test of the program, with what it says of the lists it was given.
-/

theorem Inputs.isActive_iff {i : Inputs} {path : String} :
    i.isActive path = true ↔ ∃ edited, i.activity = some edited ∧ path ∈ edited := by
  cases h : i.activity <;> simp [isActive, h]

theorem Inputs.passesChanges_iff {i : Inputs} {path : String} :
    i.passesChanges path = true ↔ ∀ changed, i.changed = some changed → path ∈ changed := by
  cases h : i.changed <;> simp [passesChanges, h]

/-- A path is selected if it is being edited, or if it is in the focus area and no given change set lacks it. -/
theorem Inputs.selects_iff {i : Inputs} {d : Directives} {path : String} :
    i.selects d path = true ↔ (∃ edited, i.activity = some edited ∧ path ∈ edited) ∨
      d.focus.isMatch path = true ∧ ∀ changed, i.changed = some changed → path ∈ changed := by
  rw [selects, Bool.or_eq_true, Bool.and_eq_true, isActive_iff, passesChanges_iff]

/-- Edited files and those of a given change set are changed; the others are told apart by their names. -/
theorem Inputs.roleOf_eq (i : Inputs) (path : String) :
    ((∃ edited, i.activity = some edited ∧ path ∈ edited) ∨
        (∃ changed, i.changed = some changed ∧ path ∈ changed) → i.roleOf path = .changed) ∧
    (¬((∃ edited, i.activity = some edited ∧ path ∈ edited) ∨
        ∃ changed, i.changed = some changed ∧ path ∈ changed) →
      i.roleOf path = if Focus.isConfigFile path then .config else .normal) := by
  have hchanged : (i.isActive path || (i.changed.isSome && i.passesChanges path)) = true ↔
      (∃ edited, i.activity = some edited ∧ path ∈ edited) ∨
        ∃ changed, i.changed = some changed ∧ path ∈ changed := by
    rw [Bool.or_eq_true, isActive_iff]
    refine or_congr_right ?_
    cases h : i.changed <;> simp [passesChanges, h]
  rw [← hchanged]
  exact ⟨fun h => if_pos h, fun h => if_neg h⟩

/-- The warning about the focus area comes where candidates are filtered and none is in the area. -/
theorem noFocusMatches_mem_resolve {i : Inputs} {d : Directives} {area : Focus} :
    Warning.noFocusMatches area ∈ (resolve i d).warnings ↔
      area = d.focus ∧ (i.target = none ∨ i.dependencies = none) ∧ d.focus ≠ .none ∧
        i.candidates ≠ [] ∧
        ∀ c ∈ i.candidates, i.isEligible c = true → d.focus.isMatch c.path = false := by
  have hignored : Warning.noFocusMatches area ∉ i.ignoredDirectives d := by
    rw [Inputs.ignoredDirectives]
    cases i.target.isSome <;> cases d.treeShake <;> cases d.skeletonContext <;> simp
  have hfocus : Warning.noFocusMatches area ∈ i.focusWarnings d ↔
      area = d.focus ∧ d.focus ≠ .none ∧ i.candidates ≠ [] ∧
        ∀ c ∈ i.candidates, i.isEligible c = true → d.focus.isMatch c.path = false := by
    rw [Inputs.focusWarnings]
    split
    · next h =>
      rw [List.mem_singleton, Warning.noFocusMatches.injEq]
      exact (and_iff_left (by simpa [and_assoc] using h)).symm
    · next h =>
      refine iff_of_false List.not_mem_nil fun hall => h ?_
      simpa [and_assoc] using hall.2
  cases htarget : i.target <;> cases hdeps : i.dependencies <;>
    simp [resolve, htarget, hdeps, hignored, hfocus]

/-! ## The selection

`IsSelection` goes through the fields of the result and says of each what it holds; the proof takes each from the
section above that it belongs to.
-/

/-- What selection makes of its inputs. -/
structure IsSelection (i : Inputs) (d : Directives) (r : Resolution) : Prop where
  increasing : r.files.Pairwise fun a b => a.path < b.path
  /-- The target is there once, and no other file has its path or its role. -/
  target : ∀ target, i.target = some target →
    r.files.filter (fun f => f.path = target.path ∨ f.role = .target)
      = [⟨target, .target,
          if i.withhold = true ∨ Secret.isSensitive target.path = true then .excluded else .full⟩]
  noTarget : i.target = none → ∀ f ∈ r.files, f.role ≠ .target
  /-- With a target and its dependencies, just these are selected that are no secrets. -/
  shaken : ∀ target dependencies, i.target = some target → i.dependencies = some dependencies →
    (∀ path, path ≠ target.path → ((∃ f ∈ r.files, f.path = path) ↔
      (∃ c ∈ dependencies, c.path = path) ∧ Secret.isSensitive path = false)) ∧
    ∀ f ∈ r.files, f.path ≠ target.path →
      f.role = .dependency ∧ dependencies.find? (·.path == f.path) = some f.candidate
  /-- Otherwise candidates are filtered by their paths. -/
  filtered : i.target = none ∨ i.dependencies = none →
    (∀ path, (∀ target, i.target = some target → path ≠ target.path) →
      ((∃ f ∈ r.files, f.path = path) ↔
        (∃ c ∈ i.candidates, c.path = path) ∧ Secret.isSensitive path = false ∧
          ((∃ edited, i.activity = some edited ∧ path ∈ edited) ∨
            d.focus.isMatch path = true ∧ ∀ changed, i.changed = some changed → path ∈ changed))) ∧
    ∀ f ∈ r.files, (∀ target, i.target = some target → f.path ≠ target.path) →
      ((∃ edited, i.activity = some edited ∧ f.path ∈ edited) ∨
        (∃ changed, i.changed = some changed ∧ f.path ∈ changed) → f.role = .changed) ∧
      (¬((∃ edited, i.activity = some edited ∧ f.path ∈ edited) ∨
          ∃ changed, i.changed = some changed ∧ f.path ∈ changed) →
        f.role = if Focus.isConfigFile f.path then .config else .normal) ∧
      i.candidates.find? (·.path == f.path) = some f.candidate
  mode : ∀ f ∈ r.files, (∀ target, i.target = some target → f.path ≠ target.path) →
    f.mode = if i.target.isSome = true ∧ d.skeletonContext = true then .skeleton else .full
  /-- The warning about the focus area comes only where candidates are filtered and none is in the area. -/
  noFocusMatches : ∀ area, Warning.noFocusMatches area ∈ r.warnings ↔
    area = d.focus ∧ (i.target = none ∨ i.dependencies = none) ∧ d.focus ≠ .none ∧
      i.candidates ≠ [] ∧
      ∀ c ∈ i.candidates, (∀ target, i.target = some target → c.path ≠ target.path) →
        Secret.isSensitive c.path = false → d.focus.isMatch c.path = false

/-- No file beside the target has its role. -/
theorem role_ne_target_of_mem_resolve {i : Inputs} {d : Directives} {f : ScopedFile}
    (hf : f ∈ (resolve i d).files) (h : i.isTarget f.path = false) : f.role ≠ .target := by
  have hfind := (mem_resolve_iff_of_isTarget_eq_false h).mp hf
  exact (Inputs.mem_others (List.mem_of_find?_eq_some hfind)).2.2.1

/-- Every selection is what the inputs and directives say. -/
theorem resolve_isSelection (i : Inputs) (d : Directives) : IsSelection i d (resolve i d) := by
  refine ⟨pairwise_resolve i d, ?target, ?noTarget, ?shaken, ?filtered, ?mode, ?noFocusMatches⟩
  case target =>
    intro target htarget
    -- A file beside the target has neither its path nor its role.
    have hmem : ∀ f, f ∈ (resolve i d).files ∧ (f.path = target.path ∨ f.role = .target) ↔
        f ∈ i.targetFile := by
      intro f
      refine ⟨fun ⟨hf, hcase⟩ => ?_, fun hf => ⟨targetFile_mem_resolve d hf, ?_⟩⟩
      · refine (mem_resolve hf).resolve_right fun hother => ?_
        obtain ⟨-, helig, hrole, -⟩ := Inputs.mem_others hother
        have hpath := Inputs.isTarget_eq_false_iff.mp (Inputs.isEligible_iff.mp helig).1 target htarget
        exact hcase.elim hpath hrole
      · obtain ⟨target', htarget', rfl⟩ := Inputs.mem_targetFile.mp hf
        exact .inr rfl
    have htargetFile : i.targetFile = [⟨target, .target,
        if i.withhold = true ∨ Secret.isSensitive target.path = true then .excluded else .full⟩] := by
      simp [Inputs.targetFile, htarget]
    rw [← htargetFile]
    have hsingle : i.targetFile.Pairwise fun a b => a.path < b.path := by
      rw [htargetFile]
      exact List.pairwise_singleton _ _
    -- Both lists are in the order of paths, so it is enough that they have the same members.
    refine Sorting.eq_of_mem_iff ((pairwise_resolve i d).filter _) hsingle fun f => ?_
    rw [List.mem_filter, decide_eq_true_iff, hmem]
  case noTarget =>
    intro hnone f hf
    refine role_ne_target_of_mem_resolve hf (Inputs.isTarget_eq_false_iff.mpr ?_)
    simp [hnone]
  case shaken =>
    intro target dependencies htarget hdeps
    -- Each path is decided for itself, by the first dependency that has it.
    have hfind := Inputs.find?_others_of_shaken d htarget hdeps
    have hbeside {path : String} : i.isTarget path = false ↔ path ≠ target.path := by
      simp [Inputs.isTarget_eq_false_iff, htarget]
    constructor
    · intro path hpath
      rw [exists_mem_resolve_iff (hbeside.mpr hpath), hfind, Inputs.isOpen, hbeside.mpr hpath]
      cases Secret.isSensitive path <;> simp
    · intro f hf hpath
      have hf := (mem_resolve_iff_of_isTarget_eq_false (hbeside.mpr hpath)).mp hf
      rw [hfind, Option.ite_none_right_eq_some, Option.map_eq_some_iff] at hf
      obtain ⟨-, c, hc, hcf⟩ := hf
      rw [hc, ← hcf]
      exact ⟨rfl, rfl⟩
  case filtered =>
    intro h
    -- Here it is the first candidate that decides, and the directives select paths as well.
    have hfind := Inputs.find?_others d h
    constructor
    · intro path hpath
      have hbeside := Inputs.isTarget_eq_false_iff.mpr hpath
      rw [exists_mem_resolve_iff hbeside, hfind, Inputs.isOpen, hbeside, ← Inputs.selects_iff]
      cases Secret.isSensitive path <;> cases i.selects d path <;> simp
    · intro f hf hpath
      have hf := (mem_resolve_iff_of_isTarget_eq_false
        (Inputs.isTarget_eq_false_iff.mpr hpath)).mp hf
      rw [hfind, Option.ite_none_right_eq_some, Option.map_eq_some_iff] at hf
      obtain ⟨-, c, hc, hcf⟩ := hf
      have hrole : f.role = i.roleOf f.path := congrArg ScopedFile.role hcf.symm
      have hcandidate : f.candidate = c := congrArg ScopedFile.candidate hcf.symm
      rw [hrole, hcandidate]
      exact ⟨(i.roleOf_eq f.path).1, (i.roleOf_eq f.path).2, hc⟩
  case mode =>
    intro f hf hpath
    have hf := (mem_resolve_iff_of_isTarget_eq_false
      (Inputs.isTarget_eq_false_iff.mpr hpath)).mp hf
    rw [(Inputs.mem_others (List.mem_of_find?_eq_some hf)).2.2.2, Inputs.contextMode]
    simp
  case noFocusMatches =>
    intro area
    rw [noFocusMatches_mem_resolve]
    simp only [Inputs.isEligible_iff, Inputs.isTarget_eq_false_iff, and_imp]

end RepoScope.Scope
