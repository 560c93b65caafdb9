import RepoScope.Context
import RepoScope.Proofs.Budget
import RepoScope.Proofs.Selection

/-!
# What a run hands on

A run that succeeds has walked the root and located its target (`run_eq_ok`). The files it hands on are
the target, shown unless it is a secret, and candidates of the walk that are none (`mem_files_runOn`). The
target is always among them (`file_mem_runOn`), and a warning about it comes exactly when it is a secret
(`sensitiveTarget_mem_runOn`).
-/

namespace RepoScope

open Scope

/-! ## Dependencies -/

/-- Whatever a file imports, only candidates are its dependencies. -/
theorem Import.mem_dependencies {target : Candidate} {content : Option Bytes}
    {candidates : List Candidate} {c : Candidate}
    (h : c ∈ Import.dependencies target content candidates) : c ∈ candidates := by
  unfold dependencies at h
  split at h
  · rw [dependenciesIn, List.mem_filterMap] at h
    obtain ⟨path, -, hfind⟩ := h
    exact List.mem_of_find?_eq_some hfind
  · exact absurd h List.not_mem_nil

namespace Context

/-- What can be computed from a result shows that there is one. -/
theorem exists_eq_ok_of_view {ε α β : Type} {e : Except ε α} {view : α → β} {b : β}
    (h : e.toOption.map view = some b) : ∃ a, e = .ok a ∧ view a = b := by
  cases e with
  | error e => cases h
  | ok a => exact ⟨a, rfl, Option.some.inj h⟩

/-! ## The parts of a run

A run walks the root and, if there is a target, locates it. These two steps can fail; all that comes behind them is
computed (`runOn`), so the laws of a run are laws of this computation for every list of candidates and every
target.
-/

/-- The target of a run as it is selected. -/
def Target.file (t : Target) : ScopedFile :=
  ⟨t.candidate, .target, if t.isSensitive then .excluded else .full⟩

/-- What a run hands to selection. -/
def inputs (ctx : Context) (disk : Disk) (source : Changes.Source) (d : Directives)
    (candidates : List Candidate) (target : Option Target) : Inputs where
  candidates := candidates
  target := target.map (·.candidate)
  dependencies :=
    if d.treeShake then
      target.map fun t =>
        if target.any Target.isSensitive then []
        else Import.dependencies t.candidate ((ctx.repository disk).read? t.candidate.path) candidates
    else none
  changed := (gather d.changedOnly source.changed .changesUnavailable).1
  activity := (gather d.gitAware source.activity .activityUnavailable).1.map fun paths =>
    Sorting.ascending (paths.filter (!Secret.isSensitive ·))
  withhold := target.any Target.isSensitive

/-- The warnings of a run about its target. -/
def targetWarnings (target : Option Target) : List Warning :=
  target.toList.filterMap fun t =>
    if t.isSensitive then some (.sensitiveTarget t.candidate.path) else none

section

variable (ctx : Context) (disk : Disk) (source : Changes.Source) (d : Directives)
  (candidates : List Candidate) (target : Option Target)

theorem runOn_files :
    (ctx.runOn disk source d candidates target).files
      = rank (resolve (ctx.inputs disk source d candidates target) d).files d.maxFiles := rfl

theorem runOn_profile :
    (ctx.runOn disk source d candidates target).profile
      = Stack.profile (ctx.repository disk) candidates := rfl

theorem runOn_activity :
    (ctx.runOn disk source d candidates target).activity
      = (ctx.inputs disk source d candidates target).activity.getD [] := rfl

/-- The warnings of a run are about its target, about the lists that cannot be had, and from selection. -/
theorem runOn_warnings :
    (ctx.runOn disk source d candidates target).warnings
      = targetWarnings target ++ (gather d.changedOnly source.changed .changesUnavailable).2 ++
        (gather d.gitAware source.activity .activityUnavailable).2 ++
        (resolve (ctx.inputs disk source d candidates target) d).warnings := rfl

end

/-- A run that succeeds has walked the root, and located its target if it has one. -/
theorem run_eq_ok {ctx : Context} {disk : Disk} {source : Changes.Source} {d : Directives}
    {outcome : Outcome} (h : ctx.run disk source d = .ok outcome) :
    ∃ candidates target, Walk.candidates? disk.top ctx.root ctx.policy = some candidates ∧
      (d.target = none ∧ target = none ∨ ∃ raw t, d.target = some raw ∧ target = some t ∧
        ctx.locate disk candidates raw = .ok t) ∧
      outcome = ctx.runOn disk source d candidates target := by
  rw [run] at h
  split at h
  · cases h
  · next candidates hwalk =>
    split at h
    · next htarget =>
      cases h
      exact ⟨candidates, none, hwalk, .inl ⟨htarget, rfl⟩, rfl⟩
    · next raw htarget =>
      cases hlocate : ctx.locate disk candidates raw with
      | error e =>
        rw [hlocate] at h
        cases h
      | ok t =>
        rw [hlocate] at h
        cases h
        exact ⟨candidates, some t, hwalk, .inr ⟨raw, t, htarget, rfl, hlocate⟩, rfl⟩

/-- A run with a target that succeeds has located it. -/
theorem run_eq_ok_of_target {ctx : Context} {disk : Disk} {source : Changes.Source} {d : Directives}
    {outcome : Outcome} {raw : String} (h : ctx.run disk source d = .ok outcome)
    (htarget : d.target = some raw) :
    ∃ candidates t, Walk.candidates? disk.top ctx.root ctx.policy = some candidates ∧
      ctx.locate disk candidates raw = .ok t ∧
      outcome = ctx.runOn disk source d candidates (some t) := by
  obtain ⟨candidates, target, hwalk, ⟨hnone, -⟩ | ⟨raw', t, hraw, rfl, hlocate⟩, houtcome⟩ := run_eq_ok h
  · rw [htarget] at hnone
    cases hnone
  · rw [htarget, Option.some.injEq] at hraw
    subst hraw
    exact ⟨candidates, t, hwalk, hlocate, houtcome⟩

/-- A run without a target that succeeds has walked the root. -/
theorem run_eq_ok_of_target_eq_none {ctx : Context} {disk : Disk} {source : Changes.Source}
    {d : Directives} {outcome : Outcome} (h : ctx.run disk source d = .ok outcome)
    (htarget : d.target = none) :
    ∃ candidates, Walk.candidates? disk.top ctx.root ctx.policy = some candidates ∧
      outcome = ctx.runOn disk source d candidates none := by
  obtain ⟨candidates, target, hwalk, ⟨-, rfl⟩ | ⟨raw, t, hraw, -⟩, houtcome⟩ := run_eq_ok h
  · exact ⟨candidates, hwalk, houtcome⟩
  · rw [htarget] at hraw
    cases hraw

/-- A run whose target is located succeeds. -/
theorem run_of_locate {ctx : Context} {disk : Disk} {d : Directives} {candidates : List Candidate}
    {raw : String} {t : Target} (source : Changes.Source)
    (hwalk : Walk.candidates? disk.top ctx.root ctx.policy = some candidates)
    (htarget : d.target = some raw) (hlocate : ctx.locate disk candidates raw = .ok t) :
    ctx.run disk source d = .ok (ctx.runOn disk source d candidates (some t)) := by
  rw [run, hwalk]
  simp only [htarget, hlocate]
  rfl

/-- A run without a target succeeds where the walk does. -/
theorem run_of_target_eq_none {ctx : Context} {disk : Disk} {d : Directives}
    {candidates : List Candidate} (source : Changes.Source)
    (hwalk : Walk.candidates? disk.top ctx.root ctx.policy = some candidates)
    (htarget : d.target = none) :
    ctx.run disk source d = .ok (ctx.runOn disk source d candidates none) := by
  rw [run, hwalk]
  simp only [htarget]

/-! ## The files of a run

The budget keeps some of what is selected, and what is selected is the target or comes from the candidates of the
walk. Dependencies are candidates too, as imports are looked up among these.
-/

section

variable {ctx : Context} {disk : Disk} {source : Changes.Source} {d : Directives}
  {candidates : List Candidate} {target : Option Target}

/-- The selected target is the file of the target that was located. -/
theorem mem_targetFile_inputs {f : ScopedFile} :
    f ∈ (ctx.inputs disk source d candidates target).targetFile ↔ ∃ t, target = some t ∧ f = t.file := by
  rw [Inputs.mem_targetFile]
  cases target with
  | none => simp [inputs]
  | some t =>
    -- A target is withheld for its path or for where it leads, and selection asks for the path again.
    have hmode : t.isSensitive = true ∨ Secret.isSensitive t.candidate.path = true ↔
        t.isSensitive = true :=
      or_iff_left_of_imp fun h => by rw [Target.isSensitive, h, Bool.true_or]
    simp [inputs, Target.file, hmode]

/-- Dependencies are candidates of the walk. -/
theorem mem_candidates_of_dependencies {dependencies : List Candidate} {c : Candidate}
    (h : (ctx.inputs disk source d candidates target).dependencies = some dependencies)
    (hc : c ∈ dependencies) : c ∈ candidates := by
  simp only [inputs] at h
  split at h
  · rw [Option.map_eq_some_iff] at h
    obtain ⟨t, -, rfl⟩ := h
    split at hc
    · exact absurd hc List.not_mem_nil
    · exact Import.mem_dependencies hc
  · cases h

/-- A file of a run is its target, or one of the files that are selected beside the target. -/
theorem mem_others_of_mem_files_runOn {f : ScopedFile}
    (h : f ∈ (ctx.runOn disk source d candidates target).files) :
    (∃ t, target = some t ∧ f = t.file) ∨
      f ∈ (ctx.inputs disk source d candidates target).others d := by
  rw [runOn_files] at h
  exact (mem_resolve (mem_rank h)).imp_left mem_targetFile_inputs.mp

/-- A file of a run is its target, or a candidate that is no secret and is shown. -/
theorem mem_files_runOn {f : ScopedFile}
    (h : f ∈ (ctx.runOn disk source d candidates target).files) :
    (∃ t, target = some t ∧ f = t.file) ∨
      f.candidate ∈ candidates ∧ Secret.isSensitive f.path = false ∧ f.role ≠ .target ∧
        f.mode ≠ .excluded := by
  rcases mem_others_of_mem_files_runOn h with h | h
  · exact .inl h
  · obtain ⟨hmem, helig, hrole, hmode⟩ := Inputs.mem_others h
    refine .inr ⟨?_, (Inputs.isEligible_iff.mp helig).2, hrole,
      hmode ▸ Inputs.contextMode_ne_excluded _ d⟩
    rcases hmem with hmem | ⟨dependencies, hdeps, hmem⟩
    · exact hmem
    · exact mem_candidates_of_dependencies hdeps hmem

/-- The target stays within every budget. -/
theorem file_mem_runOn (t : Target) :
    t.file ∈ (ctx.runOn disk source d candidates (some t)).files := by
  rw [runOn_files]
  exact mem_rank_of_isRequired d.maxFiles (nodup_paths_resolve _ d)
    (targetFile_mem_resolve d (mem_targetFile_inputs.mpr ⟨t, rfl, rfl⟩)) rfl

/-- The only target among the files of a run is the one that was located. -/
theorem mem_files_runOn_target {f : ScopedFile} :
    f ∈ (ctx.runOn disk source d candidates target).files ∧ f.role = .target ↔
      ∃ t, target = some t ∧ f = t.file := by
  constructor
  · rintro ⟨hf, hrole⟩
    exact (mem_files_runOn hf).resolve_right fun h => h.2.2.1 hrole
  · rintro ⟨t, rfl, rfl⟩
    exact ⟨file_mem_runOn t, rfl⟩

/-! ## The warning about the target

The other parts of a run give other warnings, so whether there is one about the target depends on the target.
-/

theorem mem_warnings_gather {asked : Bool} {listing : Except Changes.Failure (List String)}
    {warning : String → Warning} {w : Warning} (h : w ∈ (gather asked listing warning).2) :
    ∃ reason, w = warning reason := by
  unfold gather at h
  split at h
  · split at h
    · exact absurd h List.not_mem_nil
    · exact ⟨_, List.mem_singleton.mp h⟩
  · exact absurd h List.not_mem_nil

theorem sensitiveTarget_notMem_resolve (i : Inputs) (d : Directives) (path : String) :
    Warning.sensitiveTarget path ∉ (resolve i d).warnings := by
  have hignored : Warning.sensitiveTarget path ∉ i.ignoredDirectives d := by
    simp [Inputs.ignoredDirectives]
  have hfocus : Warning.sensitiveTarget path ∉ i.focusWarnings d := by
    simp [Inputs.focusWarnings]
  cases htarget : i.target <;> cases hdeps : i.dependencies <;>
    simp [resolve, htarget, hdeps, hignored, hfocus]

/-- A run warns about a target exactly if it is withheld. -/
theorem sensitiveTarget_mem_runOn {path : String} :
    Warning.sensitiveTarget path ∈ (ctx.runOn disk source d candidates target).warnings ↔
      ∃ t, target = some t ∧ t.isSensitive = true ∧ t.candidate.path = path := by
  -- No other warning of a run is one about a target.
  have hchanged : Warning.sensitiveTarget path
      ∉ (gather d.changedOnly source.changed .changesUnavailable).2 := fun h => by
    obtain ⟨reason, heq⟩ := mem_warnings_gather h
    cases heq
  have hactivity : Warning.sensitiveTarget path
      ∉ (gather d.gitAware source.activity .activityUnavailable).2 := fun h => by
    obtain ⟨reason, heq⟩ := mem_warnings_gather h
    cases heq
  rw [runOn_warnings, List.mem_append, List.mem_append, List.mem_append]
  simp only [hchanged, hactivity, sensitiveTarget_notMem_resolve, or_false]
  cases target with
  | none => simp [targetWarnings]
  | some t =>
    cases hs : t.isSensitive
    · simp [targetWarnings, hs]
    · simp [targetWarnings, hs, @eq_comm _ path]

end

end Context

end RepoScope
