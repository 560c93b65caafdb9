import RepoScope.Proofs.Secrecy

/-!
# The shape of an outcome

Whatever is asked for and whatever is known about changes, the files of a run stand strictly in the order
of their roles and paths (`pairwise_files_runOn`). The target is the first of them
(`exists_files_runOn_target`), since it has the most important role and required files survive every budget.
All others have the mode that the request asks for, and are dependencies all or none
(`of_mem_others_inputs`); the target alone is required where they are none, which bounds the number of
files (`length_files_runOn_le`).

* **`run_hasShape`**: every run that succeeds hands on files of this shape (`HasShape`).
-/

namespace RepoScope.Context

open Scope

section

variable {ctx : Context} {disk : Disk} {source : Changes.Source} {d : Directives}
  {candidates : List Candidate} {target : Option Target}

/-! ## Files beside the target

The mode of the request holds for all files but the target, and whether they are dependencies is decided for all of
them together.
-/

theorem isSome_dependencies_inputs :
    (ctx.inputs disk source d candidates target).dependencies.isSome = true ↔
      d.treeShake = true ∧ target.isSome = true := by
  cases hshake : d.treeShake <;> simp [inputs, hshake]

theorem contextMode_inputs :
    (ctx.inputs disk source d candidates target).contextMode d
      = if target.isSome && d.skeletonContext then .skeleton else .full := by
  simp [Inputs.contextMode, inputs]

/-- A file beside the target has the mode of the request, and is a dependency if only these are asked for. -/
theorem of_mem_others_inputs {f : ScopedFile}
    (h : f ∈ (ctx.inputs disk source d candidates target).others d) :
    f.role ≠ .target ∧
      f.mode = (if target.isSome && d.skeletonContext then .skeleton else .full) ∧
      (f.role = .dependency ↔ d.treeShake = true ∧ target.isSome = true) := by
  obtain ⟨-, -, hrole, hmode⟩ := Inputs.mem_others h
  refine ⟨hrole, hmode.trans contextMode_inputs, ?_⟩
  rw [Inputs.role_of_mem_others h, isSome_dependencies_inputs]
  refine and_iff_right_of_imp fun hshake => ?_
  simpa [inputs] using hshake.2

/-! ## Order and number of the files

The order is that of the cut. The target is before all others as its role comes first, and it is in every cut as it
is required.
-/

theorem pairwise_files_runOn :
    (ctx.runOn disk source d candidates target).files.Pairwise ScopedFile.StandsBefore :=
  pairwise_rank d.maxFiles (nodup_paths_resolve _ d)

theorem nodup_paths_files_runOn :
    ((ctx.runOn disk source d candidates target).files.map (·.path)).Nodup :=
  nodup_paths_rank d.maxFiles (nodup_paths_resolve _ d)

/-- The target is the first file of a run, and all others are selected beside it. -/
theorem exists_files_runOn_target (t : Target) :
    ∃ rest, (ctx.runOn disk source d candidates (some t)).files = t.file :: rest ∧
      ∀ f ∈ rest, f ∈ (ctx.inputs disk source d candidates (some t)).others d := by
  have horder : (ctx.runOn disk source d candidates (some t)).files.Pairwise
      ScopedFile.StandsBefore := pairwise_files_runOn
  have hirrefl : ∀ f : ScopedFile, ¬f.StandsBefore f := fun f hf =>
    ScopedFile.standsBefore_asymm f f hf hf
  have hcases : ∀ f ∈ (ctx.runOn disk source d candidates (some t)).files,
      f = t.file ∨ f ∈ (ctx.inputs disk source d candidates (some t)).others d := by
    intro f hf
    refine (mem_others_of_mem_files_runOn hf).imp_left ?_
    rintro ⟨t', ht', rfl⟩
    rw [Option.some.inj ht']
  have hfirst : ∀ f ∈ (ctx.runOn disk source d candidates (some t)).files,
      ¬f.StandsBefore t.file := by
    intro f hf hbefore
    rcases hcases f hf with rfl | hother
    · exact hirrefl _ hbefore
    · exact (of_mem_others_inputs hother).1 (ScopedFile.role_of_standsBefore hbefore rfl)
  obtain ⟨rest, hrest⟩ := Sorting.exists_eq_cons_of_pairwise horder (file_mem_runOn t) hfirst
  refine ⟨rest, hrest, fun f hf => ?_⟩
  rw [hrest] at horder hcases
  -- The target does not come again behind itself.
  refine (hcases f (List.mem_cons_of_mem _ hf)).resolve_left ?_
  rintro rfl
  exact hirrefl _ ((List.pairwise_cons.mp horder).1 t.file hf)

/-- Without dependencies, no file but a target exceeds the budget. -/
theorem length_files_runOn_le (h : d.treeShake = false ∨ target = none) :
    (ctx.runOn disk source d candidates target).files.length ≤ max d.maxFiles target.toList.length := by
  have hnodup := nodup_paths_resolve (ctx.inputs disk source d candidates target) d
  have hothers : ∀ f ∈ (ctx.inputs disk source d candidates target).others d,
      f.role.isRequired = false := by
    intro f hf
    obtain ⟨htarget, -, hdependency⟩ := of_mem_others_inputs hf
    rw [Bool.eq_false_iff]
    intro hreq
    obtain ⟨hshake, hsome⟩ := hdependency.mp ((Role.eq_of_isRequired hreq).resolve_left htarget)
    rcases h with h | rfl
    · rw [h] at hshake
      cases hshake
    · cases hsome
  suffices hcount : (resolve (ctx.inputs disk source d candidates target) d).files.countP
      (·.role.isRequired) ≤ target.toList.length by
    have hlength := length_rank_le d.maxFiles hnodup
    rw [runOn_files]
    omega
  cases target with
  | none =>
    refine Nat.le_of_eq (List.countP_eq_zero.mpr fun f hf => ?_)
    rcases mem_resolve hf with hf | hf
    · obtain ⟨t, ht, -⟩ := mem_targetFile_inputs.mp hf
      cases ht
    · rw [hothers f hf]
      exact Bool.false_ne_true
  | some t =>
    -- Only the target is required, and no path comes twice.
    have honce : (resolve (ctx.inputs disk source d candidates (some t)) d).files.count t.file ≤ 1 :=
      List.nodup_iff_count_le_one.mp (List.Nodup.of_map _ hnodup) t.file
    refine Nat.le_trans (List.countP_mono_left fun f hf hreq => ?_) honce
    rcases mem_resolve hf with hf | hf
    · obtain ⟨t', ht', rfl⟩ := mem_targetFile_inputs.mp hf
      rw [Option.some.inj ht']
      exact beq_self_eq_true _
    · rw [hothers f hf] at hreq
      cases hreq

end

/-! ## The shape

What has been said of the files is put together into one statement about every run that succeeds.
-/

/-- What the files of a run look like as a list. -/
structure HasShape (ctx : Context) (disk : Disk) (d : Directives) (outcome : Outcome) : Prop where
  /-- More important roles come first, and smaller paths among files of one role. -/
  increasing : outcome.files.Pairwise fun a b =>
    a.role.rank < b.role.rank ∨ a.role = b.role ∧ a.path < b.path
  distinct : (outcome.files.map (·.path)).Nodup
  /-- With a target, it comes first, shown unless it is withheld, and all other files are alike. -/
  target : ∀ raw, d.target = some raw →
    ∃ candidates t rest, Walk.candidates? disk.top ctx.root ctx.policy = some candidates ∧
      ctx.locate disk candidates raw = .ok t ∧
      outcome.files
        = ⟨t.candidate, .target, if t.isSensitive then .excluded else .full⟩ :: rest ∧
      (∀ f ∈ rest, f.role ≠ .target ∧ (f.role = .dependency ↔ d.treeShake = true) ∧
        f.mode = if d.skeletonContext then .skeleton else .full) ∧
      (d.treeShake = false → outcome.files.length ≤ max d.maxFiles 1)
  /-- Without a target, nothing is required, and everything is shown. -/
  noTarget : d.target = none →
    (∀ f ∈ outcome.files, f.role ≠ .target ∧ f.role ≠ .dependency ∧ f.mode = .full) ∧
      outcome.files.length ≤ d.maxFiles

/-- The files of every run that succeeds have this shape, however small the budget. -/
theorem run_hasShape {ctx : Context} {disk : Disk} {source : Changes.Source} {d : Directives}
    {outcome : Outcome} (hrun : ctx.run disk source d = .ok outcome) :
    HasShape ctx disk d outcome := by
  refine ⟨?increasing, ?distinct, ?target, ?noTarget⟩
  case increasing =>
    obtain ⟨candidates, target, -, -, rfl⟩ := run_eq_ok hrun
    exact pairwise_files_runOn
  case distinct =>
    obtain ⟨candidates, target, -, -, rfl⟩ := run_eq_ok hrun
    exact nodup_paths_files_runOn
  case target =>
    intro raw hraw
    obtain ⟨candidates, t, hwalk, hlocate, rfl⟩ := run_eq_ok_of_target hrun hraw
    obtain ⟨rest, hfiles, hrest⟩ := @exists_files_runOn_target ctx disk source d candidates t
    refine ⟨candidates, t, rest, hwalk, hlocate, hfiles, fun f hf => ?_, fun hshake => ?_⟩
    · obtain ⟨hrole, hmode, hdependency⟩ := of_mem_others_inputs (hrest f hf)
      exact ⟨hrole, by simpa using hdependency, by simpa using hmode⟩
    · exact length_files_runOn_le (.inl hshake)
  case noTarget =>
    intro hnone
    obtain ⟨candidates, -, rfl⟩ := run_eq_ok_of_target_eq_none hrun hnone
    -- Without a target all files come from beside it.
    refine ⟨fun f hf => ?_, by simpa using length_files_runOn_le (.inr rfl)⟩
    rcases mem_others_of_mem_files_runOn hf with ⟨t, ht, -⟩ | hother
    · cases ht
    · obtain ⟨hrole, hmode, hdependency⟩ := of_mem_others_inputs hother
      exact ⟨hrole, by simpa using hdependency, by simpa using hmode⟩

/-- A request about a link to a secret, with a budget that not all files fit. -/
def cappedDirectives : Directives :=
  { sampleDirectives with maxFiles := 2, skeletonContext := true }

theorem run_hasShape_sample :
    ∃ outcome, sampleContext.run sampleDisk .unavailable cappedDirectives = .ok outcome ∧
      outcome.files.map (fun f => (f.path, f.mode))
        = [("main.rs", .excluded), ("lib/a.rs", .skeleton)] ∧
      HasShape sampleContext sampleDisk cappedDirectives outcome := by
  have hview : (sampleContext.run sampleDisk .unavailable cappedDirectives).toOption.map
      (fun o => o.files.map fun f => (f.path, f.mode))
        = some [("main.rs", .excluded), ("lib/a.rs", .skeleton)] := by decide +kernel
  obtain ⟨outcome, hrun, hfiles⟩ := exists_eq_ok_of_view hview
  exact ⟨outcome, hrun, hfiles, run_hasShape hrun⟩

end RepoScope.Context
