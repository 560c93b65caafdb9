import RepoScope.Proofs.Secrecy

/-!
# Flags without effect

A request can ask for what is not to be had: the changed files or the files being edited where the
version control program does not tell them, and tree shaking or outlines without a target. Such flags are
switched off by `Directives.effective`. What is decided in a run is decided from the lists that were obtained
and from the target that was located, never from these flags (`inputs_effective`, `files_resolve_effective`),
so all that they leave behind is one warning each (`Directives.lossWarnings`).

* **`run_degrades`**: a run that succeeds gives what the run with the effective flags alone gives, and these
  warnings beside (`DegradesTo`).
-/

namespace RepoScope

open Scope

namespace Scope

/-! ## Effective flags

A flag has an effect if what it needs is there: a list of changed or edited files, or a target. The effective flags
keep those that have one; each of the others leaves a warning.
-/

/-- The directives with all flags switched off that have no effect. -/
def Directives.effective (d : Directives) (source : Changes.Source) : Directives :=
  { d with
    changedOnly := d.changedOnly && source.changed.isOk
    gitAware := d.gitAware && source.activity.isOk
    treeShake := d.treeShake && d.target.isSome
    skeletonContext := d.skeletonContext && d.target.isSome }

/-- The warning about a list that is asked for and cannot be had, with the reason. -/
def lossOf (isAsked : Bool) (listing : Except Changes.Failure (List String))
    (warning : String → Warning) : List Warning :=
  match isAsked, listing with
  | true, .error failure => [warning failure.message]
  | _, _ => []

/-- The warnings about flags without effect, one for each. -/
def Directives.lossWarnings (d : Directives) (source : Changes.Source) : List Warning :=
  lossOf d.changedOnly source.changed .changesUnavailable ++
  lossOf d.gitAware source.activity .activityUnavailable ++
  (if d.treeShake && d.target.isNone then [.directiveIgnored "tree shaking"] else []) ++
  (if d.skeletonContext && d.target.isNone then [.directiveIgnored "skeleton context"] else [])

/-- Whether a warning is about a flag without effect. -/
def Warning.isLoss : Warning → Bool
  | changesUnavailable _ | activityUnavailable _ | directiveIgnored _ => true
  | sensitiveTarget _ | noFocusMatches _ => false

/-! ## Selection

Selection never asks whether a flag was set for a list, only whether it was given one. For the two flags about a
target it asks for the target as well, so switching them off without a target changes nothing but the warnings.
-/

section

variable {i : Inputs} {d : Directives} (source : Changes.Source)
  (htarget : i.target.isSome = d.target.isSome)

/-- The warnings of a selection that are not about flags. -/
def Inputs.selectionWarnings (i : Inputs) (d : Directives) : List Warning :=
  match i.target, i.dependencies with
  | some _, some _ => []
  | _, _ => i.focusWarnings d

/-- The warnings of a selection are about flags that are ignored, and about what is found. -/
theorem warnings_resolve (i : Inputs) (d : Directives) :
    (resolve i d).warnings = i.ignoredDirectives d ++ i.selectionWarnings d := by
  cases htarget : i.target <;> cases hdeps : i.dependencies <;>
    simp [resolve, Inputs.selectionWarnings, htarget, hdeps]

include htarget in
/-- The mode of the context asks for a target too. -/
theorem contextMode_effective : i.contextMode (d.effective source) = i.contextMode d := by
  rw [Inputs.contextMode, Inputs.contextMode, Directives.effective, htarget]
  cases d.target.isSome <;> simp

include htarget in
/-- Selection sees the flags through what was obtained for them. -/
theorem files_resolve_effective :
    (resolve i (d.effective source)).files = (resolve i d).files := by
  have hmode := contextMode_effective source htarget
  have hothers : i.others (d.effective source) = i.others d := by
    simp only [Inputs.others, hmode]
    rfl
  rw [resolve_files, resolve_files, hothers]

include htarget in
theorem ignoredDirectives_eq :
    i.ignoredDirectives d =
      (if d.treeShake && d.target.isNone then [.directiveIgnored "tree shaking"] else []) ++
      (if d.skeletonContext && d.target.isNone then [.directiveIgnored "skeleton context"] else []) := by
  rw [Inputs.ignoredDirectives, htarget, ← Option.not_isSome]
  cases d.target.isSome <;> simp

include htarget in
/-- No effective flag is ignored. -/
theorem ignoredDirectives_effective : i.ignoredDirectives (d.effective source) = [] := by
  have htarget' : i.target.isSome = (d.effective source).target.isSome := htarget
  rw [ignoredDirectives_eq htarget', Directives.effective]
  cases d.target <;> simp

theorem isLoss_selectionWarnings {w : Warning} (h : w ∈ i.selectionWarnings d) :
    w.isLoss = false := by
  unfold Inputs.selectionWarnings at h
  split at h
  · exact absurd h List.not_mem_nil
  · rw [Inputs.focusWarnings] at h
    split at h
    · rw [List.mem_singleton.mp h]
      rfl
    · exact absurd h List.not_mem_nil

end

end Scope

namespace Context

/-! ## Lists that are asked for

A list that is asked for and cannot be had comes as no list and one warning.
-/

theorem gather_snd (isAsked : Bool) (listing : Except Changes.Failure (List String))
    (warning : String → Warning) : (gather isAsked listing warning).2 = lossOf isAsked listing warning := by
  cases isAsked <;> cases listing <;> rfl

/-- A list that cannot be had is the same as one that is not asked for. -/
theorem gather_effective (isAsked : Bool) (listing : Except Changes.Failure (List String))
    (warning : String → Warning) :
    gather (isAsked && listing.isOk) listing warning = ((gather isAsked listing warning).1, []) := by
  cases isAsked <;> cases listing <;> rfl

section

variable {ctx : Context} {disk : Disk} {source : Changes.Source} {d : Directives}
  {candidates : List Candidate} {target : Option Target}

/-- What a run hands to selection does not tell flags without effect from flags that are off. -/
theorem inputs_effective (htarget : target.isSome = d.target.isSome) :
    ctx.inputs disk source (d.effective source) candidates target
      = ctx.inputs disk source d candidates target := by
  simp only [inputs, Directives.effective, gather_effective, ← htarget]
  cases target <;> simp

theorem isLoss_targetWarnings {w : Warning} (h : w ∈ targetWarnings target) : w.isLoss = false := by
  obtain ⟨t, -, hw⟩ := List.mem_filterMap.mp h
  split at hw
  · rw [← Option.some.inj hw]
    rfl
  · cases hw

end

/-! ## The run as a whole

The outcome is compared part by part; the warnings about flags stand between those about the target and those of
selection.
-/

/-- How the outcome of a run looks beside that of the run with the effective flags alone. -/
structure DegradesTo (d : Directives) (source : Changes.Source) (outcome effective : Outcome) :
    Prop where
  files : outcome.files = effective.files
  profile : outcome.profile = effective.profile
  activity : outcome.activity = effective.activity
  /-- There is one more warning for each flag without effect, all in one place. -/
  warnings : ∃ before behind, effective.warnings = before ++ behind ∧
    outcome.warnings = before ++ d.lossWarnings source ++ behind
  /-- No other warning is about such a flag. -/
  noLoss : ∀ w ∈ effective.warnings, w.isLoss = false

/-- A run that succeeds gives what the effective flags give, and one warning for each of the others. -/
theorem run_degrades {ctx : Context} {disk : Disk} {source : Changes.Source} {d : Directives}
    {outcome : Outcome} (hrun : ctx.run disk source d = .ok outcome) :
    ∃ effective, ctx.run disk source (d.effective source) = .ok effective ∧
      DegradesTo d source outcome effective := by
  obtain ⟨candidates, target, hwalk, htarget, rfl⟩ := run_eq_ok hrun
  -- The walk and the target do not depend on the flags, so the other run succeeds as well.
  have hrun' : ctx.run disk source (d.effective source)
      = .ok (ctx.runOn disk source (d.effective source) candidates target) := by
    rcases htarget with ⟨hnone, rfl⟩ | ⟨raw, t, hraw, rfl, hlocate⟩
    · exact run_of_target_eq_none source hwalk hnone
    · exact run_of_locate source hwalk hraw hlocate
  have hsome : target.isSome = d.target.isSome := by
    rcases htarget with ⟨hnone, rfl⟩ | ⟨raw, t, hraw, rfl, -⟩
    · rw [hnone]
      rfl
    · rw [hraw]
      rfl
  have hinputs := @inputs_effective ctx disk source d candidates target hsome
  have hselected : (ctx.inputs disk source d candidates target).target.isSome = d.target.isSome := by
    rw [← hsome, inputs, Option.isSome_map]
  -- It obtains each list that it asks for, and has a target for each flag that needs one.
  have hwarnings : (ctx.runOn disk source (d.effective source) candidates target).warnings
      = targetWarnings target ++
        (ctx.inputs disk source d candidates target).selectionWarnings d := by
    have hchanged : (gather (d.effective source).changedOnly source.changed
        .changesUnavailable).2 = [] := congrArg Prod.snd (gather_effective _ _ _)
    have hactivity : (gather (d.effective source).gitAware source.activity
        .activityUnavailable).2 = [] := congrArg Prod.snd (gather_effective _ _ _)
    rw [runOn_warnings, hinputs, warnings_resolve, hchanged, hactivity,
      ignoredDirectives_effective source hselected, List.append_nil, List.append_nil,
      List.nil_append]
    rfl
  refine ⟨_, hrun', ?files, rfl, ?activity, ?warnings, ?noLoss⟩
  case files =>
    rw [runOn_files, runOn_files, hinputs, files_resolve_effective source hselected]
    rfl
  case activity =>
    rw [runOn_activity, runOn_activity, hinputs]
  case warnings =>
    refine ⟨targetWarnings target,
      (ctx.inputs disk source d candidates target).selectionWarnings d, hwarnings, ?_⟩
    rw [runOn_warnings, gather_snd, gather_snd, warnings_resolve, ignoredDirectives_eq hselected,
      Directives.lossWarnings]
    simp only [List.append_assoc]
  case noLoss =>
    intro w hw
    rw [hwarnings] at hw
    rcases List.mem_append.mp hw with hw | hw
    · exact isLoss_targetWarnings hw
    · exact isLoss_selectionWarnings hw

/-- A source that knows the files being edited, but not those that have changed. -/
def lossySource : Changes.Source := ⟨.error (.commandFailed "bad revision"), .ok ["lib/b.log"]⟩

/-- A request of which two of three flags have no effect. -/
def lossyDirectives : Directives :=
  { Directives.default with changedOnly := true, gitAware := true, treeShake := true }

theorem run_degrades_sample :
    ∃ outcome effective,
      sampleContext.run sampleDisk lossySource lossyDirectives = .ok outcome ∧
      sampleContext.run sampleDisk lossySource { Directives.default with gitAware := true }
        = .ok effective ∧
      DegradesTo lossyDirectives lossySource outcome effective ∧
      outcome.warnings = [.changesUnavailable "git command failed: bad revision",
        .directiveIgnored "tree shaking"] := by
  have hview : (sampleContext.run sampleDisk lossySource lossyDirectives).toOption.map
      (·.warnings) = some [.changesUnavailable "git command failed: bad revision",
        .directiveIgnored "tree shaking"] := by decide +kernel
  obtain ⟨outcome, hrun, hwarnings⟩ := exists_eq_ok_of_view hview
  obtain ⟨effective, hrun', hdegrades⟩ := run_degrades hrun
  exact ⟨outcome, effective, hrun, hrun', hdegrades, hwarnings⟩

end Context

end RepoScope
