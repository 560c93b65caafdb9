import RepoScope.Proofs.NonInterference
import RepoScope.Proofs.Shape

/-!
# Tree shaking

A run with tree shaking hands on its target and the dependencies of the target, and nothing else plays a
part in which files these are. Dependencies come in the order of their paths, the target is not among them
(`Import.pairwise_dependencies`, `Import.path_ne_of_mem_dependencies`), and being candidates of the walk they
are no secrets, so selection takes all of them (`others_inputs_of_treeShake`). All are required, so the budget
cuts off none (`files_runOn_of_treeShake`).

* **`run_treeShake`**: the files are the target and its dependencies, whatever else is asked for
  (`ShakesExactly`). A target that is withheld comes alone, and what its path leads to makes no difference.
-/

namespace RepoScope

open Scope

/-! ## Dependencies

Dependencies are what the imports of the target lead to among the candidates. They come in the order of their
paths, each once, and without the target.
-/

namespace Import

theorem pairwise_dependencies (target : Candidate) (content : Option Bytes)
    (candidates : List Candidate) :
    (dependencies target content candidates).Pairwise fun a b => a.path < b.path := by
  unfold dependencies
  split
  · rw [dependenciesIn]
    refine (Sorting.pairwise_ascending _).filterMap _ fun p q hpq c hc c' hc' => ?_
    rw [Context.path_eq_of_find? hc, Context.path_eq_of_find? hc']
    exact hpq
  · exact List.Pairwise.nil

/-- Nothing depends on itself. -/
theorem path_ne_of_mem_dependencies {target : Candidate} {content : Option Bytes}
    {candidates : List Candidate} {c : Candidate}
    (h : c ∈ dependencies target content candidates) : c.path ≠ target.path := by
  unfold dependencies at h
  split at h
  · rw [dependenciesIn, List.mem_filterMap] at h
    obtain ⟨path, hpath, hfind⟩ := h
    rw [Context.path_eq_of_find? hfind]
    simpa using (List.mem_filter.mp (Sorting.mem_ascending.mp hpath)).2
  · exact absurd h List.not_mem_nil

end Import

namespace Context

section

variable {ctx : Context} {disk : Disk} {source : Changes.Source} {d : Directives}
  {candidates : List Candidate} {t : Target}

/-- What a run takes for the dependencies of its target: of a target that is withheld, none. -/
def shaken (ctx : Context) (disk : Disk) (candidates : List Candidate) (t : Target) :
    List Candidate :=
  if t.isSensitive then []
  else Import.dependencies t.candidate ((ctx.repository disk).read? t.candidate.path) candidates

theorem pairwise_shaken :
    (ctx.shaken disk candidates t).Pairwise fun a b => a.path < b.path := by
  rw [shaken]
  split
  · exact List.Pairwise.nil
  · exact Import.pairwise_dependencies _ _ _

theorem of_mem_shaken {c : Candidate} (h : c ∈ ctx.shaken disk candidates t) :
    c ∈ candidates ∧ c.path ≠ t.candidate.path := by
  rw [shaken] at h
  split at h
  · exact absurd h List.not_mem_nil
  · exact ⟨Import.mem_dependencies h, Import.path_ne_of_mem_dependencies h⟩

/-! ## The files of a run

All dependencies are eligible and required, so neither selection nor the budget takes one out.
-/

def dependencyFile (d : Directives) (c : Candidate) : ScopedFile :=
  ⟨c, .dependency, if d.skeletonContext then .skeleton else .full⟩

/-- Beside the target, its dependencies are selected, all of them. -/
theorem others_inputs_of_treeShake
    (hsecret : ∀ c ∈ candidates, Secret.isSensitive c.path = false) (hshake : d.treeShake = true) :
    (ctx.inputs disk source d candidates (some t)).others d
      = (ctx.shaken disk candidates t).map (dependencyFile d) := by
  have hdeps : (ctx.inputs disk source d candidates (some t)).dependencies
      = some (ctx.shaken disk candidates t) := by
    simp [inputs, shaken, hshake]
  have heligible : ∀ c ∈ ctx.shaken disk candidates t,
      (ctx.inputs disk source d candidates (some t)).isEligible c = true := by
    intro c hc
    obtain ⟨hmem, hpath⟩ := of_mem_shaken hc
    exact Inputs.isEligible_iff.mpr ⟨by simpa [inputs, Inputs.isTarget] using Ne.symm hpath,
      hsecret c hmem⟩
  have htarget : (ctx.inputs disk source d candidates (some t)).target = some t.candidate := rfl
  simp only [Inputs.others, htarget, hdeps]
  rw [List.filter_eq_self.mpr heligible, contextMode_inputs]
  rfl

/-- With tree shaking, a run hands on its target and all dependencies of it, in the order of their paths. -/
theorem files_runOn_of_treeShake
    (hsecret : ∀ c ∈ candidates, Secret.isSensitive c.path = false) (hshake : d.treeShake = true) :
    (ctx.runOn disk source d candidates (some t)).files
      = t.file :: (ctx.shaken disk candidates t).map (dependencyFile d) := by
  have hothers := @others_inputs_of_treeShake ctx disk source d candidates t hsecret hshake
  have hrequired : ∀ f ∈ (resolve (ctx.inputs disk source d candidates (some t)) d).files,
      f.role.isRequired = true := by
    intro f hf
    rcases mem_resolve hf with hf | hf
    · obtain ⟨t', -, rfl⟩ := mem_targetFile_inputs.mp hf
      rfl
    · rw [hothers] at hf
      obtain ⟨c, -, rfl⟩ := List.mem_map.mp hf
      rfl
  have hpaths : (((ctx.shaken disk candidates t).map (dependencyFile d)).map (·.path)).Nodup := by
    rw [List.map_map, List.Nodup, List.pairwise_map]
    exact pairwise_shaken.imp String.ne_of_lt
  rw [runOn_files, rank_of_isRequired d.maxFiles hrequired]
  -- Both lists are strictly in order, so it is enough that they have the same members.
  refine Sorting.eq_of_pairwise_of_mem_iff ScopedFile.standsBefore_asymm
    (pairwise_inRoleOrder (nodup_paths_resolve _ d)) ?_ fun f => ?_
  · refine List.pairwise_cons.mpr ⟨fun f hf => ?_, ?_⟩
    · obtain ⟨c, -, rfl⟩ := List.mem_map.mp hf
      exact .inl Nat.zero_lt_one
    · exact List.pairwise_map.mpr (pairwise_shaken.imp fun hlt => .inr ⟨rfl, hlt⟩)
  · rw [(perm_inRoleOrder (nodup_paths_resolve _ d)).mem_iff, mem_resolve_iff (hothers ▸ hpaths),
      mem_targetFile_inputs, hothers, List.mem_cons]
    simp

/-! ## Targets that are withheld

A target that is a secret, or leads to one, is not opened, and so nothing is known of what it imports.
-/

/-- No candidate of the walk has the path of a target that is withheld. -/
theorem StandsOn.path_ne_of_isSensitive {entries : Entries} (h : ctx.StandsOn disk entries)
    (hwalk : Walk.candidates? disk.top ctx.root ctx.policy = some candidates) {raw : String}
    (hlocate : ctx.locate disk candidates raw = .ok t) (hs : t.isSensitive = true) {c : Candidate}
    (hc : c ∈ candidates) : c.path ≠ t.candidate.path := by
  intro hpath
  obtain ⟨names, content, hl, hc, hsecret⟩ := h.exists_of_mem_candidates? hwalk hc
  obtain ⟨-, resolved, bytes, -, -, hresolved, hfollow⟩ := h.follow_located hlocate
  have hjoin : c.path = Path.join names := congrArg Candidate.path hc
  -- A candidate stands where its path leads, so such a target would be resolved to its own path.
  rw [← hpath, hjoin] at hfollow
  have hplace := h.follow_file hl hfollow
  rw [Node.Place.mk.injEq, List.append_cancel_left_eq] at hplace
  rw [Target.isSensitive, hresolved, hplace.1, ← hjoin, ← hpath, hsecret] at hs
  cases hs

/-- Where a target is located, its path depends on how it is named alone. -/
theorem path_of_locate {disk' : Disk} {candidates' : List Candidate} {t' : Target} {raw : String}
    (hlocate : ctx.locate disk candidates raw = .ok t)
    (hlocate' : ctx.locate disk' candidates' raw = .ok t') :
    t'.candidate.path = t.candidate.path := by
  obtain ⟨names, resolved, content, hfold, -, rfl⟩ := locate_eq_ok hlocate
  obtain ⟨names', resolved', content', hfold', -, rfl⟩ := locate_eq_ok hlocate'
  rw [hfold, List.append_cancel_left_eq] at hfold'
  subst hfold'
  exact (path_find?_getD candidates' (Path.join names) (Walk.candidateAt names content') rfl).trans
    (path_find?_getD candidates (Path.join names) (Walk.candidateAt names content) rfl).symm

/-- A run about a target that is withheld reads what candidates lead to, and nothing else. -/
theorem runOn_of_isSensitive {disk' : Disk} {t' : Target}
    (hsecret : ∀ c ∈ candidates, Secret.isSensitive c.path = false) (hshake : d.treeShake = true)
    (hs : t.isSensitive = true) (hs' : t'.isSensitive = true)
    (hpath : t'.candidate.path = t.candidate.path)
    (hfollow : ∀ c ∈ candidates,
      (ctx.repository disk').follow c.path = (ctx.repository disk).follow c.path) :
    ctx.runOn disk' source d candidates (some t')
      = { ctx.runOn disk source d candidates (some t) with files := [t'.file] } := by
  have hfiles : (ctx.runOn disk' source d candidates (some t')).files = [t'.file] := by
    rw [files_runOn_of_treeShake hsecret hshake, shaken, if_pos hs', List.map_nil]
  have hwarnings : (ctx.runOn disk' source d candidates (some t')).warnings
      = (ctx.runOn disk source d candidates (some t)).warnings := by
    have htarget : targetWarnings (some t') = targetWarnings (some t) := by
      simp [targetWarnings, hs, hs', hpath]
    have hresolve : (resolve (ctx.inputs disk' source d candidates (some t')) d).warnings
        = (resolve (ctx.inputs disk source d candidates (some t)) d).warnings := by
      simp [resolve, inputs, Inputs.ignoredDirectives, hshake]
    rw [runOn_warnings, runOn_warnings, htarget, hresolve]
  have hprofile := Stack.profile_congr hfollow
  calc ctx.runOn disk' source d candidates (some t')
      = ⟨(ctx.runOn disk' source d candidates (some t')).files,
          Stack.profile (ctx.repository disk') candidates,
          (ctx.runOn disk' source d candidates (some t')).warnings,
          (ctx.runOn disk source d candidates (some t)).activity⟩ := rfl
    _ = { ctx.runOn disk source d candidates (some t) with files := [t'.file] } := by
      rw [hfiles, hwarnings, hprofile]
      rfl

end

/-! ## The run as a whole

The files are stated for every budget, activity and focus area at once, since none of them plays a part.
-/

/-- What comes of tree shaking for a target that has been located among the candidates of the walk. -/
structure ShakesExactly (ctx : Context) (disk : Disk) (source : Changes.Source) (d : Directives)
    (candidates : List Candidate) (raw : String) (t : Target) (outcome : Outcome) : Prop where
  /-- A target that is shown is followed by all of its dependencies, however small the budget. -/
  shown : t.isSensitive = false →
    outcome.files = ⟨t.candidate, .target, .full⟩ ::
      (Import.dependencies t.candidate ((ctx.repository disk).read? t.candidate.path)
        candidates).map fun c => ⟨c, .dependency, if d.skeletonContext then .skeleton else .full⟩
  ascending : ((Import.dependencies t.candidate ((ctx.repository disk).read? t.candidate.path)
    candidates).map (·.path)).Pairwise (· < ·)
  /-- Nothing but the target decides which files these are. -/
  independent : ∀ source' d', d'.target = some raw → d'.treeShake = true →
    ∃ outcome', ctx.run disk source' d' = .ok outcome' ∧
      outcome'.files.map (·.path) = outcome.files.map (·.path)
  /-- A target that is withheld comes alone. -/
  withheld : t.isSensitive = true → outcome.files = [⟨t.candidate, .target, .excluded⟩]
  /--
  The text of a withheld target makes no difference: its path is not that of a candidate, and where the
  candidates and what they lead to are the same, so is the outcome.
  -/
  unread : t.isSensitive = true →
    (∀ c ∈ candidates, c.path ≠ t.candidate.path) ∧
    ∀ disk' t', Walk.candidates? disk'.top ctx.root ctx.policy = some candidates →
      ctx.locate disk' candidates raw = .ok t' → t'.isSensitive = true →
      (∀ c ∈ candidates,
        (ctx.repository disk').follow c.path = (ctx.repository disk).follow c.path) →
      ctx.run disk' source d
        = .ok { outcome with files := [⟨t'.candidate, .target, .excluded⟩] }

/-- A run with tree shaking on a located target succeeds, with the target and its dependencies. -/
theorem run_treeShake {disk : Disk} {here : List String} {root : String} {exclude : List String}
    {ctx : Context} {source : Changes.Source} {d : Directives} {candidates : List Candidate}
    {raw : String} {t : Target} (hproper : disk.top.isProper = true)
    (hopen : open? disk here root exclude = .ok ctx)
    (hwalk : Walk.candidates? disk.top ctx.root ctx.policy = some candidates)
    (htarget : d.target = some raw) (hshake : d.treeShake = true)
    (hlocate : ctx.locate disk candidates raw = .ok t) :
    ∃ outcome, ctx.run disk source d = .ok outcome ∧
      ShakesExactly ctx disk source d candidates raw t outcome := by
  obtain ⟨entries, hstands⟩ := exists_standsOn hproper hopen hwalk
  have hsecret : ∀ c ∈ candidates, Secret.isSensitive c.path = false := by
    intro c hc
    obtain ⟨-, -, -, -, hsecret⟩ := hstands.exists_of_mem_candidates? hwalk hc
    exact hsecret
  refine ⟨_, run_of_locate source hwalk htarget hlocate,
    ?shown, ?ascending, ?independent, ?withheld, ?unread⟩
  case shown =>
    intro hs
    rw [files_runOn_of_treeShake hsecret hshake, shaken, hs, Target.file, hs]
    rfl
  case ascending =>
    exact List.pairwise_map.mpr (Import.pairwise_dependencies _ _ _)
  case independent =>
    intro source' d' htarget' hshake'
    refine ⟨_, run_of_locate source' hwalk htarget' hlocate, ?_⟩
    rw [files_runOn_of_treeShake hsecret hshake, files_runOn_of_treeShake hsecret hshake',
      List.map_cons, List.map_cons, List.map_map, List.map_map]
    rfl
  case withheld =>
    intro hs
    rw [files_runOn_of_treeShake hsecret hshake, shaken, if_pos hs, Target.file, if_pos hs]
    rfl
  case unread =>
    intro hs
    refine ⟨fun c hc => hstands.path_ne_of_isSensitive hwalk hlocate hs hc, ?_⟩
    intro disk' t' hwalk' hlocate' hs' hfollow
    -- The other disk has the same path for the target, and a withheld target is not read.
    have hpath := path_of_locate hlocate hlocate'
    rw [run_of_locate source hwalk' htarget hlocate',
      runOn_of_isSensitive hsecret hshake hs hs' hpath hfollow, Target.file, if_pos hs']

/-- A root with a script that imports one of two others. -/
def importingEntries : Entries :=
  .cons ".env" (.file [1]) <|
  .cons "app.ts" (.file (Text.encode "import './lib';".toList)) <|
  .cons "lib.ts" (.file []) <|
  .cons "rest.ts" (.file []) .nil

def importingDisk : Disk := ⟨.dir (.cons "srv" (.dir importingEntries) .nil), none⟩

def importingContext : Context := ⟨["srv"], Ignore.Policy.load importingDisk ["srv"] []⟩

/-- A request about the script that leaves no room for other files. -/
def shakingDirectives : Directives :=
  { Directives.default with target := some "./lib/../app.ts", treeShake := true, maxFiles := 0 }

theorem run_treeShake_sample :
    ∃ candidates t outcome, importingDisk.top.isProper = true ∧
      open? importingDisk [] "srv" [] = .ok importingContext ∧
      Walk.candidates? importingDisk.top ["srv"] importingContext.policy = some candidates ∧
      importingContext.locate importingDisk candidates "./lib/../app.ts" = .ok t ∧
      importingContext.run importingDisk .unavailable shakingDirectives = .ok outcome ∧
      ShakesExactly importingContext importingDisk .unavailable shakingDirectives candidates
        "./lib/../app.ts" t outcome ∧
      outcome.files.map (·.path) = ["app.ts", "lib.ts"] := by
  have hproper : importingDisk.top.isProper = true := by decide
  have hopen : open? importingDisk [] "srv" [] = .ok importingContext := rfl
  have hwalk : Walk.candidates? importingDisk.top ["srv"] importingContext.policy
      = some [⟨"app.ts", 15, some "ts"⟩, ⟨"lib.ts", 0, some "ts"⟩, ⟨"rest.ts", 0, some "ts"⟩] := by
    decide +kernel
  have hlocate : importingContext.locate importingDisk
      [⟨"app.ts", 15, some "ts"⟩, ⟨"lib.ts", 0, some "ts"⟩, ⟨"rest.ts", 0, some "ts"⟩]
      "./lib/../app.ts" = .ok ⟨⟨"app.ts", 15, some "ts"⟩, "app.ts"⟩ := rfl
  obtain ⟨outcome, hrun, hshakes⟩ := @run_treeShake _ _ _ _ _ .unavailable shakingDirectives _ _ _
    hproper hopen hwalk rfl rfl hlocate
  refine ⟨_, _, outcome, hproper, hopen, hwalk, hlocate, hrun, hshakes, ?_⟩
  rw [hshakes.shown (by decide +kernel)]
  decide +kernel

end Context

end RepoScope
