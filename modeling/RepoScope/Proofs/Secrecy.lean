import RepoScope.Proofs.Loading
import RepoScope.Proofs.Location
import RepoScope.Proofs.Run

/-!
# Secrets stay where they are

The guarantee is put together from the walk, which lists no secrets, the location of the target, which
remembers where its path leads, the selection, which takes nothing but these, and loading:

* **`StandsOn.follow_shown`**: the path of a file that is not withheld leads to no secret.
* **`run_keepsSecrets`**: what a run hands on and what loading makes of it keep all secrets
  (`KeepsSecrets`).
-/

namespace RepoScope.Context

open Scope Content

/-- A located target is withheld exactly if its path, or the place that it leads to, is a secret. -/
theorem Target.file_mode_eq_excluded_iff {t : Target} :
    t.file.mode = .excluded ↔
      Secret.isSensitive t.file.path = true ∨ Secret.isSensitive t.resolved = true := by
  rw [← Bool.or_eq_true]
  change (if t.isSensitive then Mode.excluded else Mode.full) = .excluded ↔ t.isSensitive = true
  cases t.isSensitive <;> decide

/-- The path of a file that is not withheld leads to a regular file that is no secret, or nowhere. -/
theorem StandsOn.follow_shown {ctx : Context} {disk : Disk} {entries : Entries}
    (h : ctx.StandsOn disk entries) {source : Changes.Source} {d : Directives}
    {candidates : List Candidate} {target : Option Target}
    (hwalk : Walk.candidates? disk.top ctx.root ctx.policy = some candidates)
    (hlocated : ∀ t, target = some t → ∃ raw, ctx.locate disk candidates raw = .ok t)
    {f : ScopedFile} (hf : f ∈ (ctx.runOn disk source d candidates target).files)
    (hmode : f.mode ≠ .excluded) {place : Node.Place}
    (hfollow : (ctx.repository disk).follow f.path = some place) :
    ∃ names content, place = ⟨ctx.root ++ names, .file content⟩ ∧
      Secret.isSensitive (Path.join names) = false := by
  -- The target leads to the place that it was located at, a candidate to where it stands.
  rcases mem_files_runOn hf with ⟨t, ht, rfl⟩ | ⟨hmem, hsecret, -, -⟩
  · obtain ⟨raw, hlocate⟩ := hlocated t ht
    obtain ⟨names, resolved, content, -, hpath, hresolved, hplace⟩ := h.follow_located hlocate
    rw [ne_eq, Target.file_mode_eq_excluded_iff, not_or, hresolved] at hmode
    have heq : some place = some ⟨ctx.root ++ resolved, .file content⟩ := hfollow.symm.trans hplace
    exact ⟨resolved, content, Option.some.inj heq, by simpa using hmode.2⟩
  · obtain ⟨names, content, hl, hc, -⟩ := h.exists_of_mem_candidates? hwalk hmem
    have hpath : f.path = Path.join names := congrArg Candidate.path hc
    rw [hpath] at hfollow hsecret
    exact ⟨names, content, h.follow_file hl hfollow, hsecret⟩

/-- What it means that the outcome of a run keeps the secrets of the disk. -/
structure KeepsSecrets (ctx : Context) (disk : Disk) (d : Directives) (outcome : Outcome) : Prop where
  /-- A file beside the target is no secret, and a regular file that is reached without links. -/
  others : ∀ f ∈ outcome.files, f.role ≠ .target →
    Secret.isSensitive f.path = false ∧ ∃ names content, f.path = Path.join names ∧
      disk.top.lookup (ctx.root ++ names) = some (.file content)
  /-- The target is listed, and withheld exactly if its path or the place it leads to is a secret. -/
  target : ∀ raw, d.target = some raw →
    ∃ f names resolved content, (∀ g, g ∈ outcome.files ∧ g.role = .target ↔ g = f) ∧
      Path.foldAtTop (Path.piecesFrom ctx.root raw) = ctx.root ++ names ∧
      f.path = Path.join names ∧
      (ctx.repository disk).follow f.path = some ⟨ctx.root ++ resolved, .file content⟩ ∧
      (f.mode = .excluded ↔
        Secret.isSensitive f.path = true ∨ Secret.isSensitive (Path.join resolved) = true)
  /-- Without a target, no file is listed as one. -/
  noTarget : d.target = none → ∀ f ∈ outcome.files, f.role ≠ .target
  /-- The user is warned about the path of a target that is withheld, and about no other. -/
  warned : ∀ path, Warning.sensitiveTarget path ∈ outcome.warnings ↔
    ∃ f ∈ outcome.files, f.role = .target ∧ f.mode = .excluded ∧ f.path = path
  /-- Loading gives neither content nor hash of a file that is withheld. -/
  withheld : ∀ host countTokens,
    ∀ s ∈ (load (ctx.repository disk) countTokens outcome.files host).files,
    s.mode = .excluded → s.content = none ∧ s.hash = none
  /-- Content is the text of a regular file below the root that is no secret. -/
  opened : ∀ host countTokens,
    ∀ s ∈ (load (ctx.repository disk) countTokens outcome.files host).files,
    ∀ text, s.content = some text →
      ∃ f ∈ outcome.files, f.path = s.path ∧ ∃ names content,
        (ctx.repository disk).follow f.path = some ⟨ctx.root ++ names, .file content⟩ ∧
        Secret.isSensitive (Path.join names) = false ∧
        text = String.ofList (shownText f (Text.decodeLossy content))

/--
The security of a run: in a context that was opened on a disk, whatever is asked for and whatever is known
about changes, a run that succeeds keeps the secrets of the disk.
-/
theorem run_keepsSecrets {disk : Disk} {here : List String} {root : String} {exclude : List String}
    {ctx : Context} {source : Changes.Source} {d : Directives} {outcome : Outcome}
    (hproper : disk.top.isProper = true) (hopen : open? disk here root exclude = .ok ctx)
    (hrun : ctx.run disk source d = .ok outcome) : KeepsSecrets ctx disk d outcome := by
  obtain ⟨candidates, target, hwalk, htarget, rfl⟩ := run_eq_ok hrun
  obtain ⟨place, entries, hroot⟩ := Walk.exists_dir_of_candidates? hwalk
  have hstands : ctx.StandsOn disk entries := (isOpenOn_of_open? hopen).standsOn hproper hroot
  -- A target that a run goes on with has been located.
  have hlocated : ∀ t, target = some t → ∃ raw, ctx.locate disk candidates raw = .ok t := by
    rintro t rfl
    rcases htarget with ⟨-, hnone⟩ | ⟨raw, t', -, ht', hlocate⟩
    · cases hnone
    · cases ht'
      exact ⟨raw, hlocate⟩
  refine ⟨?others, ?target, ?noTarget, ?warned, ?withheld, ?opened⟩
  case others =>
    intro f hf hrole
    -- Files beside the target are candidates, and the walk has admitted these.
    rcases mem_files_runOn hf with ⟨t, -, rfl⟩ | ⟨hmem, hsecret, -, -⟩
    · exact absurd rfl hrole
    · obtain ⟨names, content, hl, hc, -⟩ := hstands.exists_of_mem_candidates? hwalk hmem
      exact ⟨hsecret, names, content, congrArg Candidate.path hc, hl⟩
  case target =>
    intro raw hraw
    rcases htarget with ⟨hnone, -⟩ | ⟨raw', t, hraw', rfl, hlocate⟩
    · rw [hraw] at hnone
      cases hnone
    · rw [hraw, Option.some.injEq] at hraw'
      subst hraw'
      obtain ⟨names, resolved, content, hfold, hpath, hresolved, hfollow⟩ :=
        hstands.follow_located hlocate
      refine ⟨t.file, names, resolved, content, fun g => ?_, hfold, hpath, hfollow, ?_⟩
      · rw [mem_files_runOn_target]
        simp
      · rw [← hresolved]
        exact Target.file_mode_eq_excluded_iff
  case noTarget =>
    intro hnone f hf hrole
    obtain ⟨t, rfl, -⟩ := mem_files_runOn_target.mp ⟨hf, hrole⟩
    rcases htarget with ⟨-, hnone'⟩ | ⟨raw, _, hraw, -, -⟩
    · cases hnone'
    · rw [hraw] at hnone
      cases hnone
  case warned =>
    intro path
    rw [sensitiveTarget_mem_runOn]
    constructor
    · rintro ⟨t, rfl, hs, rfl⟩
      exact ⟨t.file, file_mem_runOn t, rfl, if_pos hs, rfl⟩
    · rintro ⟨f, hf, hrole, hmode, rfl⟩
      obtain ⟨t, ht, rfl⟩ := mem_files_runOn_target.mp ⟨hf, hrole⟩
      refine ⟨t, ht, ?_, rfl⟩
      rw [Target.file_mode_eq_excluded_iff, ← Bool.or_eq_true] at hmode
      exact hmode
  case withheld =>
    intro host countTokens s hs hmode
    obtain ⟨f, -, hyields⟩ := mem_files_load.mp hs
    have hbare : s = bare f := hyields.bare_of_excluded (hyields.same.2.2 ▸ hmode)
    rw [hbare]
    exact ⟨rfl, rfl⟩
  case opened =>
    intro host countTokens s hs text htext
    obtain ⟨f, hf, hyields⟩ := mem_files_load.mp hs
    obtain ⟨hmode, place, content, hfollow, htext⟩ := hyields.follow_of_content htext
    -- The place that was read is the one that is known to hold no secret.
    obtain ⟨names, content', hplace, hsecret⟩ :=
      hstands.follow_shown hwalk hlocated hf hmode hfollow
    rw [Node.Place.mk.injEq, Node.file.injEq] at hplace
    obtain ⟨rfl, rfl⟩ := hplace
    exact ⟨f, hf, hyields.same.1.symm, names, content, hfollow, hsecret, htext⟩

/-- The sample of the walk as a disk. -/
def sampleDisk : Disk := ⟨Walk.sampleTop, none⟩

/-- The sample opened with the built-in rules. -/
def sampleContext : Context := ⟨["srv"], Ignore.Policy.load sampleDisk ["srv"] []⟩

/-- A request about a link that leads to a secret. -/
def sampleDirectives : Directives := { Directives.default with target := some "main.rs" }

theorem isOk_run_sample :
    (sampleContext.run sampleDisk .unavailable sampleDirectives).isOk = true := by
  decide +kernel

theorem run_keepsSecrets_sample :
    ∃ outcome, open? sampleDisk [] "srv" [] = .ok sampleContext ∧
      sampleContext.run sampleDisk .unavailable sampleDirectives = .ok outcome ∧
      KeepsSecrets sampleContext sampleDisk sampleDirectives outcome := by
  have hopen : open? sampleDisk [] "srv" [] = .ok sampleContext := rfl
  have hok := isOk_run_sample
  cases hrun : sampleContext.run sampleDisk .unavailable sampleDirectives with
  | error e =>
    rw [hrun] at hok
    cases hok
  | ok outcome => exact ⟨outcome, hopen, rfl, run_keepsSecrets (by decide) hopen hrun⟩

end RepoScope.Context
