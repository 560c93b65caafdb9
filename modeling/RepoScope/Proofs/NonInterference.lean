import RepoScope.Proofs.Agreement
import RepoScope.Proofs.Loading
import RepoScope.Proofs.Secrecy

/-!
# Secrets do not show in results

Two runs on trees that differ in the bytes of secrets alone cannot be told apart. Every read of a run is
shown to go to the same file in both trees: those of the profile go to candidates (`profile_congr`), the
one for the dependencies goes to a target that is not withheld (`locate_agree`), and loading opens
nothing but such files (`follow_shown_agree`). The size of a withheld target may differ, but neither
selection nor loading looks at it.

* **`run_noninterference`**: both runs fail with the same error, or their outcomes look alike
  (`LooksLike`).
-/

namespace RepoScope

open Scope Content

/-! ## The profile

The profile reads manifests that are candidates, and the paths of candidates lead to the same bytes in both trees.
-/

/-- What is read depends on what the path leads to. -/
theorem Repository.readText?_congr {repo repo' : Repository} {path : String}
    (h : repo.follow path = repo'.follow path) : repo.readText? path = repo'.readText? path := by
  rw [follow, follow] at h
  rw [readText?, readText?, Node.readText?, Node.readText?, Node.read?, Node.read?, h]

/-- The profile reads no files but candidates. -/
theorem Stack.profile_congr {repo repo' : Repository} {candidates : List Candidate}
    (h : ∀ c ∈ candidates, repo.follow c.path = repo'.follow c.path) :
    profile repo candidates = profile repo' candidates := by
  have hread : ∀ c ∈ candidates, repo.readText? c.path = repo'.readText? c.path := fun c hc =>
    Repository.readText?_congr (h c hc)
  have hsignals : signals repo candidates = signals repo' candidates := by
    rw [signals, signals]
    refine List.filterMap_congr fun (name, inspect) _ => ?_
    simp only []
    split
    · next hany =>
      obtain ⟨c, hc, hpath⟩ := List.any_eq_true.mp hany
      rw [← eq_of_beq hpath, hread c hc]
    · rfl
  -- The style of functions is told from samples, which are candidates too.
  have harrows : prefersArrows repo candidates = prefersArrows repo' candidates := by
    have htexts : ∀ samples : List Candidate, (∀ c ∈ samples, c ∈ candidates) →
        samples.filterMap (fun c => repo.readText? c.path)
          = samples.filterMap (fun c => repo'.readText? c.path) := fun samples hsub =>
      List.filterMap_congr fun c hc => hread c (hsub c hc)
    rw [prefersArrows, prefersArrows]
    simp only []
    rw [htexts _ fun c hc => List.mem_of_mem_filter (List.mem_of_mem_take hc)]
  rw [profile, profile, hsignals, harrows]

namespace Context

variable {ctx : Context} {disk disk' : Disk} {entries entries' : Entries}

/-! ## The target

A target is located by following its path, which leads to the same place in both trees. What it leads to may differ
in its bytes if it is a secret, and then the target is withheld: only the size that it was found with can differ.
-/

/-- How the targets of two runs may differ: in the size of a target that is withheld. -/
inductive TargetsAlike (ctx : Context) (disk disk' : Disk) : Option Target → Option Target → Prop
  | none : TargetsAlike ctx disk disk' none none
  | shown (t : Target) (h : t.isSensitive = false)
      (hfollow : (ctx.repository disk).follow t.candidate.path
        = (ctx.repository disk').follow t.candidate.path) :
      TargetsAlike ctx disk disk' (some t) (some t)
  | withheld (t : Target) (size : Nat) (h : t.isSensitive = true) :
      TargetsAlike ctx disk disk' (some t)
        (some { t with candidate := { t.candidate with size } })

/-- A candidate that the walk has not listed differs in its size alone between two contents. -/
theorem find?_getD_resize (candidates : List Candidate) (names : List String)
    (content content' : Bytes) :
    ∃ size, (candidates.find? (·.path == Path.join names)).getD (Walk.candidateAt names content')
      = { (candidates.find? (·.path == Path.join names)).getD (Walk.candidateAt names content) with
          size } := by
  cases candidates.find? (·.path == Path.join names) with
  | none => exact ⟨content'.length, rfl⟩
  | some c => exact ⟨c.size, rfl⟩

/-- A target is refused in both trees for the same reason. -/
theorem locate_error_agree (h : Node.AgreeBelow ctx.root disk.top disk'.top)
    {candidates : List Candidate} {raw : String} {e : Error}
    (hlocate : ctx.locate disk candidates raw = .error e) :
    ctx.locate disk' candidates raw = .error e := by
  rw [locate] at hlocate ⊢
  split at hlocate
  · exact hlocate
  · next names hnames =>
    cases hfollow : disk.top.follow (Path.foldAtTop (Path.piecesFrom ctx.root raw)) with
    | none =>
      rw [hfollow] at hlocate
      rw [h.follow_eq_none hfollow]
      exact hlocate
    | some place =>
      obtain ⟨node', hfollow', halike⟩ := h.follow_alike hfollow
      rw [hfollow] at hlocate
      rw [hfollow']
      simp only [] at hlocate ⊢
      cases hresolved : ctx.root.isPrefixOf? place.names with
      | none =>
        rw [hresolved] at hlocate
        exact hlocate
      | some resolved =>
        -- Behind all tests, a target is refused for its kind, which is the same in both trees.
        rw [hresolved] at hlocate
        generalize place.node = node at hlocate halike
        cases halike with
        | link target => exact hlocate
        | dir entries entries' => exact hlocate
        | file content content' _ => cases hlocate

/-- A target is refused in both trees for the same reason, or located alike in both. -/
theorem StandsOn.locate_agree (h : Node.AgreeBelow ctx.root disk.top disk'.top)
    (hstands : ctx.StandsOn disk entries) (candidates : List Candidate) (raw : String) :
    (∃ e, ctx.locate disk candidates raw = .error e ∧ ctx.locate disk' candidates raw = .error e) ∨
    ∃ t t', ctx.locate disk candidates raw = .ok t ∧ ctx.locate disk' candidates raw = .ok t' ∧
      TargetsAlike ctx disk disk' (some t) (some t') := by
  cases hlocate : ctx.locate disk candidates raw with
  | error e => exact .inl ⟨e, rfl, locate_error_agree h hlocate⟩
  | ok t =>
    right
    obtain ⟨names, resolved, content, hfold, hfollow, rfl⟩ := locate_eq_ok hlocate
    obtain ⟨content', hfollow', hsame⟩ := h.follow_file hfollow
    have hlocate' : ctx.locate disk' candidates raw
        = .ok ⟨(candidates.find? (·.path == Path.join names)).getD
          (Walk.candidateAt names content'), Path.join resolved⟩ := by
      have hnames : ctx.root.isPrefixOf? (ctx.root ++ names) = some names := by simp
      have hresolved : ctx.root.isPrefixOf? (ctx.root ++ resolved) = some resolved := by simp
      rw [locate, hfold]
      simp only [hnames, hfollow', hresolved]
      rfl
    refine ⟨_, _, rfl, hlocate', ?_⟩
    -- A target that is no secret has the same bytes in both trees, and so the same size.
    cases hsecret : Target.isSensitive ⟨(candidates.find? (·.path == Path.join names)).getD
        (Walk.candidateAt names content), Path.join resolved⟩ with
    | true =>
      obtain ⟨size, hsize⟩ := find?_getD_resize candidates names content content'
      rw [hsize]
      exact .withheld _ size hsecret
    | false =>
      have hresolved : Secret.isSensitive (Path.join resolved) = false :=
        (Bool.or_eq_false_iff.mp hsecret).2
      have hcontent : content = content' := hsame.resolve_left (not_isSecretPlace hresolved)
      subst hcontent
      refine .shown _ hsecret ?_
      obtain ⟨_, resolved', bytes, -, -, hplace, hread⟩ := hstands.follow_located hlocate
      obtain ⟨bytes', hread', hbytes⟩ := h.follow_file hread
      rw [← hbytes.resolve_left (not_isSecretPlace (hplace ▸ hresolved))] at hread'
      exact hread.trans hread'.symm

/-! ## The outcomes

Outcomes are compared field by field, files without the size of a withheld target, and what loading makes of them
on any host. The run is taken apart into its steps, each with its lemma above.
-/

/-- How the outcome of a run looks like that of a run in another tree. -/
structure LooksLike (ctx : Context) (disk disk' : Disk) (o o' : Outcome) : Prop where
  files : o.files.map (fun f => (f.path, f.role, f.mode))
    = o'.files.map (fun f => (f.path, f.role, f.mode))
  profile : o.profile = o'.profile
  warnings : o.warnings = o'.warnings
  activity : o.activity = o'.activity
  loaded : ∀ host countTokens, load (ctx.repository disk) countTokens o.files host
    = load (ctx.repository disk') countTokens o'.files host

/-- Of targets that are located alike, selection is given the same but for the size of a withheld one. -/
theorem resolve_inputs_agree {target target' : Option Target}
    (htarget : TargetsAlike ctx disk disk' target target') (source : Changes.Source)
    (d : Directives) (candidates : List Candidate) :
    (resolve (ctx.inputs disk source d candidates target) d).files.map ScopedFile.sizeless
      = (resolve (ctx.inputs disk' source d candidates target') d).files.map ScopedFile.sizeless ∧
    (resolve (ctx.inputs disk source d candidates target) d).warnings
      = (resolve (ctx.inputs disk' source d candidates target') d).warnings := by
  cases htarget with
  | none => exact ⟨rfl, rfl⟩
  | shown t hsecret hfollow =>
    have hread : (ctx.repository disk).read? t.candidate.path
        = (ctx.repository disk').read? t.candidate.path := by
      rw [Repository.follow, Repository.follow] at hfollow
      rw [Repository.read?, Repository.read?, Node.read?, Node.read?, hfollow]
    have hinputs : ctx.inputs disk source d candidates (some t)
        = ctx.inputs disk' source d candidates (some t) := by
      simp only [inputs, Option.map_some, hread]
    rw [hinputs]
    exact ⟨rfl, rfl⟩
  | withheld t size hsecret =>
    -- The text of a withheld target is not asked for, so nothing but its size can differ.
    have hsecret' : Target.isSensitive { t with candidate := { t.candidate with size } } = true :=
      hsecret
    have hinputs : ctx.inputs disk' source d candidates
          (some { t with candidate := { t.candidate with size } })
        = { ctx.inputs disk source d candidates (some t) with
            target := some { t.candidate with size } } := by
      simp [inputs, hsecret, hsecret']
    have hresize := resolve_resize (ctx.inputs disk source d candidates (some t)) d t.candidate size
    rw [hinputs]
    exact ⟨hresize.1.symm, hresize.2.symm⟩

/-- Targets that are located alike give the same warnings. -/
theorem targetWarnings_agree {target target' : Option Target}
    (htarget : TargetsAlike ctx disk disk' target target') :
    targetWarnings target = targetWarnings target' := by
  cases htarget <;> rfl

/-- The path of a file that is not withheld leads to the same in both trees. -/
theorem StandsOn.follow_shown_agree (h : Node.AgreeBelow ctx.root disk.top disk'.top)
    (hstands : ctx.StandsOn disk entries) {source : Changes.Source} {d : Directives}
    {candidates : List Candidate} {target target' : Option Target}
    (hwalk : Walk.candidates? disk.top ctx.root ctx.policy = some candidates)
    (htarget : TargetsAlike ctx disk disk' target target') {f : ScopedFile}
    (hf : f ∈ (ctx.runOn disk source d candidates target).files) :
    f.mode = .excluded ∨
      (ctx.repository disk).follow f.path = (ctx.repository disk').follow f.path := by
  rcases mem_files_runOn hf with ⟨t, ht, rfl⟩ | ⟨hmem, -, -, -⟩
  · subst ht
    cases htarget with
    | shown t hsecret hfollow => exact .inr hfollow
    | withheld t size hsecret => exact .inl (if_pos hsecret)
  · exact .inr (hstands.follow_candidate_agree h hwalk hmem)

/-- Runs on the same candidates with targets that are located alike have outcomes that look alike. -/
theorem StandsOn.runOn_looksLike (h : Node.AgreeBelow ctx.root disk.top disk'.top)
    (hstands : ctx.StandsOn disk entries) (source : Changes.Source) (d : Directives)
    {candidates : List Candidate} {target target' : Option Target}
    (hwalk : Walk.candidates? disk.top ctx.root ctx.policy = some candidates)
    (htarget : TargetsAlike ctx disk disk' target target') :
    LooksLike ctx disk disk' (ctx.runOn disk source d candidates target)
      (ctx.runOn disk' source d candidates target') := by
  obtain ⟨hresolve, hwarnings⟩ := resolve_inputs_agree htarget source d candidates
  -- The cut at the budget looks at paths and roles, so it can be made after the sizes have been dropped.
  have hfiles : (ctx.runOn disk source d candidates target).files.map ScopedFile.sizeless
      = (ctx.runOn disk' source d candidates target').files.map ScopedFile.sizeless := by
    rw [runOn_files, runOn_files, ← rank_map ScopedFile.sizeless_path ScopedFile.sizeless_role,
      ← rank_map ScopedFile.sizeless_path ScopedFile.sizeless_role, hresolve]
  refine ⟨?selected, ?profile, ?warnings, ?activity, ?loaded⟩
  case selected =>
    have hview := congrArg (List.map fun f : ScopedFile => (f.path, f.role, f.mode)) hfiles
    rw [List.map_map, List.map_map] at hview
    exact hview
  case profile =>
    rw [runOn_profile, runOn_profile]
    exact Stack.profile_congr fun c hc => hstands.follow_candidate_agree h hwalk hc
  case warnings =>
    rw [runOn_warnings, runOn_warnings, targetWarnings_agree htarget, hwarnings]
  case activity => rfl
  case loaded =>
    intro host countTokens
    exact load_congr rfl hfiles fun f hf =>
      (hstands.follow_shown_agree h hwalk htarget hf).imp_right (h.reach_eq host.access)

/--
Non-interference: of two trees that differ at most in the bytes of secrets below the root, a run fails with
the same error on both, or succeeds on both with outcomes that look alike, also when they are loaded.
-/
theorem run_noninterference {ctx : Context} {disk disk' : Disk} (source : Changes.Source)
    (d : Directives) (hproper : disk.top.isProper = true) (hproper' : disk'.top.isProper = true)
    (hopen : ctx.IsOpenOn disk) (h : Node.AgreeBelow ctx.root disk.top disk'.top) :
    (∃ e, ctx.run disk source d = .error e ∧ ctx.run disk' source d = .error e) ∨
    ∃ o o', ctx.run disk source d = .ok o ∧ ctx.run disk' source d = .ok o' ∧
      LooksLike ctx disk disk' o o' := by
  cases hwalk : Walk.candidates? disk.top ctx.root ctx.policy with
  | none =>
    -- The walk fails in both trees, for the same reason.
    have hwalk' : Walk.candidates? disk'.top ctx.root ctx.policy = none := by
      cases hsome : Walk.candidates? disk'.top ctx.root ctx.policy with
      | none => rfl
      | some files =>
        obtain ⟨place, entries', hroot'⟩ := Walk.exists_dir_of_candidates? hsome
        obtain ⟨entries, hroot⟩ := h.symm.follow_dir hroot'
        rw [Walk.candidates?_eq_some ctx.policy hroot] at hwalk
        cases hwalk
    have hexists : disk.top.existsAt ctx.root = disk'.top.existsAt ctx.root := by
      have hnames := congrArg Option.isSome (Node.follow_names h ctx.root)
      rw [Option.isSome_map, Option.isSome_map] at hnames
      exact hnames
    rw [run, run, hwalk, hwalk', ← hexists]
    exact .inl ⟨_, rfl, rfl⟩
  | some candidates =>
    obtain ⟨place, entries, hroot⟩ := Walk.exists_dir_of_candidates? hwalk
    obtain ⟨entries', hroot'⟩ := h.follow_dir hroot
    -- The walk succeeds in both, with the same candidates.
    have hstands : ctx.StandsOn disk entries := hopen.standsOn hproper hroot
    have hstands' : ctx.StandsOn disk' entries' := (hopen.agree h).standsOn hproper' hroot'
    have hwalk' : Walk.candidates? disk'.top ctx.root ctx.policy = some candidates :=
      (hstands.candidates?_agree h hstands').symm.trans hwalk
    rw [run, run, hwalk, hwalk']
    cases d.target with
    | none => exact .inr ⟨_, _, rfl, rfl, hstands.runOn_looksLike h source d hwalk .none⟩
    | some raw =>
      -- The target is refused in both, or located alike.
      rcases hstands.locate_agree h candidates raw with ⟨e, he, he'⟩ | ⟨t, t', ht, ht', halike⟩
      · refine .inl ⟨e, ?_, ?_⟩
        · simp only [he]
          rfl
        · simp only [he']
          rfl
      · refine .inr ⟨_, _, ?_, ?_, hstands.runOn_looksLike h source d hwalk halike⟩
        · simp only [ht]
          rfl
        · simp only [ht']
          rfl

/-- The sample with another text in its secrets. -/
def otherEntries : Entries :=
  .cons ".env" (.file []) <|
  .cons ".cache" (.dir (.cons "a.rs" (.file [2]) .nil)) <|
  .cons "lib" (.dir (
    .cons "a.rs" (.file [3]) <|
    .cons "b.log" (.file [4]) <|
    .cons "keep.log" (.file [5]) <|
    .cons "key.pem" (.file [7, 8, 9]) .nil)) <|
  .cons "main.rs" (.link "lib/key.pem") .nil

def otherDisk : Disk := ⟨.dir (.cons "srv" (.dir otherEntries) .nil), none⟩

theorem agreeBelow_sample : Node.AgreeBelow ["srv"] sampleDisk.top otherDisk.top := by
  have hkey : Node.AgreeAt ["srv"] (["srv"] ++ ["lib", "key.pem"]) (.file [6]) (.file [7, 8, 9]) :=
    .secret (by decide +kernel) _ _
  have hlib : Node.AgreeAt ["srv"] ["srv", "lib"]
      (.dir (.cons "a.rs" (.file [3]) <| .cons "b.log" (.file [4]) <|
        .cons "keep.log" (.file [5]) <| .cons "key.pem" (.file [6]) .nil))
      (.dir (.cons "a.rs" (.file [3]) <| .cons "b.log" (.file [4]) <|
        .cons "keep.log" (.file [5]) <| .cons "key.pem" (.file [7, 8, 9]) .nil)) :=
    .cons (.refl _ _ _) (.cons (.refl _ _ _) (.cons (.refl _ _ _) (.cons hkey (.refl _ _ _))))
  have henv : Node.AgreeAt ["srv"] (["srv"] ++ [".env"]) (.file [1]) (.file []) :=
    .secret (by decide +kernel) _ _
  exact Node.AgreeAt.agreeBelow (.cons (.cons henv (.cons (.refl _ _ _) (.cons hlib (.refl _ _ _))))
    (.refl _ _ _))

theorem run_noninterference_sample :
    sampleDisk.top.isProper = true ∧ otherDisk.top.isProper = true ∧
    sampleContext.IsOpenOn sampleDisk ∧
    Node.AgreeBelow sampleContext.root sampleDisk.top otherDisk.top ∧
    ∃ o o', sampleContext.run sampleDisk .unavailable sampleDirectives = .ok o ∧
      sampleContext.run otherDisk .unavailable sampleDirectives = .ok o' ∧
      LooksLike sampleContext sampleDisk otherDisk o o' := by
  have hproper : sampleDisk.top.isProper = true := by decide
  have hproper' : otherDisk.top.isProper = true := by decide
  have hopen : sampleContext.IsOpenOn sampleDisk := ⟨["srv"], _, rfl, rfl⟩
  have hagree : Node.AgreeBelow sampleContext.root sampleDisk.top otherDisk.top := agreeBelow_sample
  have hok := isOk_run_sample
  refine ⟨hproper, hproper', hopen, hagree, ?_⟩
  rcases run_noninterference .unavailable sampleDirectives hproper hproper' hopen hagree with
    ⟨e, he, -⟩ | hlooks
  · rw [he] at hok
    cases hok
  · exact hlooks

end Context

end RepoScope
