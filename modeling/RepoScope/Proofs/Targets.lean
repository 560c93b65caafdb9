import RepoScope.Proofs.Secrecy

/-!
# Which targets are located

A target is named by any text. The text is folded first, without a look at the disk, and the folded path is
then followed through all links, so both the path and the place that it leads to are tested against the root.
Each way in which this can fail has its own lemma (`locate_of_not_isPrefix` and the lemmas behind it).

* **`StandsOn.find?_getD_eq`**: a target that the walk has listed is the same candidate as one that it has not
  listed would be.
* **`locate_exact`**: which targets are located, as which candidates, and what is said of all others
  (`LocatesExactly`).
-/

namespace RepoScope.Context

open Scope

section

variable {ctx : Context} {disk : Disk} {candidates : List Candidate} {raw : String}
  {folded : List String} (hfolded : Path.foldAtTop (Path.piecesFrom ctx.root raw) = folded)

/-! ## The cases of a location

The steps of a location fail one after the other: the folded path is not below the root, it leads nowhere, it leads
out of the root, or it leads to something that is no regular file. The conditions exclude each other and leave one
case, in which the target is located.
-/

theorem isPrefixOf?_eq_none {above names : List String} (h : ¬above <+: names) :
    above.isPrefixOf? names = none := by
  rw [Option.eq_none_iff_forall_ne_some]
  intro rest hrest
  exact h ⟨rest, List.isPrefixOf?_eq_some_iff_append_eq.mp hrest⟩

theorem exists_isPrefixOf?_eq_some {above names : List String} (h : above <+: names) :
    ∃ rest, above.isPrefixOf? names = some rest := by
  obtain ⟨rest, hrest⟩ := h
  exact ⟨rest, List.isPrefixOf?_eq_some_iff_append_eq.mpr hrest⟩

include hfolded

/-- A path that folds to a place outside the root is refused as such, whatever stands there. -/
theorem locate_of_not_isPrefix (h : ¬ctx.root <+: folded) :
    ctx.locate disk candidates raw = .error (.targetOutsideRoot raw) := by
  rw [locate, hfolded, isPrefixOf?_eq_none h]

/-- A path below the root that leads nowhere is not found. -/
theorem locate_of_follow_eq_none (h : ctx.root <+: folded) (hfollow : disk.top.follow folded = none) :
    ctx.locate disk candidates raw = .error (.targetNotFound raw) := by
  obtain ⟨names, hnames⟩ := exists_isPrefixOf?_eq_some h
  rw [locate, hfolded, hnames]
  simp only [hfollow]

/-- A path that leads out of the root through a link is refused as outside the root. -/
theorem locate_of_leads_out (h : ctx.root <+: folded) {place : Node.Place}
    (hfollow : disk.top.follow folded = some place) (hout : ¬ctx.root <+: place.names) :
    ctx.locate disk candidates raw = .error (.targetOutsideRoot raw) := by
  obtain ⟨names, hnames⟩ := exists_isPrefixOf?_eq_some h
  rw [locate, hfolded, hnames]
  simp only [hfollow, isPrefixOf?_eq_none hout]

/-- A path that leads to no regular file is not found. -/
theorem locate_of_no_file (h : ctx.root <+: folded) {place : Node.Place}
    (hfollow : disk.top.follow folded = some place) (hin : ctx.root <+: place.names)
    (hfile : ∀ content, place.node ≠ .file content) :
    ctx.locate disk candidates raw = .error (.targetNotFound raw) := by
  obtain ⟨names, hnames⟩ := exists_isPrefixOf?_eq_some h
  obtain ⟨resolved, hresolved⟩ := exists_isPrefixOf?_eq_some hin
  rw [locate, hfolded, hnames]
  simp only [hfollow, hresolved]

/-- All other paths are located. -/
theorem locate_of_file (h : ctx.root <+: folded) {place : Node.Place}
    (hfollow : disk.top.follow folded = some place) (hin : ctx.root <+: place.names) {content : Bytes}
    (hfile : place.node = .file content) : ∃ t, ctx.locate disk candidates raw = .ok t := by
  obtain ⟨names, hnames⟩ := exists_isPrefixOf?_eq_some h
  obtain ⟨resolved, hresolved⟩ := exists_isPrefixOf?_eq_some hin
  rw [locate, hfolded, hnames]
  simp only [hfollow, hresolved, hfile]
  exact ⟨_, rfl⟩

end

/-! ## Targets as candidates

A target that the walk has listed is taken from the list, any other one is made up from its path and content. The
walk would have made the same candidate.
-/

namespace StandsOn

variable {ctx : Context} {disk : Disk} {entries : Entries} {candidates : List Candidate}

/-- A target that is a candidate of the walk is the candidate that its path and content make. -/
theorem find?_getD_eq (h : ctx.StandsOn disk entries)
    (hwalk : Walk.candidates? disk.top ctx.root ctx.policy = some candidates)
    {names resolved : List String} {content : Bytes} (hnames : ∀ n ∈ names, Path.IsName n)
    (hfollow : disk.top.follow (ctx.root ++ names) = some ⟨resolved, .file content⟩) :
    (candidates.find? (·.path == Path.join names)).getD (Walk.candidateAt names content)
      = Walk.candidateAt names content := by
  cases hfind : candidates.find? (·.path == Path.join names) with
  | none => rfl
  | some c =>
    have hpath : c.path = Path.join names := path_eq_of_find? hfind
    obtain ⟨names', content', hl, rfl, -⟩ :=
      h.exists_of_mem_candidates? hwalk (List.mem_of_find?_eq_some hfind)
    -- The candidate stands at the path of the target, so following the path ends there.
    obtain rfl : names' = names := Path.join_injective (h.isName_below hl) hnames hpath
    have hplace := Node.follow_of_lookup h.isProper hl (fun _ heq => by cases heq) hfollow
    rw [Node.Place.mk.injEq, Node.file.injEq] at hplace
    rw [hplace.2]
    rfl

end StandsOn

/-- Where a located target stands: under `names` as it was named, and under `resolved` with its links followed. -/
structure Target.StandsAt (t : Target) (ctx : Context) (disk : Disk) (folded names resolved : List String)
    (content : Bytes) : Prop where
  folded_eq : folded = ctx.root ++ names
  isName : ∀ n ∈ names, Path.IsName n
  isRelative : Path.isAbsolute t.candidate.path = false
  pieces_path : Path.pieces t.candidate.path = names
  /-- The candidate is the one that the walk makes of a file in this place, also if it lists no such file. -/
  candidate_eq : t.candidate = Walk.candidateAt names content
  follow_folded : disk.top.follow folded = some ⟨ctx.root ++ resolved, .file content⟩
  /-- The path of the candidate leads from the root where the folded path leads. -/
  follow_path : (ctx.repository disk).follow t.candidate.path
    = some ⟨ctx.root ++ resolved, .file content⟩
  /-- No link stands on the way to the file itself. -/
  lookup_resolved : disk.top.lookup (ctx.root ++ resolved) = some (.file content)
  resolved_eq : t.resolved = Path.join resolved
  pieces_resolved : Path.pieces t.resolved = resolved

/-- What is said of a target with this folded path. -/
structure LocatesExactly (ctx : Context) (disk : Disk) (candidates : List Candidate) (raw : String)
    (folded : List String) : Prop where
  /-- Targets are located if their paths lie below the root and lead to regular files below the root. -/
  located_iff : (∃ t, ctx.locate disk candidates raw = .ok t) ↔
    ctx.root <+: folded ∧ ∃ place content, disk.top.follow folded = some place ∧
      ctx.root <+: place.names ∧ place.node = .file content
  located : ∀ t, ctx.locate disk candidates raw = .ok t →
    ∃ names resolved content, t.StandsAt ctx disk folded names resolved content
  outside : ¬ctx.root <+: folded →
    ctx.locate disk candidates raw = .error (.targetOutsideRoot raw)
  missing : ctx.root <+: folded → disk.top.follow folded = none →
    ctx.locate disk candidates raw = .error (.targetNotFound raw)
  leadsOut : ∀ place, ctx.root <+: folded → disk.top.follow folded = some place →
    ¬ctx.root <+: place.names →
    ctx.locate disk candidates raw = .error (.targetOutsideRoot raw)
  noFile : ∀ place, ctx.root <+: folded → disk.top.follow folded = some place →
    ctx.root <+: place.names → (∀ content, place.node ≠ .file content) →
    ctx.locate disk candidates raw = .error (.targetNotFound raw)

/--
Where targets are located: in a context that was opened on a directory, any text is folded first, and what
is said of it depends on where the folded path stands and where it leads.
-/
theorem locate_exact {disk : Disk} {here : List String} {root : String} {exclude : List String}
    {ctx : Context} {candidates : List Candidate} (raw : String)
    (hproper : disk.top.isProper = true) (hopen : open? disk here root exclude = .ok ctx)
    (hwalk : Walk.candidates? disk.top ctx.root ctx.policy = some candidates) :
    ∃ folded, Path.FoldsTo (Path.piecesFrom ctx.root raw) folded ∧
      LocatesExactly ctx disk candidates raw folded := by
  obtain ⟨entries, hstands⟩ := exists_standsOn hproper hopen hwalk
  have hslash : ∀ p ∈ Path.piecesFrom ctx.root raw, '/' ∉ p.toList := fun p hp =>
    Path.slash_notMem_of_mem_piecesFrom (fun n hn => (hstands.isName_root n hn).2.2.2) hp
  -- The refusals are the cases of a location; what is left is what is said of a target that is located.
  refine ⟨_, Path.foldsTo_foldAtTop hslash, ⟨?located, ?refused⟩, ?found,
    locate_of_not_isPrefix rfl, locate_of_follow_eq_none rfl,
    fun _ hin hfollow => locate_of_leads_out rfl hin hfollow,
    fun _ hin hfollow => locate_of_no_file rfl hin hfollow⟩
  case located =>
    rintro ⟨t, ht⟩
    obtain ⟨names, resolved, content, hfold, hfollow, -⟩ := locate_eq_ok ht
    exact ⟨⟨names, hfold.symm⟩, _, content, hfold ▸ hfollow, ⟨resolved, rfl⟩, rfl⟩
  case refused =>
    rintro ⟨hin, place, content, hfollow, hbelow, hfile⟩
    exact locate_of_file rfl hin hfollow hbelow hfile
  case found =>
    intro t ht
    obtain ⟨names, resolved, content, hfold, hfollow, rfl⟩ := locate_eq_ok ht
    have hnames := hstands.isName_folded hfold
    have hl : disk.top.lookup (ctx.root ++ resolved) = some (.file content) :=
      Node.lookup_of_follow hfollow
    have hne : names ≠ [] := hstands.ne_nil_of_follow_file hfollow
    -- Whether the walk has listed the target or not, it is the same candidate.
    rw [hstands.find?_getD_eq hwalk hnames hfollow]
    exact ⟨names, resolved, content,
      { folded_eq := hfold
        isName := hnames
        isRelative := Path.isAbsolute_join hnames
        pieces_path := Path.pieces_join hne fun n hn => (hnames n hn).2.2.2
        candidate_eq := rfl
        follow_folded := hfold ▸ hfollow
        follow_path := (follow_join hne hnames).trans hfollow
        lookup_resolved := hl
        resolved_eq := rfl
        pieces_resolved := Path.pieces_join (hstands.ne_nil_of_file hl) fun n hn =>
          (hstands.isName_below hl n hn).2.2.2 }⟩

theorem locate_exact_sample :
    ∃ candidates t folded,
      Walk.candidates? sampleDisk.top sampleContext.root sampleContext.policy = some candidates ∧
      sampleContext.locate sampleDisk candidates "lib/../main.rs" = .ok t ∧
      t.candidate.path = "main.rs" ∧ t.resolved = "lib/key.pem" ∧
      LocatesExactly sampleContext sampleDisk candidates "lib/../main.rs" folded := by
  have hview : (Walk.candidates? sampleDisk.top sampleContext.root sampleContext.policy).map
      (·.map (·.path)) = some ["lib/a.rs", "lib/b.log", "lib/keep.log"] := by decide +kernel
  obtain ⟨candidates, hwalk, -⟩ := Option.map_eq_some_iff.mp hview
  obtain ⟨folded, hfold, hexact⟩ :=
    locate_exact "lib/../main.rs" (by decide) (show open? sampleDisk [] "srv" [] = .ok _ from rfl) hwalk
  have hfolded : folded = ["srv", "main.rs"] := hfold.eq_foldAtTop.trans (by decide +kernel)
  subst hfolded
  -- The link in the root leads to a file that still lies below the root.
  have hplace : sampleDisk.top.follow ["srv", "main.rs"]
      = some ⟨["srv", "lib", "key.pem"], .file [6]⟩ := rfl
  obtain ⟨t, ht⟩ := hexact.located_iff.mpr
    ⟨⟨["main.rs"], rfl⟩, _, [6], hplace, ⟨["lib", "key.pem"], rfl⟩, rfl⟩
  obtain ⟨names, resolved, content, hat⟩ := hexact.located t ht
  have hfollow := hat.follow_folded
  obtain rfl : names = ["main.rs"] := List.cons.inj hat.folded_eq.symm |>.2
  rw [hplace, Option.some.injEq, Node.Place.mk.injEq] at hfollow
  obtain rfl : resolved = ["lib", "key.pem"] := List.cons.inj hfollow.1.symm |>.2
  exact ⟨candidates, t, _, hwalk, ht, hat.candidate_eq ▸ rfl, hat.resolved_eq.trans rfl, hexact⟩

end RepoScope.Context
