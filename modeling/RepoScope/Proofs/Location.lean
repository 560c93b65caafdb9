import Mathlib.Data.List.Basic
import RepoScope.Context
import RepoScope.Proofs.Walk

/-!
# Where files stand

The root of an open context has all links followed, so paths from it lead down by their names until a
link comes. For a context that stands on a directory (`Context.StandsOn`), as one does that was opened and whose
root can be walked (`exists_standsOn`):

* **`StandsOn.exists_of_mem_candidates?`**: a candidate of the walk is a regular file that stands below
  the root under its own path, and **`StandsOn.follow_file`**: its path leads nowhere else.
* **`locate_eq_ok`**, **`StandsOn.follow_located`**: the path of a located target leads to a regular
  file at the place that the target remembers as resolved.
-/

namespace RepoScope

namespace Context

/-! ## Open contexts

Opening a context follows the links of its root, so the root is a place of the tree, and if it can be walked it is
a directory (`Context.StandsOn`). All places below it are places of the tree as well, and each is told by the names
that lead to it from the root.
-/

/-- Whether the root of a context is a place that a path on the disk leads to. -/
def IsOpenOn (ctx : Context) (disk : Disk) : Prop :=
  ∃ pieces place, disk.top.follow pieces = some place ∧ place.names = ctx.root

theorem isOpenOn_of_open? {disk : Disk} {here : List String} {root : String}
    {exclude : List String} {ctx : Context} (h : open? disk here root exclude = .ok ctx) :
    ctx.IsOpenOn disk := by
  rw [open?] at h
  split at h
  · next place hplace =>
    cases h
    split at hplace
    · cases hplace
    · exact ⟨_, place, hplace, rfl⟩
  · cases h

/-- A context whose root is a directory of a proper tree, reached without links. -/
structure StandsOn (ctx : Context) (disk : Disk) (entries : Entries) : Prop where
  isProper : disk.top.isProper = true
  follow_root : disk.top.follow ctx.root = some ⟨ctx.root, .dir entries⟩

/-- An open context stands on the directory that its root leads to. -/
theorem IsOpenOn.standsOn {ctx : Context} {disk : Disk} (hopen : ctx.IsOpenOn disk)
    (hproper : disk.top.isProper = true) {place : List String} {entries : Entries}
    (h : disk.top.follow ctx.root = some ⟨place, .dir entries⟩) : ctx.StandsOn disk entries := by
  obtain ⟨pieces, opened, hfollow, hroot⟩ := hopen
  have hdir : disk.top.lookup ([] ++ place) = some (.dir entries) := Node.lookup_of_follow h
  obtain ⟨_, htop⟩ := Node.exists_dir_of_lookup_append hdir
  -- Following ends at no link, so the place of the root leads to itself.
  have hsettled : Node.IsSettled disk.top opened.names :=
    Node.isSettled_of_follow (Node.isSettled_of_lookup htop) hfollow
  have hlookup : disk.top.lookup opened.names = some opened.node := Node.lookup_of_follow hfollow
  have hlink : ∀ target, opened.node ≠ .link target := fun target heq =>
    hsettled target (heq ▸ hlookup)
  rw [hroot] at hlookup
  have hplace : (⟨place, .dir entries⟩ : Node.Place) = ⟨ctx.root, opened.node⟩ :=
    Node.follow_of_lookup hproper hlookup hlink h
  rw [Node.Place.mk.injEq] at hplace
  rw [hplace.1] at h
  exact ⟨hproper, h⟩

/-- A context that was opened stands on its root where the walk of the root succeeds. -/
theorem exists_standsOn {disk : Disk} {here : List String} {root : String} {exclude : List String}
    {ctx : Context} {candidates : List Candidate} (hproper : disk.top.isProper = true)
    (hopen : open? disk here root exclude = .ok ctx)
    (hwalk : Walk.candidates? disk.top ctx.root ctx.policy = some candidates) :
    ∃ entries, ctx.StandsOn disk entries := by
  obtain ⟨place, entries, hroot⟩ := Walk.exists_dir_of_candidates? hwalk
  exact ⟨entries, (isOpenOn_of_open? hopen).standsOn hproper hroot⟩

namespace StandsOn

variable {ctx : Context} {disk : Disk} {entries : Entries}

theorem lookup_root (h : ctx.StandsOn disk entries) :
    disk.top.lookup ctx.root = some (.dir entries) :=
  Node.lookup_of_follow h.follow_root

theorem isName_root (h : ctx.StandsOn disk entries) : ∀ n ∈ ctx.root, Path.IsName n :=
  (Node.isProper_of_lookup h.isProper h.lookup_root).1

theorem isProper_entries (h : ctx.StandsOn disk entries) : entries.isProper = true :=
  (Node.isProper_of_lookup h.isProper h.lookup_root).2

/-- What stands below the root is looked up in its directory. -/
theorem lookup_below (h : ctx.StandsOn disk entries) (names : List String) :
    disk.top.lookup (ctx.root ++ names) = (Node.dir entries).lookup names := by
  rw [Node.lookup_append, h.lookup_root, Option.bind_some]

theorem isName_below (h : ctx.StandsOn disk entries) {names : List String} {node : Node}
    (hl : disk.top.lookup (ctx.root ++ names) = some node) : ∀ n ∈ names, Path.IsName n := by
  intro n hn
  exact (Node.isProper_of_lookup h.isProper hl).1 n (List.mem_append_right _ hn)

/-- A file below the root does not stand at the root. -/
theorem ne_nil_of_file (h : ctx.StandsOn disk entries) {names : List String} {content : Bytes}
    (hl : disk.top.lookup (ctx.root ++ names) = some (.file content)) : names ≠ [] := by
  rintro rfl
  rw [List.append_nil, h.lookup_root] at hl
  cases hl

/-- A path that leads to a file leads away from the root. -/
theorem ne_nil_of_follow_file (h : ctx.StandsOn disk entries) {names place : List String}
    {content : Bytes} (hfollow : disk.top.follow (ctx.root ++ names) = some ⟨place, .file content⟩) :
    names ≠ [] := by
  rintro rfl
  rw [List.append_nil, h.follow_root, Option.some.injEq, Node.Place.mk.injEq] at hfollow
  cases hfollow.2

end StandsOn

/-- A path of names is followed from the root by its names. -/
theorem follow_join {ctx : Context} {disk : Disk} {names : List String} (hne : names ≠ [])
    (hnames : ∀ n ∈ names, Path.IsName n) :
    (ctx.repository disk).follow (Path.join names) = disk.top.follow (ctx.root ++ names) := by
  rw [Repository.follow, repository, Path.piecesFrom_join hne hnames]

/-! ## Candidates

The path of a candidate goes from the root down by the names of its file, and as no link is on the way it leads to
this file.
-/

theorem path_eq_of_find? {candidates : List Candidate} {path : String} {c : Candidate}
    (h : candidates.find? (·.path == path) = some c) : c.path = path := by
  simpa using List.find?_some h

namespace StandsOn

variable {ctx : Context} {disk : Disk} {entries : Entries}

/-- A candidate is a regular file below the root that is no secret. -/
theorem exists_of_mem_candidates? (h : ctx.StandsOn disk entries) {candidates : List Candidate}
    (hwalk : Walk.candidates? disk.top ctx.root ctx.policy = some candidates) {c : Candidate}
    (hc : c ∈ candidates) :
    ∃ names content, disk.top.lookup (ctx.root ++ names) = some (.file content) ∧
      c = Walk.candidateAt names content ∧ Secret.isSensitive c.path = false := by
  rw [Walk.mem_candidates? h.follow_root h.isProper_entries hwalk,
    Walk.isListed_root_iff h.isProper_entries] at hc
  obtain ⟨names, content, hl, hc, hsecret, -⟩ := hc
  exact ⟨names, content, (h.lookup_below names).trans hl, hc, hsecret⟩

/-- The path of a file that stands below the root leads to this file if it leads anywhere. -/
theorem follow_file (h : ctx.StandsOn disk entries) {names : List String} {content : Bytes}
    (hl : disk.top.lookup (ctx.root ++ names) = some (.file content)) {place : Node.Place}
    (hfollow : (ctx.repository disk).follow (Path.join names) = some place) :
    place = ⟨ctx.root ++ names, .file content⟩ := by
  rw [follow_join (h.ne_nil_of_file hl) (h.isName_below hl)] at hfollow
  exact Node.follow_of_lookup h.isProper hl (fun _ heq => by cases heq) hfollow

end StandsOn

/-! ## Targets

A target may go through links, in its directories as well as at its end. Two paths are kept for it: the one it was
named by, once folded, and the place that it leads to.
-/

/-- A target is located where its folded path leads to a regular file below the root. -/
theorem locate_eq_ok {ctx : Context} {disk : Disk} {candidates : List Candidate} {target : String}
    {t : Target} (h : ctx.locate disk candidates target = .ok t) :
    ∃ names resolved content,
      Path.foldAtTop (Path.piecesFrom ctx.root target) = ctx.root ++ names ∧
      disk.top.follow (ctx.root ++ names) = some ⟨ctx.root ++ resolved, .file content⟩ ∧
      t = ⟨(candidates.find? (·.path == Path.join names)).getD
        (Walk.candidateAt names content), Path.join resolved⟩ := by
  rw [locate] at h
  split at h
  · cases h
  · next names hnames =>
    rw [List.isPrefixOf?_eq_some_iff_append_eq] at hnames
    split at h
    · cases h
    · next place hfollow =>
      split at h
      · cases h
      · next resolved content hresolved hnode =>
        rw [List.isPrefixOf?_eq_some_iff_append_eq] at hresolved
        cases h
        refine ⟨names, resolved, content, hnames.symm, ?_, rfl⟩
        rw [hnames, hfollow, hresolved, ← hnode]
      · cases h

/-- The candidate of a target has the path that was folded. -/
theorem path_find?_getD (candidates : List Candidate) (path : String) (other : Candidate)
    (hother : other.path = path) :
    ((candidates.find? (·.path == path)).getD other).path = path := by
  cases hfind : candidates.find? (·.path == path) with
  | none => exact hother
  | some c => exact path_eq_of_find? hfind

namespace StandsOn

variable {ctx : Context} {disk : Disk} {entries : Entries}

/-- Folding a path as seen from the root leaves names only. -/
theorem isName_folded (h : ctx.StandsOn disk entries) {target : String} {names : List String}
    (hfold : Path.foldAtTop (Path.piecesFrom ctx.root target) = ctx.root ++ names) :
    ∀ n ∈ names, Path.IsName n := by
  have hroot : ∀ n ∈ ctx.root, '/' ∉ n.toList := fun n hn => (h.isName_root n hn).2.2.2
  have hfolded : ∀ n ∈ Path.foldAtTop (Path.piecesFrom ctx.root target), Path.IsName n :=
    Path.isName_of_mem_foldAtTop fun _ hp => Path.slash_notMem_of_mem_piecesFrom hroot hp
  intro n hn
  exact hfolded n (hfold ▸ List.mem_append_right _ hn)

/-- The path of a located target leads to a regular file, at the place that is remembered as resolved. -/
theorem follow_located (h : ctx.StandsOn disk entries) {candidates : List Candidate}
    {target : String} {t : Target} (ht : ctx.locate disk candidates target = .ok t) :
    ∃ names resolved content,
      Path.foldAtTop (Path.piecesFrom ctx.root target) = ctx.root ++ names ∧
      t.candidate.path = Path.join names ∧ t.resolved = Path.join resolved ∧
      (ctx.repository disk).follow t.candidate.path
        = some ⟨ctx.root ++ resolved, .file content⟩ := by
  obtain ⟨names, resolved, content, hfold, hfollow, rfl⟩ := locate_eq_ok ht
  have hpath := path_find?_getD candidates (Path.join names) (Walk.candidateAt names content) rfl
  refine ⟨names, resolved, content, hfold, hpath, rfl, ?_⟩
  rw [hpath, follow_join (h.ne_nil_of_follow_file hfollow) (h.isName_folded hfold)]
  exact hfollow

end StandsOn

end Context

end RepoScope
