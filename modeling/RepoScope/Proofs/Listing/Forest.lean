import RepoScope.Listing
import RepoScope.Proofs.Components
import RepoScope.Proofs.Sorting

/-!
# The forest of a listing

Branches span the files below a place if there is one branch for each entry of the place, with the file of the path
that leads to it, if there is one, and with branches that span what stands below (`Branch.Spans`). Adding a file keeps
this (`Branch.Spans.add`), so it holds of the branches that all files build (`Branch.spans_foldl`), and putting the
branches in order keeps it too (`Branch.Spans.arranged`). Branches in a strict order are determined by the files they
span (`Branch.Spans.unique`), so the order of the files makes no difference.

* **`Branch.spans_ofFiles`**: the branches of files with distinct paths span them, and those that stand side by side
  come by their best role and then by name.
* **`Branch.ofFiles_perm`**: the branches of the files in another order are the same.
-/

namespace RepoScope.Listing

open Scope

/-! ## Entries

An entry stands for all files at or below it. Whether there is one depends on the paths of the files only, and the
file at its own path is the one that its role and mode come from.
-/

/-- A name and the names that lead to its directory. -/
structure Entry where
  above : List String
  name : String
  deriving DecidableEq

/-- The names that lead to an entry. -/
def Entry.names (e : Entry) : List String := e.above ++ [e.name]

/-- Whether a file has the path that leads to an entry or one below it. -/
def IsEntry (files : List ScopedFile) (e : Entry) : Prop :=
  ∃ f ∈ files, e.names <+: Path.pieces f.path

/-- Whether a file of this role and mode has the path that leads to an entry. -/
def IsFileAt (files : List ScopedFile) (e : Entry) (file : Role × Mode) : Prop :=
  ∃ f ∈ files, Path.pieces f.path = e.names ∧ (f.role, f.mode) = file

/-- Below one place, a path goes on with one name. -/
theorem eq_of_isPrefix_concat {above path : List String} {name other : String} (h : above ++ [name] <+: path)
    (hother : above ++ [other] <+: path) : name = other := by
  obtain ⟨rest, rfl⟩ := h
  rw [List.append_assoc, List.prefix_append_right_inj, List.singleton_append, List.cons_prefix_cons] at hother
  exact hother.1.symm

/-- A file has an entry at its path. -/
theorem IsFileAt.isEntry {files : List ScopedFile} {e : Entry} {file : Role × Mode}
    (h : IsFileAt files e file) : IsEntry files e := by
  obtain ⟨f, hf, hpath, -⟩ := h
  exact ⟨f, hf, hpath ▸ List.prefix_rfl⟩

/-- A further file brings the entries on its way. -/
theorem isEntry_concat {files : List ScopedFile} {new : ScopedFile} {e : Entry} :
    IsEntry (files ++ [new]) e ↔ IsEntry files e ∨ e.names <+: Path.pieces new.path := by
  simp [IsEntry, or_and_right, exists_or]

section Congr

variable {files files' : List ScopedFile} {e : Entry}
  (h : ∀ f : ScopedFile, e.names <+: Path.pieces f.path → (f ∈ files ↔ f ∈ files'))
include h

/-- Only the files at or below an entry decide whether it is one. -/
theorem isEntry_congr : IsEntry files e ↔ IsEntry files' e :=
  exists_congr fun f => and_congr_left fun hpath => h f hpath

/-- Nor do others decide which file stands at an entry. -/
theorem isFileAt_congr {file : Role × Mode} : IsFileAt files e file ↔ IsFileAt files' e file :=
  exists_congr fun f => and_congr_left fun hfile => h f (hfile.1 ▸ List.prefix_rfl)

end Congr

/-- Whether the first of two siblings comes first, by the positions of their roles and then by their names. -/
def Earlier (rank rank' : Nat) (name name' : String) : Prop := rank < rank' ∨ rank = rank' ∧ name < name'

instance (rank rank' : Nat) (name name' : String) : Decidable (Earlier rank rank' name name') :=
  inferInstanceAs (Decidable (_ ∨ _))

/-- Of two siblings only one comes first. -/
theorem Earlier.asymm {rank rank' : Nat} {name name' : String} (h : Earlier rank rank' name name') :
    ¬Earlier rank' rank name' name := by
  rintro (hlt | ⟨heq, hname⟩) <;> rcases h with hlt' | ⟨heq', hname'⟩
  · exact Nat.lt_asymm hlt hlt'
  · exact Nat.ne_of_lt hlt heq'.symm
  · exact Nat.ne_of_lt hlt' heq.symm
  · exact String.lt_asymm hname hname'

namespace Branch

/-! ## Branches that span files

The relation between branches and files follows the branches: at each place there is a branch for each entry, and
below each branch the same holds again. It leaves the order of siblings open (`r`), since files are added in any
order and sorted only at the end. Its parts are read off by one lemma each.
-/

/--
The branches are those of the entries of a place, in the order `r`, each with its file, if it has one, and with the
branches of its own entries.
-/
inductive Spans (r : Branch → Branch → Prop) (files : List ScopedFile) : List String → List Branch → Prop where
  | intro {above : List String} {branches : List Branch} (order : branches.Pairwise r)
      (names : ∀ name, (∃ b ∈ branches, b.name = name) ↔ IsEntry files ⟨above, name⟩)
      (file : ∀ b ∈ branches, ∀ file, b.file = some file ↔ IsFileAt files ⟨above, b.name⟩ file)
      (children : ∀ b ∈ branches, Spans r files (above ++ [b.name]) b.children) : Spans r files above branches

namespace Spans

variable {r : Branch → Branch → Prop} {files files' : List ScopedFile} {above : List String}
  {branches branches' : List Branch} {b : Branch}

theorem order (h : Spans r files above branches) : branches.Pairwise r := by
  cases h with
  | intro order => exact order

theorem names (h : Spans r files above branches) {name : String} :
    (∃ b ∈ branches, b.name = name) ↔ IsEntry files ⟨above, name⟩ := by
  cases h with
  | intro _ names => exact names name

theorem file (h : Spans r files above branches) (hb : b ∈ branches) {file : Role × Mode} :
    b.file = some file ↔ IsFileAt files ⟨above, b.name⟩ file := by
  cases h with
  | intro _ _ files => exact files b hb file

theorem children (h : Spans r files above branches) (hb : b ∈ branches) :
    Spans r files (above ++ [b.name]) b.children := by
  cases h with
  | intro _ _ _ children => exact children b hb

theorem isEntry (h : Spans r files above branches) (hb : b ∈ branches) : IsEntry files ⟨above, b.name⟩ :=
  h.names.mp ⟨b, hb, rfl⟩

/-- No branches span a place without entries. -/
theorem nil (h : ∀ name, ¬IsEntry files ⟨above, name⟩) : Spans r files above [] :=
  ⟨List.Pairwise.nil, fun name => ⟨fun ⟨_, hb, _⟩ => (nomatch hb), fun hentry => absurd hentry (h name)⟩,
    fun _ hb => (nomatch hb), fun _ hb => nomatch hb⟩

/-- Only the files below a place count. -/
theorem congr (h : Spans r files above branches)
    (hsame : ∀ (name : String) (f : ScopedFile), above ++ [name] <+: Path.pieces f.path →
      (f ∈ files ↔ f ∈ files')) : Spans r files' above branches := by
  induction h with
  | intro order names file _ ih =>
    refine ⟨order, fun name => ?_, fun b hb info => ?_, fun b hb => ?_⟩
    · exact (names name).trans (isEntry_congr (hsame name))
    · exact (file b hb info).trans (isFileAt_congr (e := ⟨_, b.name⟩) (hsame b.name))
    · exact ih b hb fun name f hpath => hsame b.name f ((List.prefix_append _ _).trans hpath)

/-- Branches in a strict order are determined by what they span. -/
theorem unique (asymm : ∀ a b, r a b → ¬r b a) (h : Spans r files above branches)
    (h' : Spans r files above branches') : branches = branches' := by
  induction h generalizing branches' with
  | @intro above branches order names file _ ih =>
    have heq : ∀ b ∈ branches, ∀ b' ∈ branches', b.name = b'.name → b = b' := by
      intro b hb b' hb' hname
      have hfile : b.file = b'.file := by
        refine Option.ext fun info => ?_
        rw [file b hb, h'.file hb', hname]
      have hchildren : b.children = b'.children := ih b hb (hname ▸ h'.children hb')
      cases b
      cases b'
      exact mk.injEq .. ▸ ⟨hname, hfile, hchildren⟩
    refine Sorting.eq_of_pairwise_of_mem_iff asymm order h'.order fun b => ⟨fun hb => ?_, fun hb => ?_⟩
    · obtain ⟨b', hb', hname⟩ := h'.names.mpr ((names b.name).mp ⟨b, hb, rfl⟩)
      exact heq b hb b' hb' hname.symm ▸ hb'
    · obtain ⟨b', hb', hname⟩ := (names b.name).mpr (h'.isEntry hb)
      exact heq b' hb' b hb hname ▸ hb'

end Spans

/-! ## Adding a file

A file is added along its path: at each place the branch of the next name is changed, or put in if there is none,
and the others stay. To treat both cases alike, a name without a branch is taken for an empty one (`ofName`), which
spans an entry that does not exist.
-/

/-- Whether two branches have different names. -/
def IsApart (a b : Branch) : Prop := a.name ≠ b.name

/-- The branch of this name, or the one that is put in if there is none. -/
def ofName (name : String) (branches : List Branch) : Branch :=
  (branches.find? (·.name = name)).getD (mk name none [])

theorem name_ofName (name : String) (branches : List Branch) : (ofName name branches).name = name := by
  unfold ofName
  cases hfind : branches.find? (·.name = name) with
  | none => rfl
  | some b => simpa using List.find?_some hfind

section Change

variable {name : String} {f : Branch → Branch} {branches : List Branch}

/-- After a change, a branch is the changed one or one of another name. -/
theorem of_mem_change (horder : branches.Pairwise IsApart) {b : Branch} (h : b ∈ change name f branches) :
    b = f (ofName name branches) ∨ b ∈ branches ∧ b.name ≠ name := by
  induction branches with
  | nil => exact .inl (List.mem_singleton.mp h)
  | cons first rest ih =>
    obtain ⟨hfirst, hrest⟩ := List.pairwise_cons.mp horder
    rw [change] at h
    split at h
    · next hname =>
      rcases List.mem_cons.mp h with rfl | h
      · simp [ofName, hname]
      · exact .inr ⟨List.mem_cons_of_mem _ h, fun heq => hfirst b h (hname.trans heq.symm)⟩
    · next hname =>
      rcases List.mem_cons.mp h with rfl | h
      · exact .inr ⟨List.mem_cons_self, hname⟩
      · rcases ih hrest h with heq | ⟨hb, hne⟩
        · left
          rw [heq, ofName, ofName, List.find?_cons_of_neg (by simpa using hname)]
        · exact .inr ⟨List.mem_cons_of_mem _ hb, hne⟩

variable (hf : ∀ b, (f b).name = b.name)
include hf

/-- After a change, there is a branch of the name, and of all the names there were. -/
theorem exists_mem_change_iff {n : String} :
    (∃ b ∈ change name f branches, b.name = n) ↔ n = name ∨ ∃ b ∈ branches, b.name = n := by
  induction branches with
  | nil =>
    have hname : (f (mk name none [])).name = name := hf _
    simp [change, hname, eq_comm]
  | cons first rest ih =>
    rw [change]
    split
    · next hname => simp [hf, hname, eq_comm]
    · simp only [List.mem_cons, exists_eq_or_imp, ih]
      exact or_left_comm

/-- A change keeps the names of siblings different. -/
theorem pairwise_change (horder : branches.Pairwise IsApart) : (change name f branches).Pairwise IsApart := by
  induction branches with
  | nil => exact List.pairwise_singleton _ _
  | cons first rest ih =>
    obtain ⟨hfirst, hrest⟩ := List.pairwise_cons.mp horder
    rw [change]
    split
    · refine List.pairwise_cons.mpr ⟨fun b hb => ?_, hrest⟩
      rw [IsApart, hf]
      exact hfirst b hb
    · next hname =>
      refine List.pairwise_cons.mpr ⟨fun b hb heq => ?_, ih hrest⟩
      rcases (exists_mem_change_iff hf).mp ⟨b, hb, heq.symm⟩ with hsame | ⟨other, hother, hsame⟩
      · exact hname hsame
      · exact hfirst other hother hsame.symm

end Change

namespace Spans

variable {files : List ScopedFile} {above : List String} {branches : List Branch} {name : String}

/-- The branch of a name that is no entry is empty, so it fits as well. -/
theorem ofName {r : Branch → Branch → Prop} (h : Spans r files above branches) (name : String) :
    (∀ file, (ofName name branches).file = some file ↔ IsFileAt files ⟨above, name⟩ file) ∧
      Spans r files (above ++ [name]) (ofName name branches).children := by
  unfold Branch.ofName
  cases hfind : branches.find? (·.name = name) with
  | some b =>
    have hb := List.mem_of_find?_eq_some hfind
    obtain rfl : b.name = name := by simpa using List.find?_some hfind
    exact ⟨fun _ => h.file hb, h.children hb⟩
  | none =>
    have hnone : ¬IsEntry files ⟨above, name⟩ := by
      intro hentry
      obtain ⟨b, hb, hname⟩ := h.names.mpr hentry
      simpa [hname] using List.find?_eq_none.mp hfind b hb
    refine ⟨fun file => ⟨fun hfile => (nomatch hfile), fun hfile => absurd hfile.isEntry hnone⟩, .nil ?_⟩
    rintro other ⟨f, hf, hpath⟩
    exact hnone ⟨f, hf, (List.prefix_append _ _).trans hpath⟩

variable {new : ScopedFile}

/-- Only one entry of a place gains a file. -/
theorem mem_concat_iff (hpath : above ++ [name] <+: Path.pieces new.path) {other : String} (hne : other ≠ name)
    (f : ScopedFile) (hf : above ++ [other] <+: Path.pieces f.path) : f ∈ files ↔ f ∈ files ++ [new] := by
  rw [List.mem_append, List.mem_singleton, iff_self_or]
  rintro rfl
  exact absurd (eq_of_isPrefix_concat hf hpath) hne

/--
One step down the path: if below the changed branch the file has been added, and the branch has the file that its
entry then has, the file has been added at this place.
-/
theorem change (h : Spans IsApart files above branches) (hpath : above ++ [name] <+: Path.pieces new.path)
    {f : Branch → Branch} (hf : ∀ b, (f b).name = b.name)
    (hfile : ∀ file, (f (Branch.ofName name branches)).file = some file ↔
      IsFileAt (files ++ [new]) ⟨above, name⟩ file)
    (hchildren : Spans IsApart (files ++ [new]) (above ++ [name]) (f (Branch.ofName name branches)).children) :
    Spans IsApart (files ++ [new]) above (change name f branches) := by
  have hname : (f (Branch.ofName name branches)).name = name := (hf _).trans (name_ofName name branches)
  refine ⟨pairwise_change hf h.order, fun n => ?names, fun b hb file => ?file, fun b hb => ?children⟩
  case names =>
    rw [exists_mem_change_iff hf, h.names, isEntry_concat]
    refine (or_comm.trans (or_congr_right ?_))
    exact ⟨fun heq => heq ▸ hpath, fun hother => eq_of_isPrefix_concat hother hpath⟩
  case file =>
    rcases of_mem_change h.order hb with rfl | ⟨hb, hne⟩
    · rw [hname]
      exact hfile file
    · exact (h.file hb).trans (isFileAt_congr (e := ⟨above, b.name⟩) (mem_concat_iff hpath hne))
  case children =>
    rcases of_mem_change h.order hb with rfl | ⟨hb, hne⟩
    · rw [hname]
      exact hchildren
    · exact (h.children hb).congr fun n f hother =>
        mem_concat_iff hpath hne f ((List.prefix_append _ _).trans hother)

/-- Adding a file to branches that span the others makes them span it too. -/
theorem add (h : Spans IsApart files above branches) {rest : List String}
    (hpath : Path.pieces new.path = above ++ rest) (hne : rest ≠ [])
    (hnew : ∀ f ∈ files, Path.pieces f.path ≠ Path.pieces new.path) :
    Spans IsApart (files ++ [new]) above (add (new.role, new.mode) rest branches) := by
  -- The names that are left lead down; the branch of the last one gets the file.
  induction rest generalizing above branches with
  | nil => exact absurd rfl hne
  | cons name rest ih =>
    obtain ⟨hfile, hchildren⟩ := h.ofName name
    have hdown : Path.pieces new.path = above ++ [name] ++ rest := by rw [hpath, List.append_assoc]; rfl
    have hprefix : above ++ [name] <+: Path.pieces new.path := hdown ▸ List.prefix_append _ _
    cases rest with
    | nil =>
      rw [List.append_nil] at hdown
      refine h.change hprefix (fun _ => rfl) (fun file => ?_) ?_
      · constructor
        · intro heq
          exact ⟨new, by simp, hdown, Option.some_inj.mp heq⟩
        · rintro ⟨f, hf, hother, rfl⟩
          rcases List.mem_append.mp hf with hf | hf
          · exact absurd (hother.trans hdown.symm) (hnew f hf)
          · rw [List.mem_singleton.mp hf]
            rfl
      · refine hchildren.congr fun n f hother => ?_
        rw [List.mem_append, List.mem_singleton, iff_self_or]
        rintro rfl
        exact absurd (hdown ▸ hother).length_le (by simp)
    | cons next rest =>
      refine h.change hprefix (fun _ => rfl) (fun file => (hfile file).trans ?_)
        (ih hchildren hdown (by simp))
      refine exists_congr fun f => ⟨fun ⟨hf, hother⟩ => ⟨List.mem_append_left _ hf, hother⟩, fun ⟨hf, hother⟩ => ?_⟩
      rcases List.mem_append.mp hf with hf | hf
      · exact ⟨hf, hother⟩
      · have hlength := congrArg List.length (hother.1.symm.trans (List.mem_singleton.mp hf ▸ hdown))
        simp [Entry.names] at hlength

end Spans

/-- Files with distinct paths, added one after the other. -/
theorem spans_foldl {files added : List ScopedFile} {branches : List Branch} (h : Spans IsApart files [] branches)
    (hdistinct : ((files ++ added).map (·.path)).Nodup) :
    Spans IsApart (files ++ added) []
      (added.foldl (fun branches f => add (f.role, f.mode) (Path.pieces f.path) branches) branches) := by
  induction added generalizing files branches with
  | nil => simpa using h
  | cons new added ih =>
    rw [List.append_cons] at hdistinct ⊢
    refine ih (h.add (List.nil_append _).symm (Path.pieces_ne_nil _) fun f hf heq => ?_) hdistinct
    have hpath : f.path = new.path := by
      rw [← Path.join_pieces f.path, heq, Path.join_pieces]
    rw [List.map_append, List.map_append] at hdistinct
    have hdisjoint := (List.nodup_append.mp (List.nodup_append.mp hdistinct).1).2.2
    exact hdisjoint f.path (List.mem_map_of_mem hf) new.path (by simp) hpath

/-! ## Putting branches in order

Branches are sorted by the best role at or below them and by name, each place after those below it. With different
names the order is strict, and `Spans.unique` applies to what comes out.
-/

/-- Whether a branch stands before another: by the best role, then by name. -/
def Precedes (a b : Branch) : Prop := Earlier a.bestRank b.bestRank a.name b.name

theorem Precedes.asymm {a b : Branch} (h : Precedes a b) : ¬Precedes b a := Earlier.asymm h

/-- The test for the order, spelled out. -/
theorem precedes_iff {a b : Branch} :
    precedes a b = true ↔ a.bestRank < b.bestRank ∨ a.bestRank = b.bestRank ∧ a.name ≤ b.name := by
  simp [precedes]

/-- The order of branches is transitive. -/
theorem precedes_trans (a b c : Branch) (hab : precedes a b) (hbc : precedes b c) : precedes a c := by
  rw [precedes_iff] at *
  rcases hab with hab | ⟨hab, hab'⟩ <;> rcases hbc with hbc | ⟨hbc, hbc'⟩
  · exact .inl (Nat.lt_trans hab hbc)
  · exact .inl (hbc ▸ hab)
  · exact .inl (hab ▸ hbc)
  · exact .inr ⟨hab.trans hbc, String.le_trans hab' hbc'⟩

/-- Any two branches are in order one way or the other. -/
theorem precedes_total (a b : Branch) : precedes a b || precedes b a := by
  rw [Bool.or_eq_true, precedes_iff, precedes_iff]
  rcases Nat.lt_trichotomy a.bestRank b.bestRank with h | h | h
  · exact .inl (.inl h)
  · exact (String.le_total a.name b.name).imp (fun hname => .inr ⟨h, hname⟩) fun hname => .inr ⟨h.symm, hname⟩
  · exact .inr (.inl h)

/-- Of branches with different names, one that may stand before another stands before it. -/
theorem Precedes.of_precedes {a b : Branch} (h : precedes a b = true) (hne : IsApart a b) : Precedes a b :=
  (precedes_iff.mp h).imp_right fun ⟨hrank, hname⟩ => ⟨hrank, Std.lt_of_le_of_ne hname hne⟩

/-- Each of several branches is put in order. -/
theorem arrangeAll_eq_map (branches : List Branch) : arrangeAll branches = branches.map arrange := by
  induction branches with
  | nil => rfl
  | cons b rest ih => rw [arrangeAll, ih, List.map_cons]

@[simp] theorem name_arrange (b : Branch) : b.arrange.name = b.name := by
  cases b
  rw [arrange]
  rfl

@[simp] theorem file_arrange (b : Branch) : b.arrange.file = b.file := by
  cases b
  rw [arrange]
  rfl

/-- Below a branch, the branches are put in order and sorted. -/
theorem children_arrange (b : Branch) :
    b.arrange.children = Sorting.sorted precedes (arrangeAll b.children) := by
  cases b
  rw [arrange]
  rfl

/-- Sorting adds and drops no branch. -/
theorem mem_sorted_arrangeAll {branches : List Branch} {b : Branch} :
    b ∈ Sorting.sorted precedes (arrangeAll branches) ↔ ∃ b' ∈ branches, b'.arrange = b := by
  rw [Sorting.mem_sorted, arrangeAll_eq_map, List.mem_map]

/-- Sorted branches with different names are strictly in order. -/
theorem pairwise_sorted_arrangeAll {branches : List Branch} (h : branches.Pairwise IsApart) :
    (Sorting.sorted precedes (arrangeAll branches)).Pairwise Precedes := by
  have hapart : (arrangeAll branches).Pairwise IsApart := by
    rw [arrangeAll_eq_map, List.pairwise_map]
    exact h.imp fun hne => by simpa [IsApart] using hne
  have hsorted := Sorting.pairwise_sorted precedes_trans precedes_total (arrangeAll branches)
  have hapart' := (Sorting.perm_sorted precedes (arrangeAll branches)).symm.pairwise hapart fun hne => Ne.symm hne
  exact (hsorted.and hapart').imp fun ⟨hle, hne⟩ => .of_precedes hle hne

/-- Branches that are put in order, at each place, span the same files. -/
theorem Spans.arranged {files : List ScopedFile} {above : List String} {branches : List Branch}
    (h : Spans IsApart files above branches) :
    Spans Precedes files above (Sorting.sorted precedes (arrangeAll branches)) := by
  induction h with
  | intro order names file _ ih =>
    refine ⟨pairwise_sorted_arrangeAll order, fun name => ?names, fun b hb info => ?file, fun b hb => ?children⟩
    case names =>
      rw [← names name]
      simp only [mem_sorted_arrangeAll, exists_exists_and_eq_and, name_arrange]
    case file =>
      obtain ⟨b, hmem, rfl⟩ := mem_sorted_arrangeAll.mp hb
      rw [file_arrange, name_arrange]
      exact file b hmem info
    case children =>
      obtain ⟨b, hmem, rfl⟩ := mem_sorted_arrangeAll.mp hb
      rw [children_arrange, name_arrange]
      exact ih b hmem

/-- The branches of files with distinct paths span them, in the order of their best roles and names. -/
theorem spans_ofFiles {files : List ScopedFile} (hdistinct : (files.map (·.path)).Nodup) :
    Spans Precedes files [] (ofFiles files) := by
  have hnone : Spans IsApart [] [] [] := .nil fun _ ⟨_, hf, _⟩ => nomatch hf
  have hadded : Spans IsApart ([] ++ files) [] _ := spans_foldl hnone hdistinct
  exact hadded.arranged

/-- The order of the files makes no difference. -/
theorem ofFiles_perm {files files' : List ScopedFile} (hdistinct : (files.map (·.path)).Nodup)
    (h : files'.Perm files) : ofFiles files' = ofFiles files := by
  have hspans := spans_ofFiles ((h.map (·.path)).nodup_iff.mpr hdistinct)
  exact (hspans.congr fun _ _ _ => h.mem_iff).unique (fun _ _ => Precedes.asymm) (spans_ofFiles hdistinct)

end Branch

end RepoScope.Listing
