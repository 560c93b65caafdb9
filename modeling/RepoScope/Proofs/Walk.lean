import RepoScope.Proofs.ByteOrder
import RepoScope.Proofs.Components
import RepoScope.Proofs.FileTree
import RepoScope.Proofs.Sorting
import RepoScope.Walk

/-!
# What the walk lists

The walk tests one name at a time on its way down and prunes what it does not admit, while
`Secret.isSensitive` and `Ignore.Policy.isIgnored` test a whole path and all directories above it.
Both come to the same:

* **`mem_filesIn`**: a file is listed if and only if it can be looked up without following a link
  and each name on the way to it is admitted (`AdmitsAll`). Induction on the tree.
* **`admitsAll_iff`**: the names on the way are admitted one by one if and only if the path as a
  whole is neither a secret nor ignored. Induction on the names.
* **`candidates?_exact`**: hence the walk lists exactly the files that the tests on whole paths let
  through, each once, in ascending order.
-/

namespace RepoScope.Walk

/-- The candidate that the file with these names and this content becomes. -/
def candidateAt (names : List String) (content : Bytes) : Candidate :=
  ⟨Path.join names, content.length, Path.extension? (Path.join names)⟩

/-- Whether the walk admits all of `names` on its way down from the place `above`. -/
def AdmitsAll (policy : Ignore.Policy) : List String → List String → Prop
  | _, [] => True
  | above, name :: rest =>
    (Secret.isSensitiveName name = false ∧
      policy.isMatch (Path.join (above ++ [name])) (!rest.isEmpty) = false) ∧
    AdmitsAll policy (above ++ [name]) rest

theorem admitsAll_cons {policy : Ignore.Policy} {above rest : List String} {name : String} :
    AdmitsAll policy above (name :: rest) ↔
      (Secret.isSensitiveName name = false ∧
        policy.isMatch (Path.join (above ++ [name])) (!rest.isEmpty) = false) ∧
      AdmitsAll policy (above ++ [name]) rest := by
  rw [AdmitsAll]

/-! ## Names one by one, and paths as a whole

The tests of the walk see each name with all names above it. A test of the whole path looks at each of its
directories, which are the paths of its proper prefixes, so the two go through the same places.
-/

/-- All names are admitted if none is that of a secret and the policy matches no place on the way. -/
theorem admitsAll_iff_forall {policy : Ignore.Policy} {above names : List String} :
    AdmitsAll policy above names ↔
      (∀ name ∈ names, Secret.isSensitiveName name = false) ∧
      ∀ before name behind, names = before ++ name :: behind →
        policy.isMatch (Path.join (above ++ before ++ [name])) (!behind.isEmpty) = false := by
  induction names generalizing above with
  | nil => simp [AdmitsAll]
  | cons name rest ih =>
    rw [admitsAll_cons, ih]
    constructor
    · rintro ⟨⟨hname, hmatch⟩, hnames, hrest⟩
      -- The name that is tested is the first one, or one behind it.
      refine ⟨fun n hn => (List.mem_cons.mp hn).elim (· ▸ hname) (hnames n), ?_⟩
      intro before n behind heq
      cases before with
      | nil =>
        rw [List.nil_append, List.cons.injEq] at heq
        obtain ⟨rfl, rfl⟩ := heq
        simpa using hmatch
      | cons m before =>
        rw [List.cons_append, List.cons.injEq] at heq
        obtain ⟨rfl, rfl⟩ := heq
        simpa using hrest before n behind rfl
    · rintro ⟨hnames, hall⟩
      refine ⟨⟨hnames name List.mem_cons_self, ?_⟩,
        fun n hn => hnames n (List.mem_cons_of_mem _ hn), ?_⟩
      · simpa using hall [] name rest rfl
      · intro before n behind heq
        subst heq
        simpa using hall (name :: before) n behind rfl

/-- All names on the way to a file are admitted if and only if its path is neither a secret nor ignored. -/
theorem admitsAll_iff {policy : Ignore.Policy} {names : List String} (hne : names ≠ [])
    (h : ∀ n ∈ names, Path.IsName n) :
    AdmitsAll policy [] names ↔
      Secret.isSensitive (Path.join names) = false ∧
      policy.isIgnored (Path.join names) false = false := by
  rw [admitsAll_iff_forall, Secret.isSensitive_join h, Ignore.isIgnored_join hne h]
  simp

/-! ## Files of the tree and files of the walk

The induction is over nodes and entries together. What the walk lists for the first entry of a directory and what
it lists for the others are put together to what it lists for the directory (`isListed_dir_cons`).
-/

/-- On the way to a file, all but the last node are directories. -/
theorem isDir_of_lookup_file {node : Node} {names : List String} {content : Bytes}
    (h : node.lookup names = some (.file content)) : node.isDir = !names.isEmpty := by
  cases names with
  | nil =>
    rw [Node.lookup_nil, Option.some.injEq] at h
    subst h
    rfl
  | cons name rest =>
    cases node with
    | file content => simp at h
    | link target => simp at h
    | dir entries => rfl

/-- A name is admitted along with what leads on from it. -/
theorem admits_eq_true_iff {policy : Ignore.Policy} {above rest : List String} {name : String}
    {node : Node} {content : Bytes} (h : node.lookup rest = some (.file content)) :
    admits policy (Path.join (above ++ [name])) name node = true ↔
      Secret.isSensitiveName name = false ∧
      policy.isMatch (Path.join (above ++ [name])) (!rest.isEmpty) = false := by
  simp [admits, isDir_of_lookup_file h]

/-- The files of a directory are those of its first entry and those of the others. -/
theorem lookup_dir_cons_eq_file {first : String} {node : Node} {rest : Entries}
    (hfirst : rest.find? first = none) {names : List String} {content : Bytes} :
    (Node.dir (.cons first node rest)).lookup names = some (.file content) ↔
      (∃ below, names = first :: below ∧ node.lookup below = some (.file content)) ∨
      (Node.dir rest).lookup names = some (.file content) := by
  cases names with
  | nil => simp
  | cons name below =>
    rw [Node.lookup_dir_cons, Node.lookup_dir_cons, Entries.find?]
    by_cases hname : first = name
    · -- The others have no entry of this name, so they hold nothing below it.
      subst hname
      simp [hfirst]
    · simp [hname, Ne.symm hname]

/-- The candidates that come from the files which `tree` holds below the place `above`. -/
def IsListed (policy : Ignore.Policy) (above : List String) (tree : Node) (c : Candidate) : Prop :=
  ∃ names content, tree.lookup names = some (.file content) ∧ AdmitsAll policy above names ∧
    c = candidateAt (above ++ names) content

/-- The files of the first entry are listed if the walk admits the entry. -/
theorem isListed_dir_cons {policy : Ignore.Policy} {above : List String} {name : String}
    {node : Node} {rest : Entries} {c : Candidate} (hfresh : rest.find? name = none) :
    IsListed policy above (.dir (.cons name node rest)) c ↔
      (admits policy (Path.join (above ++ [name])) name node = true ∧
        IsListed policy (above ++ [name]) node c) ∨
      IsListed policy above (.dir rest) c := by
  constructor
  · rintro ⟨names, content, hl, hadm, rfl⟩
    rcases (lookup_dir_cons_eq_file hfresh).mp hl with ⟨below, rfl, hbelow⟩ | hrest
    · obtain ⟨hfirst, hadm⟩ := admitsAll_cons.mp hadm
      have hadmits : admits policy (Path.join (above ++ [name])) name node = true :=
        (admits_eq_true_iff hbelow).mpr hfirst
      exact .inl ⟨hadmits, below, content, hbelow, hadm,
        by rw [List.append_assoc, List.singleton_append]⟩
    · exact .inr ⟨names, content, hrest, hadm, rfl⟩
  · rintro (⟨hadmits, below, content, hl, hadm, rfl⟩ | ⟨names, content, hl, hadm, rfl⟩)
    · refine ⟨name :: below, content, (lookup_dir_cons_eq_file hfresh).mpr (.inl ⟨below, rfl, hl⟩),
        admitsAll_cons.mpr ⟨(admits_eq_true_iff hl).mp hadmits, hadm⟩, ?_⟩
      rw [List.append_assoc, List.singleton_append]
    · exact ⟨names, content, (lookup_dir_cons_eq_file hfresh).mpr (.inr hl), hadm, rfl⟩

theorem isListed_file {policy : Ignore.Policy} {above : List String} {content : Bytes}
    {c : Candidate} : IsListed policy above (.file content) c ↔ c = candidateAt above content := by
  constructor
  · rintro ⟨names, other, hl, -, rfl⟩
    cases names with
    | nil =>
      rw [Node.lookup_nil, Option.some.injEq, Node.file.injEq] at hl
      rw [List.append_nil, hl]
    | cons name rest => simp at hl
  · rintro rfl
    exact ⟨[], content, rfl, trivial, by rw [List.append_nil]⟩

theorem not_isListed_link {policy : Ignore.Policy} {above : List String} {target : String}
    {c : Candidate} : ¬IsListed policy above (.link target) c := by
  rintro ⟨names, content, hl, -⟩
  cases names <;> simp at hl

theorem not_isListed_dir_nil {policy : Ignore.Policy} {above : List String} {c : Candidate} :
    ¬IsListed policy above (.dir .nil) c := by
  rintro ⟨names, content, hl, -⟩
  cases names with
  | nil => simp at hl
  | cons name rest => simp [Node.lookup_dir_cons, Entries.find?] at hl

theorem isName_of_mem_concat {above : List String} {name : String}
    (ha : ∀ n ∈ above, Path.IsName n) (hname : Path.IsName name) :
    ∀ n ∈ above ++ [name], Path.IsName n := by
  intro n hn
  rcases List.mem_append.mp hn with hn | hn
  · exact ha n hn
  · exact List.mem_singleton.mp hn ▸ hname

mutual

/-- The walk lists the files at and below a node that it admits on the way down. -/
theorem mem_filesAt (policy : Ignore.Policy) (c : Candidate) (above : List String)
    (ha : ∀ n ∈ above, Path.IsName n) : (node : Node) → node.isProper = true →
      (c ∈ filesAt policy (Path.join above) node ↔ IsListed policy above node c)
  | .file content, _ => by
    rw [filesAt, List.mem_singleton, isListed_file]
    exact Iff.rfl
  | .link target, _ => by
    rw [filesAt]
    exact iff_of_false List.not_mem_nil not_isListed_link
  | .dir entries, h => by
    rw [filesAt]
    exact mem_filesIn policy c above ha entries (by simpa [Node.isProper] using h)

/-- The walk lists the files below the entries of a directory that it admits on the way down. -/
theorem mem_filesIn (policy : Ignore.Policy) (c : Candidate) (above : List String)
    (ha : ∀ n ∈ above, Path.IsName n) : (entries : Entries) → entries.isProper = true →
      (c ∈ filesIn policy (Path.join above) entries ↔ IsListed policy above (.dir entries) c)
  | .nil, _ => by
    rw [filesIn]
    exact iff_of_false List.not_mem_nil not_isListed_dir_nil
  | .cons name node rest, h => by
    obtain ⟨hname, hfresh, hnode, hrest⟩ := Entries.isProper_cons.mp h
    have hat := mem_filesAt policy c (above ++ [name]) (isName_of_mem_concat ha hname) node hnode
    have hin := mem_filesIn policy c above ha rest hrest
    rw [filesIn, Path.under_join ha, List.mem_append, hin, isListed_dir_cons hfresh]
    -- A name that is not admitted prunes all that stands below it.
    refine or_congr_left ?_
    split
    · next hadmits => rw [hat, and_iff_right hadmits]
    · next hadmits => exact iff_of_false List.not_mem_nil fun hlisted => hadmits hlisted.1

end

/-! ## Each file once

The names of the entries of a directory differ, so what is listed below one of them has other paths than what is
listed below another.
-/

theorem isName_of_lookup_below {above names : List String} {tree node : Node}
    (ha : ∀ n ∈ above, Path.IsName n) (htree : tree.isProper = true)
    (hl : tree.lookup names = some node) : ∀ n ∈ above ++ names, Path.IsName n := by
  intro n hn
  rcases List.mem_append.mp hn with hn | hn
  · exact ha n hn
  · exact (Node.isProper_of_lookup htree hl).1 n hn

/-- What is listed below the first entry of a directory has other paths than what is listed below the rest. -/
theorem path_ne_of_isListed {policy : Ignore.Policy} {above : List String} {name : String}
    {node : Node} {rest : Entries} {c d : Candidate} (ha : ∀ n ∈ above, Path.IsName n)
    (hentries : (Entries.cons name node rest).isProper = true)
    (hc : IsListed policy (above ++ [name]) node c) (hd : IsListed policy above (.dir rest) d) :
    c.path ≠ d.path := by
  obtain ⟨hname, hfresh, hnode, hrest⟩ := Entries.isProper_cons.mp hentries
  obtain ⟨below, content, hl, -, rfl⟩ := hc
  obtain ⟨names, content', hl', -, rfl⟩ := hd
  have hbelow := isName_of_lookup_below (isName_of_mem_concat ha hname) hnode hl
  have htree : (Node.dir rest).isProper = true := hrest
  have hnames := isName_of_lookup_below ha htree hl'
  intro hpath
  have heq : (above ++ [name]) ++ below = above ++ names := Path.join_injective hbelow hnames hpath
  rw [List.append_assoc, List.append_cancel_left_eq] at heq
  -- So the other file would stand below the name of the first entry.
  subst heq
  rw [List.singleton_append, Node.lookup_dir_cons, hfresh] at hl'
  cases hl'

mutual

/-- The files at and below a node have different paths. -/
theorem nodup_paths_filesAt (policy : Ignore.Policy) (above : List String)
    (ha : ∀ n ∈ above, Path.IsName n) : (node : Node) → node.isProper = true →
      ((filesAt policy (Path.join above) node).map (·.path)).Nodup
  | .file content, _ => by simp [filesAt]
  | .link target, _ => by simp [filesAt]
  | .dir entries, h => by
    rw [filesAt]
    exact nodup_paths_filesIn policy above ha entries (by simpa [Node.isProper] using h)

/-- The files below the entries of a directory have different paths. -/
theorem nodup_paths_filesIn (policy : Ignore.Policy) (above : List String)
    (ha : ∀ n ∈ above, Path.IsName n) : (entries : Entries) → entries.isProper = true →
      ((filesIn policy (Path.join above) entries).map (·.path)).Nodup
  | .nil, _ => by simp [filesIn]
  | .cons name node rest, h => by
    obtain ⟨hname, -, hnode, hrest⟩ := Entries.isProper_cons.mp h
    have ha' := isName_of_mem_concat ha hname
    rw [filesIn, Path.under_join ha, List.map_append, List.nodup_append]
    refine ⟨?_, nodup_paths_filesIn policy above ha rest hrest, ?_⟩
    · split
      · exact nodup_paths_filesAt policy (above ++ [name]) ha' node hnode
      · exact List.nodup_nil
    · intro p hp q hq
      obtain ⟨d, hd, rfl⟩ := List.mem_map.mp hq
      obtain ⟨c, hc, rfl⟩ := List.mem_map.mp hp
      split at hc
      · exact path_ne_of_isListed ha h ((mem_filesAt policy c _ ha' node hnode).mp hc)
          ((mem_filesIn policy d above ha rest hrest).mp hd)
      · exact absurd hc List.not_mem_nil

end

/-! ## The walk as a whole

The files are sorted by their paths. With each path there once, the order is strict, so the list is determined by
which files are in it.
-/

/-- A walk lists and sorts the files of the directory that the root leads to. -/
theorem candidates?_eq_some {top : Node} {root place : List String} {entries : Entries}
    (policy : Ignore.Policy) (hroot : top.follow root = some ⟨place, .dir entries⟩) :
    candidates? top root policy = some (Sorting.sorted comesBefore (filesIn policy "" entries)) := by
  rw [candidates?, hroot]

/-- A walk that succeeds has entered a directory. -/
theorem exists_dir_of_candidates? {top : Node} {root : List String} {policy : Ignore.Policy}
    {files : List Candidate} (h : candidates? top root policy = some files) :
    ∃ place entries, top.follow root = some ⟨place, .dir entries⟩ := by
  rw [candidates?] at h
  split at h
  · next place entries hroot => exact ⟨place, entries, hroot⟩
  · cases h

/-- The candidates of a walk are the files below its directory that are admitted on the way. -/
theorem mem_candidates? {top : Node} {root place : List String} {entries : Entries}
    {policy : Ignore.Policy} {files : List Candidate} {c : Candidate}
    (hroot : top.follow root = some ⟨place, .dir entries⟩) (hproper : entries.isProper = true)
    (h : candidates? top root policy = some files) :
    c ∈ files ↔ IsListed policy [] (.dir entries) c := by
  rw [candidates?_eq_some policy hroot, Option.some.injEq] at h
  rw [← h, Sorting.mem_sorted]
  exact mem_filesIn policy c [] (by simp) entries hproper

/-- The candidates of a walk are strictly in the order of their paths. -/
theorem pairwise_candidates? {top : Node} {root place : List String} {entries : Entries}
    {policy : Ignore.Policy} {files : List Candidate}
    (hroot : top.follow root = some ⟨place, .dir entries⟩) (hproper : entries.isProper = true)
    (h : candidates? top root policy = some files) :
    files.Pairwise fun a b => a.path < b.path := by
  rw [candidates?_eq_some policy hroot, Option.some.injEq] at h
  rw [← h]
  exact Sorting.pairwise_lt_sorted (nodup_paths_filesIn policy [] (by simp) entries hproper)

/-- A file is listed below the root if and only if its path is neither a secret nor ignored. -/
theorem isListed_root_iff {policy : Ignore.Policy} {entries : Entries} {c : Candidate}
    (hproper : entries.isProper = true) :
    IsListed policy [] (.dir entries) c ↔
      ∃ names content, (Node.dir entries).lookup names = some (.file content) ∧
        c = candidateAt names content ∧ Secret.isSensitive c.path = false ∧
        policy.isIgnored c.path false = false := by
  have hadmits : ∀ {names : List String} {content : Bytes},
      (Node.dir entries).lookup names = some (.file content) →
      (AdmitsAll policy [] names ↔ Secret.isSensitive (Path.join names) = false ∧
        policy.isIgnored (Path.join names) false = false) := by
    intro names content hl
    have htree : (Node.dir entries).isProper = true := hproper
    -- The root itself is a directory, so a file has at least one name on the way to it.
    refine admitsAll_iff ?_ (Node.isProper_of_lookup htree hl).1
    rintro rfl
    simp at hl
  constructor
  · rintro ⟨names, content, hl, hadm, rfl⟩
    exact ⟨names, content, hl, rfl, (hadmits hl).mp hadm⟩
  · rintro ⟨names, content, hl, rfl, htests⟩
    exact ⟨names, content, hl, (hadmits hl).mpr htests, rfl⟩

/--
The walk of a root lists exactly the regular files below it, none of them behind a link, whose path is
neither a secret nor ignored, each once, in ascending order of the bytes of their paths.
-/
theorem candidates?_exact {top : Node} {root place : List String} {entries : Entries}
    (policy : Ignore.Policy) (hroot : top.follow root = some ⟨place, .dir entries⟩)
    (hproper : entries.isProper = true) :
    ∃ files, candidates? top root policy = some files ∧
      (∀ c, c ∈ files ↔
        ∃ names content, (Node.dir entries).lookup names = some (.file content) ∧
          c = candidateAt names content ∧ Secret.isSensitive c.path = false ∧
          policy.isIgnored c.path false = false) ∧
      files.Pairwise fun a b => Text.encode a.path.toList < Text.encode b.path.toList := by
  have h := candidates?_eq_some policy hroot
  refine ⟨_, h, fun c => ?_, ?_⟩
  · rw [mem_candidates? hroot hproper h, isListed_root_iff hproper]
  · exact (pairwise_candidates? hroot hproper h).imp fun hab => Text.encode_lt_encode hab

/-- A root with a secret, a hidden directory, a link to a secret, and two files of a kind. -/
def sampleEntries : Entries :=
  .cons ".env" (.file [1]) <|
  .cons ".cache" (.dir (.cons "a.rs" (.file [2]) .nil)) <|
  .cons "lib" (.dir (
    .cons "a.rs" (.file [3]) <|
    .cons "b.log" (.file [4]) <|
    .cons "keep.log" (.file [5]) <|
    .cons "key.pem" (.file [6]) .nil)) <|
  .cons "main.rs" (.link "lib/key.pem") .nil

/-- A file system that holds nothing but this root. -/
def sampleTop : Node := .dir (.cons "srv" (.dir sampleEntries) .nil)

/-- Of all files with an extension, the policy takes one back in. -/
def samplePolicy : Ignore.Policy := ⟨[], Ignore.rulesOf "" "*.log\n!keep.log".toList⟩

theorem candidates?_exact_sample :
    ∃ files, candidates? sampleTop ["srv"] samplePolicy = some files ∧
      candidateAt ["lib", "keep.log"] [5] ∈ files ∧ candidateAt ["lib", "b.log"] [4] ∉ files ∧
      candidateAt ["lib", "key.pem"] [6] ∉ files := by
  have hroot : sampleTop.follow ["srv"] = some ⟨["srv"], .dir sampleEntries⟩ := rfl
  have hproper : sampleEntries.isProper = true := by decide
  obtain ⟨files, hwalk, hmem, -⟩ := candidates?_exact samplePolicy hroot hproper
  refine ⟨files, hwalk, ?keep, ?log, ?key⟩
  case keep =>
    exact (hmem _).mpr ⟨["lib", "keep.log"], [5], rfl, rfl, by decide +kernel, by decide +kernel⟩
  case log =>
    intro h
    obtain ⟨_, _, -, -, -, hignored⟩ := (hmem _).mp h
    exact absurd hignored (by decide +kernel)
  case key =>
    intro h
    obtain ⟨_, _, -, -, hsecret, -⟩ := (hmem _).mp h
    exact absurd hsecret (by decide +kernel)

end RepoScope.Walk
