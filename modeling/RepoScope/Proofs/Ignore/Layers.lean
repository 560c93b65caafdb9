import Mathlib.Data.List.Basic
import Mathlib.Data.List.Induction
import RepoScope.Proofs.Ignore.Meaning

/-!
# The layers of ignore files

The version control system reads an exclude file and the ignore files of all directories from the top of the repository
down to the root (`repositoryRules?_eq`), or the ignore file of the root alone if no directory above it is a repository
(`repositoryRules?_eq_none`). A rule of a directory above the root matches the path as seen from that directory
(`Rule.isMatch_seenFrom`).

Below a root without ignore files of its own, a policy therefore says the same of a path as the policy of the top of the
repository says of the path as seen from there (`isMatch_load_eq`): the built-in rules look at the last component alone.
All of this is **`load_layers`**.
-/

namespace RepoScope.Ignore

open Text

/-! ## Rules seen from a root

All rules of a file are read with the same base, which has no influence on how a line is read. So reading a file
for a root below it is reading it for its own directory and then moving the rules.
-/

/-- A rule as it applies below a root that its ignore file sees at `base`. -/
def Rule.seenFrom (base : String) (rule : Rule) : Rule := { rule with base }

/-- A rule seen from a root applies to the path as its directory sees it. -/
theorem Rule.isMatch_seenFrom {rule : Rule} (h : rule.base = "") (base path : String) (isDir : Bool) :
    (rule.seenFrom base).isMatch path isDir = rule.isMatch (Path.under base path) isDir := by
  unfold Rule.isMatch
  rw [h]
  rfl

/-- The base of a rule does not enter how its line is read. -/
theorem Rule.parse?_eq_map (base : String) (line : List Char) :
    Rule.parse? base line = (Rule.parse? "" line).map (·.seenFrom base) := by
  rw [Rule.parse?_def, Rule.parse?_def]
  dsimp only
  split
  · rfl
  · rw [Option.map_map]
    rfl

/-- Rules of a file as seen from a root are its own rules, moved there. -/
theorem rulesAt_eq_map (top : Node) (base : String) (place : List String) :
    rulesAt top base place = (rulesAt top "" place).map (·.seenFrom base) := by
  unfold rulesAt
  split
  · rw [rulesOf, rulesOf, List.map_filterMap, funext (Rule.parse?_eq_map base)]
  · rfl

/-- Rules that are read for their own directory have no base. -/
theorem base_of_mem_rulesAt {top : Node} {place : List String} {rule : Rule} (h : rule ∈ rulesAt top "" place) :
    rule.base = "" := by
  rw [rulesAt_eq_map] at h
  obtain ⟨_, -, rfl⟩ := List.mem_map.mp h
  rfl

/-- Where there is no file there are no rules. -/
theorem rulesAt_of_isFileAt_eq_false {top : Node} {place : List String} (h : top.isFileAt place = false)
    (base : String) : rulesAt top base place = [] := by
  have hread : top.read? place = none := by simpa [Node.isFileAt] using h
  unfold rulesAt Node.readText?
  rw [hread]
  rfl

/-! ## Directories above a root

The walk goes up from the root until a directory is a repository, and collects the ignore files on its way, so that
those further up come first. The recursion is over the reversed path; `rulesDown` lists the same files from the
top, which is the order in which they apply.
-/

/--
A directory at or above a root, as the path of the root shows it, and the names that lead from it to the root. What is
above a step up does not show.
-/
structure IsAbove (dir names root : List String) : Prop where
  naming_eq : Path.naming root = dir ++ names
  up_notMem : ".." ∉ names

/-- The nearest directory at or above a root that is a repository. -/
structure IsRepositoryTop (top : Node) (dir names root : List String) : Prop extends
    IsAbove dir names root where
  git : top.existsAt (dir ++ [".git"]) = true
  nearest : ∀ nearer below, IsAbove nearer below root → below.length < names.length →
    top.existsAt (nearer ++ [".git"]) = false

section

variable {top : Node} {base path dir names root : List String} {name : String}

/-- At a repository the walk stops, with its exclude file before its ignore file. -/
theorem repositoryRules?_of_git (h : top.existsAt (path ++ [".git"]) = true) :
    repositoryRules? top base path.reverse = some (
      rulesAt top (Path.join base) (path ++ [".git", "info", "exclude"]) ++
      rulesAt top (Path.join base) (path ++ [".gitignore"])) := by
  unfold repositoryRules?
  rw [List.reverse_reverse, if_pos h]

/-- At the top of the disk the walk ends without a repository. -/
theorem repositoryRules?_nil (h : top.existsAt [".git"] = false) :
    repositoryRules? top base [] = none := by
  unfold repositoryRules?
  simp [h]

/--
At any other directory the walk goes on above, and the directory's ignore file comes last. It does not go on behind
a step up.
-/
theorem repositoryRules?_concat (h : top.existsAt (path ++ [name] ++ [".git"]) = false) :
    repositoryRules? top base (path ++ [name]).reverse =
      if name = ".." then none
      else (repositoryRules? top (name :: base) path.reverse).map
        (· ++ rulesAt top (Path.join base) (path ++ [name] ++ [".gitignore"])) := by
  rw [List.reverse_append, List.reverse_singleton, List.singleton_append, repositoryRules?]
  rw [List.reverse_cons, List.reverse_reverse, h, if_neg Bool.false_ne_true]

/-- Outside a repository, the steps up find none. -/
theorem repositoryRules?_eq_none (h : ∀ dir names, path = dir ++ names → ".." ∉ names →
    top.existsAt (dir ++ [".git"]) = false) : repositoryRules? top base path.reverse = none := by
  induction path using List.reverseRecOn generalizing base with
  | nil => exact repositoryRules?_nil (h [] [] rfl (by simp))
  | append_singleton path name ih =>
    rw [repositoryRules?_concat (h (path ++ [name]) [] (by simp) (by simp))]
    split
    · rfl
    · next hname =>
      rw [ih fun dir names hpath hnames => h dir (names ++ [name]) (by rw [hpath, List.append_assoc]) ?_]
      · rfl
      · simp [hnames, Ne.symm hname]

/--
The rules of the ignore files on the way from `dir` down along `names`, where `base` leads on to the root.
-/
def rulesDown (top : Node) (base dir names : List String) : List Rule :=
  (List.range (names.length + 1)).flatMap fun i =>
    rulesAt top (Path.join (names.drop i ++ base)) (dir ++ names.take i ++ [".gitignore"])

/-- At the root itself there is one ignore file left. -/
theorem rulesDown_nil : rulesDown top base dir [] = rulesAt top (Path.join base) (dir ++ [".gitignore"]) := by
  simp [rulesDown]

/-- One name further down, the ignore file of the last directory comes last. -/
theorem rulesDown_concat : rulesDown top base dir (names ++ [name]) =
    rulesDown top (name :: base) dir names ++
      rulesAt top (Path.join base) (dir ++ names ++ [name] ++ [".gitignore"]) := by
  have hsame : ∀ i ∈ List.range (names.length + 1),
      rulesAt top (Path.join ((names ++ [name]).drop i ++ base))
          (dir ++ (names ++ [name]).take i ++ [".gitignore"]) =
        rulesAt top (Path.join (names.drop i ++ name :: base)) (dir ++ names.take i ++ [".gitignore"]) := by
    intro i hi
    have hle : i ≤ names.length := by
      have := List.mem_range.mp hi
      omega
    rw [List.drop_append_of_le_length hle, List.take_append_of_le_length hle, ← List.append_cons]
  have hlast : (names ++ [name]).drop (names.length + 1) = [] := List.drop_of_length_le (by simp)
  have hall : (names ++ [name]).take (names.length + 1) = names ++ [name] := List.take_of_length_le (by simp)
  unfold rulesDown
  rw [List.length_append, List.length_singleton, @List.range_succ (names.length + 1), List.flatMap_append,
    List.flatMap_congr hsame, List.flatMap_singleton, hlast, hall, List.nil_append, ← List.append_assoc dir]

/-- Inside a repository, the exclude file comes before the ignore files, and these come from the top down. -/
theorem repositoryRules?_eq (hgit : top.existsAt (dir ++ [".git"]) = true) (hup : ".." ∉ names)
    (hnearest : ∀ above below, names = above ++ below → above ≠ [] →
      top.existsAt (dir ++ above ++ [".git"]) = false) :
    repositoryRules? top base (dir ++ names).reverse = some (
      rulesAt top (Path.join (names ++ base)) (dir ++ [".git", "info", "exclude"]) ++
      rulesDown top base dir names) := by
  -- Induction from the root upwards: the last name joins the base.
  induction names using List.reverseRecOn generalizing base with
  | nil =>
    rw [List.append_nil, List.nil_append, rulesDown_nil]
    exact repositoryRules?_of_git hgit
  | append_singleton names name ih =>
    have hname : name ≠ ".." := fun heq => hup (by simp [heq])
    have hgit' : top.existsAt (dir ++ names ++ [name] ++ [".git"]) = false := by
      rw [List.append_assoc dir]
      exact hnearest (names ++ [name]) [] (by simp) (by simp)
    have hnames := @ih (name :: base) (fun hmem => hup (by simp [hmem])) fun above below heq hne =>
      hnearest above (below ++ [name]) (by rw [heq, List.append_assoc]) hne
    rw [← List.append_assoc, repositoryRules?_concat hgit', if_neg hname, hnames, Option.map_some,
      rulesDown_concat, List.append_cons names, List.append_assoc (rulesAt _ _ _)]

/--
Inside a repository, the rules are those of its exclude file and of the ignore files from its top down to the root,
each seen from the root.
-/
theorem versionControlRules_of_isRepositoryTop (h : IsRepositoryTop top dir names root) :
    versionControlRules top root =
      (rulesAt top "" (dir ++ [".git", "info", "exclude"])).map (·.seenFrom (Path.join names)) ++
      (List.range (names.length + 1)).flatMap fun i =>
        (rulesAt top "" (dir ++ names.take i ++ [".gitignore"])).map
          (·.seenFrom (Path.join (names.drop i))) := by
  have hnearest : ∀ above below, names = above ++ below → above ≠ [] →
      top.existsAt (dir ++ above ++ [".git"]) = false := by
    rintro above below rfl hne
    refine h.nearest _ below ⟨by rw [h.naming_eq, List.append_assoc], fun hup => h.up_notMem (by simp [hup])⟩ ?_
    have := List.length_pos_iff.mpr hne
    rw [List.length_append]
    omega
  unfold versionControlRules
  rw [h.naming_eq, repositoryRules?_eq h.git h.up_notMem hnearest, Option.getD_some]
  unfold rulesDown
  simp only [List.append_nil]
  rw [rulesAt_eq_map]
  simp only [rulesAt_eq_map _ (Path.join (List.drop _ _))]

/-- Outside a repository, the rules are those of the root's ignore file. -/
theorem versionControlRules_of_none
    (h : ∀ dir names, IsAbove dir names root → top.existsAt (dir ++ [".git"]) = false) :
    versionControlRules top root = rulesAt top "" (root ++ [".gitignore"]) := by
  unfold versionControlRules
  rw [repositoryRules?_eq_none fun dir names hpath hup => h dir names ⟨hpath, hup⟩, Option.getD_none]

end

/-! ## Policies of a root and of the top of its repository

Below the root, both policies have the built-in rules and those of the version control system, the one seen from
the root and the other from the top. What the root has in addition, ignore files of its own on the way down to it
and those of this program, is shut out by the conditions of `isMatch_load_eq`.
-/

/-- The built-in rules look at the last component alone. -/
theorem isMatch_under_of_mem_builtinRules {rule : Rule} (h : rule ∈ builtinRules) (base path : String)
    (isDir : Bool) : rule.isMatch (Path.under base path) isDir = rule.isMatch path isDir := by
  unfold builtinRules at h
  obtain ⟨line, hline, hrule⟩ := List.mem_filterMap.mp h
  have hslash : '/' ∉ dropEndWhile (· == '/') (dropBackslash (readMark (trim line.toList)).2) := by
    clear hrule h
    revert line
    decide +kernel
  obtain ⟨l, htext⟩ := exists_line_of_parse? hrule
  rw [htext, l.readMark_text, l.dropBackslash_unmarked, l.dropEndWhile_written] at hslash
  rw [Bool.eq_iff_iff, Rule.isMatch_iff_covers hrule htext, Rule.isMatch_iff_covers hrule htext,
    covers_iff_of_notMem hslash, covers_iff_of_notMem hslash, lastComponent_under]

variable {disk : Disk} {root dir names extra : List String}

/-- The rules of this program's own ignore files: that of the home directory and then that of the root. -/
def toolRules (disk : Disk) (root : List String) : List Rule :=
  (disk.home.elim [] fun home => rulesAt disk.top "" (home ++ [toolIgnoreFile])) ++
    rulesAt disk.top "" (root ++ [toolIgnoreFile])

/-- The layers of a policy: first the version control system's rules, then this program's. -/
theorem layered_load (disk : Disk) (root extra : List String) :
    (Policy.load disk root extra).layered = versionControlRules disk.top root ++ toolRules disk root := by
  show versionControlRules disk.top root ++ _ ++ _ = versionControlRules disk.top root ++ (_ ++ _)
  rw [List.append_assoc]
  cases disk.home <;> rfl

/-- Without ignore files of this program, it has no rules of its own. -/
theorem toolRules_eq_nil
    (hhome : ∀ home, disk.home = some home → disk.top.isFileAt (home ++ [toolIgnoreFile]) = false)
    (hroot : disk.top.isFileAt (root ++ [toolIgnoreFile]) = false) : toolRules disk root = [] := by
  unfold toolRules
  rw [rulesAt_of_isFileAt_eq_false hroot, List.append_nil]
  cases h : disk.home with
  | none => rfl
  | some home => exact rulesAt_of_isFileAt_eq_false (hhome home h) ""

/-- Rules seen from a root say of a path what they say of the path as seen from their directory. -/
theorem foldl_isMatch_seenFrom (rules : List Rule) (base path : String) (isDir : Bool) :
    (rules.map (·.seenFrom base)).foldl
        (fun ignored rule => if rule.isMatch path isDir then !rule.negated else ignored) false =
      (rules.map (·.seenFrom "")).foldl
        (fun ignored rule => if rule.isMatch (Path.under base path) isDir then !rule.negated else ignored)
        false := by
  rw [List.foldl_map, List.foldl_map]
  rfl

/-- The top of a repository is the nearest repository of its own. -/
theorem IsRepositoryTop.self {top : Node} (h : IsRepositoryTop top dir names root) :
    IsRepositoryTop top dir [] dir where
  naming_eq := by
    have hnaming : ∀ piece ∈ dir, piece ≠ "" ∧ piece ≠ "." := by
      intro piece hpiece
      have hmem : piece ∈ Path.naming root := h.naming_eq ▸ List.mem_append_left names hpiece
      simpa [Path.naming] using (List.mem_filter.mp hmem).2
    rw [List.append_nil, Path.naming, List.filter_eq_self]
    simpa using hnaming
  up_notMem := by simp
  git := h.git
  nearest _ _ _ hlt := absurd hlt (Nat.not_lt_zero _)

/--
Below a root without ignore files of its own, the policy says of a path what the policy of the top of the repository
says of the path as seen from there.
-/
theorem isMatch_load_eq (htop : IsRepositoryTop disk.top dir names root)
    (hbelow : ∀ i, 0 < i → i ≤ names.length →
      disk.top.isFileAt (dir ++ names.take i ++ [".gitignore"]) = false)
    (hhome : ∀ home, disk.home = some home → disk.top.isFileAt (home ++ [toolIgnoreFile]) = false)
    (hroot : disk.top.isFileAt (root ++ [toolIgnoreFile]) = false)
    (hdir : disk.top.isFileAt (dir ++ [toolIgnoreFile]) = false) (path : String) (isDir : Bool) :
    (Policy.load disk root []).isMatch path isDir =
      (Policy.load disk dir []).isMatch (Path.under (Path.join names) path) isDir := by
  have hrootRules : (Policy.load disk root []).layered =
      (rulesAt disk.top "" (dir ++ [".git", "info", "exclude"]) ++
        rulesAt disk.top "" (dir ++ [".gitignore"])).map (·.seenFrom (Path.join names)) := by
    -- Of the ignore files on the way down to the root, only that of the top is there.
    have hnone : (List.range names.length).flatMap (fun i =>
        (rulesAt disk.top "" (dir ++ names.take (i + 1) ++ [".gitignore"])).map
          (·.seenFrom (Path.join (names.drop (i + 1))))) = [] := by
      rw [List.flatMap_eq_nil_iff]
      intro i hi
      rw [rulesAt_of_isFileAt_eq_false (hbelow (i + 1) (Nat.succ_pos i) (List.mem_range.mp hi))]
      rfl
    rw [layered_load, toolRules_eq_nil hhome hroot, List.append_nil,
      versionControlRules_of_isRepositoryTop htop, List.range_succ_eq_map, List.flatMap_cons, List.flatMap_map,
      hnone, List.append_nil, List.take_zero, List.drop_zero, List.append_nil, List.map_append]
  have hdirRules : (Policy.load disk dir []).layered =
      (rulesAt disk.top "" (dir ++ [".git", "info", "exclude"]) ++
        rulesAt disk.top "" (dir ++ [".gitignore"])).map (·.seenFrom "") := by
    rw [layered_load, toolRules_eq_nil hhome hdir, List.append_nil,
      versionControlRules_of_isRepositoryTop htop.self]
    simp [Path.join_nil]
  -- The name of a path does not depend on the place it is seen from, nor do the built-in rules.
  have hhidden : Path.baseName (Path.under (Path.join names) path) = Path.baseName path := by
    unfold Path.under
    split
    · rfl
    · exact Path.baseName_append _ path
  have hbuiltin : builtinRules.any (·.isMatch (Path.under (Path.join names) path) isDir) =
      builtinRules.any (·.isMatch path isDir) := by
    rw [Bool.eq_iff_iff, List.any_eq_true, List.any_eq_true]
    exact exists_congr fun rule => and_congr_right fun hrule => by
      rw [isMatch_under_of_mem_builtinRules hrule]
  have halways : ∀ root, (Policy.load disk root []).always = builtinRules := fun root => List.append_nil _
  unfold Policy.isMatch
  rw [halways, halways, hrootRules, hdirRules, foldl_isMatch_seenFrom, hhidden, hbuiltin]

/--
The ignore files that a policy reads. Inside a repository, the exclude file comes first, then the ignore files from the
top of the repository down to the root, whose rules match the path as seen from their directory. Outside, the ignore
file of the root stands for all of them. The files of this program come last.
-/
theorem load_layers (disk : Disk) (root extra : List String) :
    (∀ dir names, IsRepositoryTop disk.top dir names root →
      (Policy.load disk root extra).layered =
        (rulesAt disk.top "" (dir ++ [".git", "info", "exclude"])).map (·.seenFrom (Path.join names)) ++
        (List.range (names.length + 1)).flatMap (fun i =>
          (rulesAt disk.top "" (dir ++ names.take i ++ [".gitignore"])).map
            (·.seenFrom (Path.join (names.drop i)))) ++
        toolRules disk root) ∧
    ((∀ dir names, IsAbove dir names root → disk.top.existsAt (dir ++ [".git"]) = false) →
      (Policy.load disk root extra).layered =
        rulesAt disk.top "" (root ++ [".gitignore"]) ++ toolRules disk root) ∧
    (∀ place, disk.top.isFileAt place = false → rulesAt disk.top "" place = []) ∧
    (∀ place, ∀ rule ∈ rulesAt disk.top "" place, rule.base = "" ∧ ∀ base path isDir,
      (rule.seenFrom base).isMatch path isDir = rule.isMatch (Path.under base path) isDir) ∧
    (∀ dir names, IsRepositoryTop disk.top dir names root →
      (∀ i, 0 < i → i ≤ names.length →
        disk.top.isFileAt (dir ++ names.take i ++ [".gitignore"]) = false) →
      (∀ home, disk.home = some home → disk.top.isFileAt (home ++ [toolIgnoreFile]) = false) →
      disk.top.isFileAt (root ++ [toolIgnoreFile]) = false →
      disk.top.isFileAt (dir ++ [toolIgnoreFile]) = false →
      ∀ path isDir, (Policy.load disk root []).isMatch path isDir =
        (Policy.load disk dir []).isMatch (Path.under (Path.join names) path) isDir) := by
  -- The five parts are lemmas above; what a rule applies to is put together from its base and its view.
  refine ⟨fun dir names htop => ?_, fun hnone => ?_, fun place hfile => rulesAt_of_isFileAt_eq_false hfile "",
    fun place rule hrule => ?_,
    fun dir names htop hbelow hhome hroot hdir => isMatch_load_eq htop hbelow hhome hroot hdir⟩
  · rw [layered_load, versionControlRules_of_isRepositoryTop htop]
  · rw [layered_load, versionControlRules_of_none hnone]
  · have hbase := base_of_mem_rulesAt hrule
    exact ⟨hbase, Rule.isMatch_seenFrom hbase⟩

/-- A repository with an exclude file and an ignore file, and a directory without any. -/
def layeredDisk : Disk where
  top := .dir (.cons "srv" (.dir (
    .cons ".git" (.dir (.cons "info" (.dir (.cons "exclude" (.file (encode "*.tmp".toList)) .nil)) .nil)) <|
    .cons ".gitignore" (.file (encode "/app/private/\n!keep.tmp".toList)) <|
    .cons "app" (.dir .nil) .nil)) .nil)
  home := none

/-- The repository of the sample is the nearest one above its directory. -/
theorem isRepositoryTop_layeredDisk : IsRepositoryTop layeredDisk.top ["srv"] ["app"] ["srv", "app"] where
  naming_eq := by decide
  up_notMem := by decide
  git := by decide +kernel
  nearest nearer below habove hlt := by
    obtain rfl : below = [] := List.length_eq_zero_iff.mp (Nat.lt_one_iff.mp hlt)
    have hnearer := habove.naming_eq
    rw [List.append_nil] at hnearer
    rw [← hnearer]
    decide +kernel

/--
The rules of both files are in force in the directory, in the order of the layers: temporary files are ignored but for
one that is taken back in, and a rule with the path from the top of the repository matches what it names.
-/
theorem load_layers_sample :
    (Policy.load layeredDisk ["srv", "app"] []).layered =
        (rulesOf "" "*.tmp\n/app/private/\n!keep.tmp".toList).map (·.seenFrom "app") ∧
      (Policy.load layeredDisk ["srv", "app"] []).isMatch "x.tmp" false = true ∧
      (Policy.load layeredDisk ["srv", "app"] []).isMatch "keep.tmp" false = false ∧
      (Policy.load layeredDisk ["srv", "app"] []).isMatch "private" true = true ∧
      (Policy.load layeredDisk ["srv", "app"] []).isMatch "private" false = false ∧
      ∀ path isDir, (Policy.load layeredDisk ["srv", "app"] []).isMatch path isDir =
        (Policy.load layeredDisk ["srv"] []).isMatch (Path.under "app" path) isDir := by
  obtain ⟨hlayers, -, -, -, hsame⟩ := load_layers layeredDisk ["srv", "app"] []
  refine ⟨?_, by decide +kernel, by decide +kernel, by decide +kernel, by decide +kernel,
    hsame ["srv"] ["app"] isRepositoryTop_layeredDisk ?_ (by simp [layeredDisk]) (by decide +kernel)
      (by decide +kernel)⟩
  · rw [hlayers ["srv"] ["app"] isRepositoryTop_layeredDisk]
    decide +kernel
  · intro i hpos hle
    obtain rfl : i = 1 := by
      have : i ≤ 1 := hle
      omega
    decide +kernel

end RepoScope.Ignore
