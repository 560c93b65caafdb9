import Mathlib.Data.List.Induction
import RepoScope.Proofs.Ignore.Meaning

/-!
# The verdict of a policy

Seen for itself, a path is left out for one of three reasons (`Policy.Excludes`): it is a directory with a hidden
name, a rule that each match of ignores matches it, or the last layered rule that matches it is not negated. The fold
over the layered rules keeps the verdict of the last match (`foldl_isMatch_iff`).

A path is ignored if it or a directory above it is left out in this way, whatever rule would take it back in
(`Policy.isIgnored_iff`). The globs of a request only add reasons, so those of two requests together ignore what either
ignores (**`isIgnored_verdict`**).
-/

namespace RepoScope.Ignore

open Text

variable {policy : Policy} {rules : List Rule} {path : String} {isDir : Bool}

/-! ## The last match

`LastExcludes` says of a list of rules what the fold computes: there is a last rule that matches, and it does not
take the path back in. It is put together from the end of the list, as the fold is.
-/

/-- Whether the last rule that matches a path does not take it back in. -/
def LastExcludes (rules : List Rule) (path : String) (isDir : Bool) : Prop :=
  ∃ before rule after, rules = before ++ rule :: after ∧ rule.isMatch path isDir = true ∧
    rule.negated = false ∧ ∀ later ∈ after, later.isMatch path isDir = false

/-- Without rules nothing is left out. -/
theorem not_lastExcludes_nil : ¬LastExcludes [] path isDir := by
  rintro ⟨before, rule, after, heq, -⟩
  simp at heq

/-- A further rule decides if it matches, and leaves the verdict as it is otherwise. -/
theorem lastExcludes_concat_iff {rule : Rule} :
    LastExcludes (rules ++ [rule]) path isDir ↔
      if rule.isMatch path isDir then rule.negated = false else LastExcludes rules path isDir := by
  constructor
  · rintro ⟨before, decisive, after, heq, hmatch, hnegated, hafter⟩
    -- The deciding rule is the new one, or it stands before it and the new one does not match.
    rcases List.eq_nil_or_concat after with rfl | ⟨after, last, rfl⟩
    · obtain ⟨-, rfl⟩ := List.append_singleton_inj.mp heq
      rwa [if_pos hmatch]
    · rw [List.concat_eq_append] at heq hafter
      rw [← List.cons_append, ← List.append_assoc] at heq
      obtain ⟨rfl, rfl⟩ := List.append_singleton_inj.mp heq
      rw [if_neg (by simp [hafter rule (by simp)])]
      exact ⟨before, decisive, after, rfl, hmatch, hnegated, fun later h => hafter later (by simp [h])⟩
  · intro h
    split at h
    · next hmatch => exact ⟨rules, rule, [], rfl, hmatch, h, by simp⟩
    · next hmatch =>
      obtain ⟨before, decisive, after, rfl, hdecisive, hnegated, hafter⟩ := h
      refine ⟨before, decisive, after ++ [rule], by simp, hdecisive, hnegated, ?_⟩
      intro later hlater
      rcases List.mem_append.mp hlater with hlater | hlater
      · exact hafter later hlater
      · rw [List.mem_singleton.mp hlater]
        simpa using hmatch

/-- The fold over the rules keeps the verdict of the last one that matches. -/
theorem foldl_isMatch_iff :
    rules.foldl (fun ignored rule => if rule.isMatch path isDir then !rule.negated else ignored) false = true ↔
      LastExcludes rules path isDir := by
  induction rules using List.reverseRecOn with
  | nil => simp [not_lastExcludes_nil]
  | append_singleton rules rule ih =>
    rw [List.foldl_append, List.foldl_cons, List.foldl_nil, lastExcludes_concat_iff, ← ih]
    split
    · simp
    · rfl

/-! ## One path

The reasons do not exclude each other, and the order in which the program checks them makes no difference.
-/

/-- The reasons for which a policy leaves a path out, whatever holds of the directories above it. -/
inductive Policy.Excludes (policy : Policy) (path : String) (isDir : Bool) : Prop
  /-- It is a directory whose name starts with a dot, and is neither that dot alone nor two dots. -/
  | hidden {name : List Char} (hdir : isDir = true) (hlast : Glob.lastComponent path.toList = '.' :: name)
      (hname : name ≠ []) (hdots : name ≠ ['.']) : Excludes policy path isDir
  | always {rule : Rule} (hrule : rule ∈ policy.always) (hmatch : rule.isMatch path isDir = true) :
      Excludes policy path isDir
  | layered (hlast : LastExcludes policy.layered path isDir) : Excludes policy path isDir

/-- A name is hidden if it starts with a dot and is neither this dot alone nor two of them. -/
theorem isHiddenName_iff : isHiddenName (Path.baseName path) = true ↔
    ∃ name, Glob.lastComponent path.toList = '.' :: name ∧ name ≠ [] ∧ name ≠ ['.'] := by
  unfold isHiddenName
  rw [← Glob.toList_baseName]
  simp only [Bool.and_eq_true, decide_eq_true_eq, ne_eq, String.ext_iff]
  rw [show ".".toList = ['.'] from rfl, show "..".toList = ['.', '.'] from rfl]
  cases (Path.baseName path).toList with
  | nil => simp
  | cons c name =>
    by_cases hc : c = '.'
    · subst hc
      simp
    · simp [hc]

/-- A path is left out for one of the reasons, and only then. -/
theorem Policy.isMatch_iff : policy.isMatch path isDir = true ↔ policy.Excludes path isDir := by
  unfold Policy.isMatch
  rw [Bool.or_eq_true, Bool.or_eq_true, Bool.and_eq_true, foldl_isMatch_iff, isHiddenName_iff, List.any_eq_true]
  constructor
  · rintro ((⟨hdir, name, hlast, hname, hdots⟩ | ⟨rule, hrule, hmatch⟩) | hlast)
    · exact .hidden hdir hlast hname hdots
    · exact .always hrule hmatch
    · exact .layered hlast
  · intro h
    cases h with
    | hidden hdir hlast hname hdots => exact .inl (.inl ⟨hdir, _, hlast, hname, hdots⟩)
    | always hrule hmatch => exact .inl (.inr ⟨_, hrule, hmatch⟩)
    | layered hlast => exact .inr hlast

/-! ## Paths and the directories above them

The program asks about each directory on the way to a path, from the top down, and then about the path itself. Each
place where a path can be cut at a slash is one of these directories.
-/

/-- A path is ignored if it or a directory above it is left out. -/
theorem Policy.isIgnored_iff : policy.isIgnored path isDir = true ↔
    policy.Excludes path isDir ∨ ∃ dir rest, path = dir ++ "/" ++ rest ∧ policy.Excludes dir true := by
  unfold Policy.isIgnored
  rw [Bool.or_eq_true, List.any_eq_true, or_comm, Policy.isMatch_iff]
  refine or_congr_right ⟨?_, ?_⟩
  · rintro ⟨dir, hdir, hmatch⟩
    obtain ⟨rest, hpath⟩ := mem_ancestors_iff.mp hdir
    exact ⟨dir, rest, hpath, Policy.isMatch_iff.mp hmatch⟩
  · rintro ⟨dir, rest, hpath, hexcludes⟩
    exact ⟨dir, mem_ancestors_iff.mpr ⟨rest, hpath⟩, Policy.isMatch_iff.mpr hexcludes⟩

/-- Below an ignored directory everything is ignored. -/
theorem Policy.isIgnored_append (h : policy.isIgnored path true = true) (rest : String) (isDir : Bool) :
    policy.isIgnored (path ++ "/" ++ rest) isDir = true := by
  rw [Policy.isIgnored_iff] at h ⊢
  rcases h with hexcludes | ⟨dir, below, rfl, hexcludes⟩
  · exact .inr ⟨path, rest, rfl, hexcludes⟩
  · exact .inr ⟨dir, below ++ "/" ++ rest, by simp only [String.append_assoc], hexcludes⟩

/-! ## Globs of a request

The globs of a request are read as lines of an ignore file, but they are not layered: the rules of those that are
not negated apply always, and the others are dropped.
-/

variable {disk : Disk} {root g h : List String}

/-- What applies always are the built-in rules and those of the globs that are not negated. -/
theorem mem_always_load_iff {rule : Rule} : rule ∈ (Policy.load disk root g).always ↔
    rule ∈ builtinRules ∨
      ∃ glob ∈ g, Rule.parse? "" glob.toList = some rule ∧ (trim glob.toList).head? ≠ some '!' := by
  unfold Policy.load
  simp only [List.mem_append, List.mem_filter, List.mem_filterMap, Bool.not_eq_true']
  refine or_congr_right ⟨?_, ?_⟩
  · rintro ⟨⟨glob, hglob, hrule⟩, hnegated⟩
    refine ⟨glob, hglob, hrule, fun hmark => ?_⟩
    rw [(Rule.negated_of_parse? hrule).mpr hmark] at hnegated
    cases hnegated
  · rintro ⟨glob, hglob, hrule, hmark⟩
    exact ⟨⟨glob, hglob, hrule⟩, Bool.eq_false_iff.mpr (hmark ∘ (Rule.negated_of_parse? hrule).mp)⟩

/-- A negated glob of a request has no effect. -/
theorem load_negated {glob : String} (hmark : (trim glob.toList).head? = some '!') :
    Policy.load disk root (g ++ glob :: h) = Policy.load disk root (g ++ h) := by
  have hnone : (([glob].filterMap fun glob => Rule.parse? "" glob.toList).filter (!·.negated)) = [] := by
    rw [List.filter_eq_nil_iff]
    intro rule hrule
    obtain ⟨parsed, hparsed, hrule⟩ := List.mem_filterMap.mp hrule
    rw [List.mem_singleton.mp hparsed] at hrule
    simp [(Rule.negated_of_parse? hrule).mpr hmark]
  unfold Policy.load
  rw [List.append_cons, List.filterMap_append, List.filterMap_append, List.filter_append, List.filter_append,
    hnone, List.append_nil, List.filterMap_append, List.filter_append]

/-- The globs of two requests together leave out what those of either leave out. -/
theorem load_append_excludes_iff : (Policy.load disk root (g ++ h)).Excludes path isDir ↔
    (Policy.load disk root g).Excludes path isDir ∨ (Policy.load disk root h).Excludes path isDir := by
  constructor
  · intro hexcludes
    cases hexcludes with
    | hidden hdir hlast hname hdots => exact .inl (.hidden hdir hlast hname hdots)
    | always hrule hmatch =>
      rcases mem_always_load_iff.mp hrule with hbuiltin | ⟨glob, hglob, hparse⟩
      · exact .inl (.always (mem_always_load_iff.mpr (.inl hbuiltin)) hmatch)
      · rcases List.mem_append.mp hglob with hglob | hglob
        · exact .inl (.always (mem_always_load_iff.mpr (.inr ⟨glob, hglob, hparse⟩)) hmatch)
        · exact .inr (.always (mem_always_load_iff.mpr (.inr ⟨glob, hglob, hparse⟩)) hmatch)
    | layered hlast => exact .inl (.layered hlast)
  -- More globs only add reasons.
  · have hmore : ∀ {few}, few ⊆ g ++ h → (Policy.load disk root few).Excludes path isDir →
        (Policy.load disk root (g ++ h)).Excludes path isDir := by
      intro few hfew hexcludes
      cases hexcludes with
      | hidden hdir hlast hname hdots => exact .hidden hdir hlast hname hdots
      | always hrule hmatch =>
        refine .always (mem_always_load_iff.mpr ?_) hmatch
        exact (mem_always_load_iff.mp hrule).imp_right fun ⟨glob, hglob, hparse⟩ => ⟨glob, hfew hglob, hparse⟩
      | layered hlast => exact .layered hlast
    rintro (hexcludes | hexcludes)
    · exact hmore (List.subset_append_left g h) hexcludes
    · exact hmore (List.subset_append_right g h) hexcludes

/-- The globs of two requests together ignore what those of either ignore. -/
theorem load_append_isIgnored : (Policy.load disk root (g ++ h)).isIgnored path isDir =
    ((Policy.load disk root g).isIgnored path isDir || (Policy.load disk root h).isIgnored path isDir) := by
  rw [Bool.eq_iff_iff, Bool.or_eq_true]
  simp only [Policy.isIgnored_iff, load_append_excludes_iff, and_or_left, exists_or]
  exact or_or_or_comm

/-! ## The verdict

What holds of negated globs, of the globs of two requests and below an ignored directory follows from the verdict,
and stands with it in one statement.
-/

/--
The verdict of a policy, and what follows from it: everything below an ignored directory is ignored; no layered rule
undoes the match of another rule, be it built in or from the request; and the globs of a request only add up, those that
are negated not at all.
-/
theorem isIgnored_verdict (policy : Policy) (disk : Disk) (root g h : List String) (path : String)
    (isDir : Bool) :
    (policy.isIgnored path isDir = true ↔
      policy.Excludes path isDir ∨ ∃ dir rest, path = dir ++ "/" ++ rest ∧ policy.Excludes dir true) ∧
    (policy.isIgnored path true = true →
      ∀ rest isDir, policy.isIgnored (path ++ "/" ++ rest) isDir = true) ∧
    (∀ rule ∈ policy.always, rule.isMatch path isDir = true → policy.isIgnored path isDir = true) ∧
    (∀ rule, rule ∈ (Policy.load disk root g).always ↔ rule ∈ builtinRules ∨
      ∃ glob ∈ g, Rule.parse? "" glob.toList = some rule ∧ (trim glob.toList).head? ≠ some '!') ∧
    (∀ glob : String, (trim glob.toList).head? = some '!' →
      Policy.load disk root (g ++ glob :: h) = Policy.load disk root (g ++ h)) ∧
    (Policy.load disk root (g ++ h)).isIgnored path isDir =
      ((Policy.load disk root g).isIgnored path isDir || (Policy.load disk root h).isIgnored path isDir) := by
  refine ⟨Policy.isIgnored_iff, Policy.isIgnored_append, fun rule hrule hmatch => ?_,
    fun rule => mem_always_load_iff, fun glob => load_negated, load_append_isIgnored⟩
  exact Policy.isIgnored_iff.mpr (.inl (.always hrule hmatch))

/-- A root whose ignore file takes two directories back in. -/
def lenientDisk : Disk where
  top := .dir (.cons "srv" (.dir (.cons ".gitignore" (.file (encode "!docs/\n!target/".toList)) .nil)) .nil)
  home := none

/--
A directory that a glob and one that a built-in rule ignores stay ignored, although the root's ignore file takes
both back in, and a negated glob changes nothing.
-/
theorem isIgnored_verdict_sample :
    (Policy.load lenientDisk ["srv"] ["docs/"]).isIgnored "docs/index.md" false = true ∧
      (Policy.load lenientDisk ["srv"] []).isIgnored "target/debug/app" false = true ∧
      Policy.load lenientDisk ["srv"] ["docs/", " !docs/"] = Policy.load lenientDisk ["srv"] ["docs/"] := by
  have hdocs := isIgnored_verdict (Policy.load lenientDisk ["srv"] ["docs/"]) lenientDisk ["srv"] ["docs/"] []
    "docs" true
  have htarget := isIgnored_verdict (Policy.load lenientDisk ["srv"] []) lenientDisk ["srv"] [] [] "target" true
  obtain ⟨-, hbelow, hundone, hmem, hnegated, -⟩ := hdocs
  refine ⟨hbelow ?docs "index.md" false, htarget.2.1 ?target "debug/app" false, hnegated " !docs/" (by decide)⟩
  case docs =>
    have hmatch : (Rule.parse? "" "docs/".toList).any (·.isMatch "docs" true) = true := by decide +kernel
    obtain ⟨rule, hrule, hmatch⟩ := (Option.any_eq_true _ _).mp hmatch
    exact hundone rule ((hmem rule).mpr (.inr ⟨"docs/", by simp, hrule, by decide⟩)) hmatch
  case target =>
    have hmatch : builtinRules.any (·.isMatch "target" true) = true := by decide +kernel
    obtain ⟨rule, hrule, hmatch⟩ := List.any_eq_true.mp hmatch
    exact htarget.2.2.1 rule ((htarget.2.2.2.1 rule).mpr (.inl hrule)) hmatch

end RepoScope.Ignore
