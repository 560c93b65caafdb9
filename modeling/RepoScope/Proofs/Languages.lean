import Mathlib.Data.List.Basic
import Mathlib.Data.List.Induction
import RepoScope.Proofs.Sorting
import RepoScope.Stack

/-!
# The choice of a language

The language of a project is decided by two searches for a highest count. Where manifests declare languages, the
search runs over these in the order of inspection; where none does, it runs over the languages of the files in ascending
order. Both keep the first word of the highest count (`Stack.isFirstMost_of_firstHighest?`), and neither depends on the
order of the candidates.

* **`Stack.language_meaning`**: of the languages that readable manifests declare, the one with most files is chosen and
  the one inspected first where several have as many; without manifests it is the language with most files, and the
  smallest of several.
-/

namespace RepoScope.Stack

/-! ## Searching for the highest count

One search serves both choices. It keeps the best word so far and lets a later one take over only if it counts
more, so its result is the first word of the highest count; the induction is on the list from its end.
-/

/-- A word of a list that no other has more of, and that those before it have less of. -/
def IsFirstMost (count : String → Nat) (words : List String) (word : String) : Prop :=
  ∃ before behind, words = before ++ word :: behind ∧ (∀ other ∈ before, count other < count word) ∧
    ∀ other ∈ behind, count other ≤ count word

namespace IsFirstMost

variable {count : String → Nat} {words : List String} {word : String}

theorem mem (h : IsFirstMost count words word) : word ∈ words := by
  obtain ⟨before, behind, rfl, -, -⟩ := h
  exact List.mem_append_right before List.mem_cons_self

theorem le (h : IsFirstMost count words word) {other : String} (hother : other ∈ words) :
    count other ≤ count word := by
  obtain ⟨before, behind, rfl, hbefore, hbehind⟩ := h
  rcases List.mem_append.mp hother with hother | hother
  · exact Nat.le_of_lt (hbefore other hother)
  · rcases List.mem_cons.mp hother with rfl | hother
    · exact Nat.le_refl _
    · exact hbehind other hother

/-- A word behind the others takes over if it counts more. -/
theorem concat_of_lt (h : IsFirstMost count words word) {last : String} (hlast : count word < count last) :
    IsFirstMost count (words ++ [last]) last :=
  ⟨words, [], rfl, fun _ hother => Nat.lt_of_le_of_lt (h.le hother) hlast, fun _ hother => nomatch hother⟩

/-- A word behind the others that counts no more changes nothing. -/
theorem concat_of_le (h : IsFirstMost count words word) {last : String} (hlast : count last ≤ count word) :
    IsFirstMost count (words ++ [last]) word := by
  obtain ⟨before, behind, rfl, hbefore, hbehind⟩ := h
  refine ⟨before, behind ++ [last], by simp, hbefore, fun other hother => ?_⟩
  rcases List.mem_append.mp hother with hother | hother
  · exact hbehind other hother
  · exact List.mem_singleton.mp hother ▸ hlast

/-- In a list in ascending order, the first word of the highest count is the smallest. -/
theorem le_of_count_eq (h : IsFirstMost count words word) (horder : words.Pairwise (· < ·)) {other : String}
    (hother : other ∈ words) (hcount : count other = count word) : word ≤ other := by
  obtain ⟨before, behind, rfl, hbefore, -⟩ := h
  rcases List.mem_append.mp hother with hother | hother
  · exact absurd hcount (Nat.ne_of_lt (hbefore other hother))
  · rcases List.mem_cons.mp hother with rfl | hother
    · exact String.le_refl _
    · exact Std.le_of_lt ((List.pairwise_cons.mp (List.pairwise_append.mp horder).2.1).1 other hother)

end IsFirstMost

/-- The search looks at the last word after all others. -/
theorem firstHighest?_concat (count : String → Nat) (words : List String) (last : String) :
    firstHighest? count (words ++ [last])
      = match firstHighest? count words with
        | none => some last
        | some best => if count best < count last then some last else some best := by
  rw [firstHighest?, List.foldl_append, ← firstHighest?]
  cases firstHighest? count words <;> rfl

/-- A search of a list that is not empty finds the first word of the highest count. -/
theorem isFirstMost_of_firstHighest? (count : String → Nat) {words : List String} (h : words ≠ []) :
    ∃ word, firstHighest? count words = some word ∧ IsFirstMost count words word := by
  -- The word found so far is the one for the words looked at so far.
  induction words using List.reverseRecOn with
  | nil => exact absurd rfl h
  | append_singleton words last ih =>
    rw [firstHighest?_concat]
    by_cases hwords : words = []
    · subst hwords
      exact ⟨last, rfl, [], [], rfl, fun _ hother => (nomatch hother), fun _ hother => nomatch hother⟩
    · obtain ⟨best, hbest, hmost⟩ := ih hwords
      rw [hbest]
      by_cases hlast : count best < count last
      · exact ⟨last, if_pos hlast, hmost.concat_of_lt hlast⟩
      · exact ⟨best, if_neg hlast, hmost.concat_of_le (Nat.not_lt.mp hlast)⟩

/-! ## Languages of manifests

The manifests are inspected in a fixed order, and each declares a language by its name, `package.json` by what it
depends on. The order of inspection gives every language its place, and the declared languages stand in ascending
order of their places: this is what makes the list independent of the order of the candidates.
-/

/-- The languages that manifests can declare, in the order of inspection. -/
def manifestLanguages : List String :=
  ["typescript", "javascript", "python", "rust", "go", "java", "kotlin", "ruby"]

/-- The language that a manifest of this name and text declares. -/
inductive Declares (text : List Char) : String → String → Prop where
  | typescript {version : String} (h : ("typescript", version) ∈ Manifest.packageDependencies text) :
      Declares text "package.json" "typescript"
  | javascript (h : ∀ version, ("typescript", version) ∉ Manifest.packageDependencies text) :
      Declares text "package.json" "javascript"
  | python {name : String} (h : name ∈ ["requirements.txt", "pyproject.toml", "setup.py", "Pipfile"]) :
      Declares text name "python"
  | rust : Declares text "Cargo.toml" "rust"
  | go : Declares text "go.mod" "go"
  | java {name : String} (h : name ∈ ["pom.xml", "build.gradle"]) : Declares text name "java"
  | kotlin : Declares text "build.gradle.kts" "kotlin"
  | ruby : Declares text "Gemfile" "ruby"

/-- Whether a manifest among the candidates can be read and declares a language. -/
def IsDeclared (repo : Repository) (candidates : List Candidate) (language : String) : Prop :=
  ∃ name text, (∃ c ∈ candidates, c.path = name) ∧ repo.readText? name = some text ∧
    Declares text name language

theorem any_fst_iff {entries : List (String × String)} {name : String} :
    entries.any (·.1 == name) = true ↔ ∃ version, (name, version) ∈ entries := by
  simp [List.any_eq_true]

/-- A `package.json` declares the language of its signal. -/
theorem packageSignal_language (text : List Char) :
    Declares text "package.json" (packageSignal text).language := by
  by_cases h : (Manifest.packageDependencies text).any (·.1 == "typescript") = true
  · have hlanguage : (packageSignal text).language = "typescript" := if_pos h
    obtain ⟨_, hmem⟩ := any_fst_iff.mp h
    exact hlanguage ▸ .typescript hmem
  · have hlanguage : (packageSignal text).language = "javascript" := if_neg h
    exact hlanguage ▸ .javascript fun version hmem => h (any_fst_iff.mpr ⟨version, hmem⟩)

/-- A manifest declares the language of its signal. -/
theorem declares_iff {text : List Char} {name language : String} :
    Declares text name language ↔
      ∃ inspect, (name, inspect) ∈ manifests ∧ (inspect text).language = language := by
  constructor
  · intro h
    cases h with
    | typescript h => exact ⟨packageSignal, by simp [manifests], if_pos (any_fst_iff.mpr ⟨_, h⟩)⟩
    | javascript h =>
      refine ⟨packageSignal, by simp [manifests], if_neg fun hhas => ?_⟩
      obtain ⟨version, hmem⟩ := any_fst_iff.mp hhas
      exact h version hmem
    | python h =>
      refine ⟨pythonSignal, ?_, rfl⟩
      simp only [List.mem_cons, List.not_mem_nil, or_false] at h
      rcases h with rfl | rfl | rfl | rfl <;> simp [manifests]
    | rust => exact ⟨crateSignal, by simp [manifests], rfl⟩
    | go => exact ⟨goSignal, by simp [manifests], rfl⟩
    | java h =>
      refine ⟨searchedSignal "java" "spring-boot" "Spring Boot", ?_, rfl⟩
      simp only [List.mem_cons, List.not_mem_nil, or_false] at h
      rcases h with rfl | rfl <;> simp [manifests]
    | kotlin => exact ⟨searchedSignal "kotlin" "spring-boot" "Spring Boot", by simp [manifests], rfl⟩
    | ruby => exact ⟨searchedSignal "ruby" "rails" "Rails", by simp [manifests], rfl⟩
  · rintro ⟨inspect, hmem, rfl⟩
    simp only [manifests, List.mem_cons, Prod.mk.injEq, List.not_mem_nil, or_false] at hmem
    rcases hmem with ⟨rfl, rfl⟩ | ⟨rfl, rfl⟩ | ⟨rfl, rfl⟩ | ⟨rfl, rfl⟩ | ⟨rfl, rfl⟩ | ⟨rfl, rfl⟩ |
      ⟨rfl, rfl⟩ | ⟨rfl, rfl⟩ | ⟨rfl, rfl⟩ | ⟨rfl, rfl⟩ | ⟨rfl, rfl⟩
    · exact packageSignal_language text
    · exact .python (by decide)
    · exact .python (by decide)
    · exact .python (by decide)
    · exact .python (by decide)
    · exact .rust
    · exact .go
    · exact .java (by decide)
    · exact .java (by decide)
    · exact .kotlin
    · exact .ruby

/-- The languages that the manifests among the candidates declare, each once, in the order of inspection. -/
def declaredLanguages (repo : Repository) (candidates : List Candidate) : List String :=
  ((signals repo candidates).map (·.language)).eraseDups

/-- A language is in the list if a readable manifest declares it. -/
theorem mem_declaredLanguages {repo : Repository} {candidates : List Candidate} {language : String} :
    language ∈ declaredLanguages repo candidates ↔ IsDeclared repo candidates language := by
  simp only [declaredLanguages, List.mem_eraseDups, List.mem_map, signals, List.mem_filterMap, IsDeclared]
  constructor
  · rintro ⟨signal, ⟨⟨name, inspect⟩, hmem, hsome⟩, rfl⟩
    rw [Option.ite_none_right_eq_some, List.any_eq_true, Option.map_eq_some_iff] at hsome
    obtain ⟨⟨c, hc, hname⟩, text, htext, rfl⟩ := hsome
    exact ⟨name, text, ⟨c, hc, eq_of_beq hname⟩, htext, declares_iff.mpr ⟨inspect, hmem, rfl⟩⟩
  · rintro ⟨name, text, ⟨c, hc, hname⟩, htext, hdeclares⟩
    obtain ⟨inspect, hmem, rfl⟩ := declares_iff.mp hdeclares
    refine ⟨inspect text, ⟨(name, inspect), hmem, ?_⟩, rfl⟩
    rw [Option.ite_none_right_eq_some, List.any_eq_true, Option.map_eq_some_iff]
    exact ⟨⟨c, hc, beq_iff_eq.mpr hname⟩, text, htext, rfl⟩

/-- Where a language stands in the order of inspection. -/
def place (language : String) : Nat := manifestLanguages.idxOf language

/-- What a manifest declares is one of the languages that manifests can declare. -/
theorem mem_manifestLanguages {text : List Char} {name language : String} (h : Declares text name language) :
    language ∈ manifestLanguages := by
  cases h <;> decide

/-- The languages of a `package.json` are the first two. -/
theorem place_packageSignal_le (text : List Char) : place (packageSignal text).language ≤ 1 := by
  unfold packageSignal
  dsimp only
  split <;> decide

/-- Of two manifests, the one inspected first declares a language with no later place. -/
theorem pairwise_place_manifests :
    manifests.Pairwise fun a b => ∀ text text', place (a.2 text).language ≤ place (b.2 text').language := by
  have hpackage : ∀ n, 1 ≤ n → ∀ text, place (packageSignal text).language ≤ n :=
    fun _ h text => Nat.le_trans (place_packageSignal_le text) h
  have hplaces : place "python" = 2 ∧ place "rust" = 3 ∧ place "go" = 4 ∧ place "java" = 5 ∧
    place "kotlin" = 6 ∧ place "ruby" = 7 := by decide
  simp [manifests, pythonSignal, crateSignal, goSignal, searchedSignal, hplaces, hpackage]

/-- Of words whose places do not fall, each kept once, the places rise. -/
theorem pairwise_place_eraseDups {words : List String} (hknown : ∀ word ∈ words, word ∈ manifestLanguages)
    (horder : words.Pairwise fun a b => place a ≤ place b) :
    words.eraseDups.Pairwise fun a b => place a < place b := by
  induction hn : words.length using Nat.strongRecOn generalizing words with
  | ind n ih =>
    cases words with
    | nil => exact List.Pairwise.nil
    | cons first rest =>
      obtain ⟨hfirst, hrest⟩ := List.pairwise_cons.mp horder
      rw [List.eraseDups_cons, List.pairwise_cons]
      refine ⟨fun other hother => ?_, ih _ ?_ (fun word hword => ?_) (hrest.filter _) rfl⟩
      · obtain ⟨hmem, hne⟩ := List.mem_filter.mp (List.mem_eraseDups.mp hother)
        refine Nat.lt_of_le_of_ne (hfirst other hmem) fun heq => ?_
        have hsame := (List.idxOf_inj (hknown first List.mem_cons_self)).mp heq
        simp [hsame] at hne
      · exact hn ▸ Nat.lt_succ_of_le (List.length_filter_le _ _)
      · exact hknown word (List.mem_cons_of_mem _ (List.mem_filter.mp hword).1)

/-- Each declared language is listed once, in the order of inspection. -/
theorem pairwise_declaredLanguages (repo : Repository) (candidates : List Candidate) :
    (declaredLanguages repo candidates).Pairwise fun a b => place a < place b := by
  refine pairwise_place_eraseDups (fun language hlanguage => ?_) ?_
  · obtain ⟨_, _, -, -, hdeclares⟩ :=
      mem_declaredLanguages.mp (List.mem_eraseDups.mpr hlanguage)
    exact mem_manifestLanguages hdeclares
  · refine List.pairwise_map.mpr (List.pairwise_filterMap.mpr (pairwise_place_manifests.imp ?_))
    intro a b hplace signal hsignal signal' hsignal'
    rw [Option.ite_none_right_eq_some, Option.map_eq_some_iff] at hsignal hsignal'
    obtain ⟨-, text, -, rfl⟩ := hsignal
    obtain ⟨-, text', -, rfl⟩ := hsignal'
    exact hplace text text'

/-- The declared languages are some of those that manifests can declare, in the same order. -/
theorem declaredLanguages_sublist (repo : Repository) (candidates : List Candidate) :
    (declaredLanguages repo candidates).Sublist manifestLanguages := by
  have hsame : declaredLanguages repo candidates
      = manifestLanguages.filter (· ∈ declaredLanguages repo candidates) := by
    refine Sorting.eq_of_pairwise_of_mem_iff (r := fun a b => place a < place b)
      (fun _ _ => Nat.lt_asymm) (pairwise_declaredLanguages repo candidates)
      ((by decide : manifestLanguages.Pairwise fun a b => place a < place b).filter _) fun language => ?_
    rw [List.mem_filter, decide_eq_true_iff, iff_and_self]
    intro hmem
    obtain ⟨_, _, -, -, hdeclares⟩ := mem_declaredLanguages.mp hmem
    exact mem_manifestLanguages hdeclares
  rw [hsame]
  exact List.filter_sublist

/-! ## Languages of files

Without manifests the search runs over the languages of the files in ascending order, so of several with the
highest count the smallest is found, and there is one result whatever the order of the files.
-/

/-- A language that files have, no other has more of, and no smaller one has as many. -/
def IsMostCommon (candidates : List Candidate) (language : String) : Prop :=
  0 < fileCount candidates language ∧ ∀ other, fileCount candidates other ≤ fileCount candidates language ∧
    (fileCount candidates other = fileCount candidates language → language ≤ other)

/-- There is one most common language. -/
theorem IsMostCommon.unique {candidates : List Candidate} {language other : String}
    (h : IsMostCommon candidates language) (hother : IsMostCommon candidates other) : language = other := by
  have hcount : fileCount candidates language = fileCount candidates other :=
    Nat.le_antisymm (hother.2 language).1 (h.2 other).1
  exact String.le_antisymm ((h.2 other).2 hcount.symm) ((hother.2 language).2 hcount)

/-- The languages of the candidates, in ascending order. -/
def fileLanguages (candidates : List Candidate) : List String :=
  Sorting.ascending (candidates.filterMap languageOf?)

/-- The languages of the files are those with files. -/
theorem mem_fileLanguages {candidates : List Candidate} {language : String} :
    language ∈ fileLanguages candidates ↔ 0 < fileCount candidates language := by
  simp [fileLanguages, Sorting.mem_ascending, fileCount, List.countP_pos_iff]

/-- In ascending order, the first word of the highest count is the most common language. -/
theorem isMostCommon_of_isFirstMost {candidates : List Candidate} {language : String}
    (h : IsFirstMost (fileCount candidates) (fileLanguages candidates) language) :
    IsMostCommon candidates language := by
  have hpos : 0 < fileCount candidates language := mem_fileLanguages.mp h.mem
  refine ⟨hpos, fun other => ?_⟩
  by_cases hother : other ∈ fileLanguages candidates
  · exact ⟨h.le hother, h.le_of_count_eq (Sorting.pairwise_ascending _) hother⟩
  · have hzero : fileCount candidates other = 0 := Nat.eq_zero_of_not_pos fun h => hother (mem_fileLanguages.mpr h)
    exact ⟨hzero ▸ Nat.zero_le _, fun heq => absurd (heq.symm.trans hzero) (Nat.ne_of_gt hpos)⟩

/-- There are no languages if no file has one. -/
theorem fileLanguages_eq_nil_iff {candidates : List Candidate} :
    fileLanguages candidates = [] ↔ ∀ c ∈ candidates, languageOf? c = none := by
  rw [List.eq_nil_iff_forall_not_mem]
  simp only [fileLanguages, Sorting.mem_ascending]
  rw [← List.eq_nil_iff_forall_not_mem, List.filterMap_eq_nil_iff]

theorem language?_nil (candidates : List Candidate) :
    language? [] candidates = firstHighest? (fileCount candidates) (fileLanguages candidates) := rfl

/-- Without manifests, the language found is the most common one. -/
theorem language?_nil_eq_some_iff {candidates : List Candidate} {language : String} :
    language? [] candidates = some language ↔ IsMostCommon candidates language := by
  have hfound : ∀ {word}, word ∈ fileLanguages candidates →
      ∃ best, language? [] candidates = some best ∧ IsMostCommon candidates best := by
    intro word hword
    obtain ⟨best, hbest, hmost⟩ :=
      isFirstMost_of_firstHighest? (fileCount candidates) (List.ne_nil_of_mem hword)
    exact ⟨best, hbest, isMostCommon_of_isFirstMost hmost⟩
  constructor
  · intro h
    have hne : fileLanguages candidates ≠ [] := by
      intro hnil
      rw [language?_nil, hnil] at h
      cases h
    obtain ⟨word, hword⟩ := List.exists_mem_of_ne_nil _ hne
    obtain ⟨best, hbest, hmost⟩ := hfound hword
    obtain rfl : best = language := Option.some_inj.mp (hbest.symm.trans h)
    exact hmost
  · intro h
    obtain ⟨best, hbest, hmost⟩ := hfound (mem_fileLanguages.mpr h.1)
    rw [hbest, hmost.unique h]

/-- Without manifests, no language is found exactly where no file has one. -/
theorem language?_nil_eq_none_iff {candidates : List Candidate} :
    language? [] candidates = none ↔ ∀ c ∈ candidates, languageOf? c = none := by
  rw [← fileLanguages_eq_nil_iff, language?_nil]
  constructor
  · intro h
    by_contra hne
    obtain ⟨best, hbest, -⟩ := isFirstMost_of_firstHighest? (fileCount candidates) hne
    rw [hbest] at h
    cases h
  · intro hnil
    rw [hnil]
    rfl

/-! ## The language of the project

Both searches run over lists and counts that stay the same when the candidates are put in another order, and so the
language does.
-/

section Perm

variable {repo : Repository} {candidates candidates' : List Candidate} (h : candidates.Perm candidates')
include h

/-- The order of the candidates does not change how many files a language has. -/
theorem fileCount_perm : fileCount candidates = fileCount candidates' :=
  funext fun _ => h.countP_eq _

/-- Nor does it change the signals, which come in the order of inspection. -/
theorem signals_perm : signals repo candidates = signals repo candidates' := by
  have hany : ∀ name, candidates.any (·.path == name) = candidates'.any (·.path == name) := by
    intro name
    rw [Bool.eq_iff_iff, List.any_eq_true, List.any_eq_true]
    simp only [h.mem_iff]
  unfold signals
  simp only [hany]

/-- Nor does it change the languages of the files. -/
theorem fileLanguages_perm : fileLanguages candidates = fileLanguages candidates' := by
  refine Sorting.eq_of_pairwise_of_mem_iff (fun _ _ => String.lt_asymm) (Sorting.pairwise_ascending _)
    (Sorting.pairwise_ascending _) ?_
  intro language
  exact mem_fileLanguages.trans (fileCount_perm h ▸ mem_fileLanguages.symm)

/-- So it does not change the language that is found. -/
theorem language?_perm (named : List String) : language? named candidates = language? named candidates' := by
  rw [language?, language?, fileCount_perm h, ← fileLanguages, ← fileLanguages, fileLanguages_perm h]

end Perm

theorem profile_language (repo : Repository) (candidates : List Candidate) :
    (profile repo candidates).language = language? (declaredLanguages repo candidates) candidates := rfl

/--
Let the declared languages be those of the readable manifests among the candidates, in the order of inspection. If there
are any, the language of the project is the first of those with most files. If there are none, it is the language with
most files, the smallest of several, and there is none only if no candidate has the extension of a language. The order
of the candidates makes no difference.
-/
theorem language_meaning (repo : Repository) (candidates : List Candidate) :
    ∃ declared : List String, declared.Sublist manifestLanguages ∧
      (∀ language, language ∈ declared ↔ IsDeclared repo candidates language) ∧
      (declared ≠ [] → ∃ language, (profile repo candidates).language = some language ∧
        IsFirstMost (fileCount candidates) declared language) ∧
      (declared = [] →
        (∀ language, (profile repo candidates).language = some language ↔ IsMostCommon candidates language) ∧
        ((profile repo candidates).language = none ↔ ∀ c ∈ candidates, languageOf? c = none)) ∧
      ∀ candidates', candidates.Perm candidates' →
        (profile repo candidates').language = (profile repo candidates).language := by
  refine ⟨declaredLanguages repo candidates, declaredLanguages_sublist repo candidates,
    fun _ => mem_declaredLanguages, fun hne => ?declared, fun hnil => ?undeclared, fun candidates' h => ?perm⟩
  case declared =>
    rw [profile_language, language?, if_neg (by simpa using hne)]
    exact isFirstMost_of_firstHighest? (fileCount candidates) hne
  case undeclared =>
    rw [profile_language, hnil]
    exact ⟨fun _ => language?_nil_eq_some_iff, language?_nil_eq_none_iff⟩
  case perm =>
    rw [profile_language, profile_language, declaredLanguages, declaredLanguages, signals_perm h,
      language?_perm h]

/-- A repository of two languages. -/
def sampleRepository : Repository :=
  { disk := { top := .dir (.cons "go.mod" (.file []) (.cons "Cargo.toml" (.file []) .nil)), home := none }
    root := [] }

/-- Its sources, as many of the one language as of the other. -/
def sampleSources : List Candidate := [⟨"b.go", 0, some "go"⟩, ⟨"a.rs", 0, some "rs"⟩]

/-- Its manifests and sources. -/
def sampleCandidates : List Candidate :=
  ⟨"go.mod", 0, some "mod"⟩ :: ⟨"Cargo.toml", 0, some "toml"⟩ :: sampleSources

/-- With manifests, the language that is inspected first decides between as many files; without, the smaller one. -/
theorem language_meaning_sample :
    (∃ declared, "go" ∈ declared ∧ IsFirstMost (fileCount sampleCandidates) declared "rust") ∧
      (profile sampleRepository sampleCandidates.reverse).language = some "rust" ∧
      IsMostCommon sampleSources "go" := by
  obtain ⟨declared, -, hmem, hdeclared, -, hperm⟩ := language_meaning sampleRepository sampleCandidates
  obtain ⟨_, -, hmem', -, hundeclared, -⟩ := language_meaning sampleRepository sampleSources
  have hrust : (profile sampleRepository sampleCandidates).language = some "rust" := by decide +kernel
  have hgo : (profile sampleRepository sampleSources).language = some "go" := by decide +kernel
  have hgoDeclared : "go" ∈ declared :=
    (hmem "go").mpr ⟨"go.mod", [], by simp [sampleCandidates], by decide +kernel, .go⟩
  refine ⟨⟨declared, hgoDeclared, ?_⟩, ?_, ?_⟩
  · obtain ⟨language, hlanguage, hmost⟩ := hdeclared (List.ne_nil_of_mem hgoDeclared)
    obtain rfl : language = "rust" := Option.some_inj.mp (hlanguage.symm.trans hrust)
    exact hmost
  · rw [hperm _ (List.reverse_perm _).symm, hrust]
  · refine ((hundeclared ?_).1 "go").mp hgo
    refine List.eq_nil_iff_forall_not_mem.mpr fun language hlanguage => ?_
    obtain ⟨_, _, ⟨c, hc, rfl⟩, -, hdeclares⟩ := (hmem' language).mp hlanguage
    obtain ⟨inspect, hmanifest, -⟩ := declares_iff.mp hdeclares
    have hnone : ∀ c ∈ sampleSources, c.path ∉ manifests.map (·.1) := by decide
    exact hnone c hc (List.mem_map_of_mem hmanifest)

end RepoScope.Stack
