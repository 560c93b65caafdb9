import Mathlib.Data.List.Nodup
import RepoScope.Proofs.Shaking

/-!
# What a reference means

A reference means the first of its probes that is a file. This is said here without the list of probes: a base
that is a file stands for itself, another one for the file with the first extension that gives one, and else
for the first index file in it (`Family.StandsFor`); a reference means what the first base that stands for
something stands for (`Family.Means`). Resolution finds this file and no other (`resolve?_eq_some_iff`).

* **`dependencies_exact`**: the dependencies of a target are the candidates that its references mean, without
  the target, each once in the order of the paths, in whatever order the candidates come.
-/

namespace RepoScope.Import

/-! ## First hits

Resolution looks for the first hit in a list that is built from three others. To say the same without building it,
a first hit is a member with the property such that none before it has it.
-/

/-- Whether an item is the first one in a list for which something holds. -/
def IsFirst {α : Type} (p : α → Prop) (items : List α) (a : α) : Prop :=
  ∃ before after, items = before ++ a :: after ∧ p a ∧ ∀ b ∈ before, ¬p b

/-- The first hit is the first item for which the property holds. -/
theorem find?_eq_some_iff_isFirst {α : Type} {p : α → Prop} [DecidablePred p] {items : List α}
    {a : α} : items.find? (fun x => decide (p x)) = some a ↔ IsFirst p items a := by
  simp only [List.find?_eq_some_iff_append, IsFirst, decide_eq_true_eq, Bool.not_eq_eq_eq_not,
    Bool.not_true, decide_eq_false_iff_not]
  constructor
  · intro ⟨ha, before, after, heq, hbefore⟩
    exact ⟨before, after, heq, ha, hbefore⟩
  · intro ⟨before, after, heq, ha, hbefore⟩
    exact ⟨ha, before, after, heq, hbefore⟩

/-- In a list of images, the first hit is the image of the first item whose image has the property. -/
theorem find?_map_eq_some_iff {p : String → Prop} [DecidablePred p] {f : String → String}
    {items : List String} {path : String} :
    (items.map f).find? (fun x => decide (p x)) = some path ↔
      ∃ item, IsFirst (fun x => p (f x)) items item ∧ f item = path := by
  rw [List.find?_map, Option.map_eq_some_iff]
  simp only [Function.comp_def, find?_eq_some_iff_isFirst]

/-! ## Bases

A base is probed as it is, with each extension and as a directory, in this order. The three cases of
`Family.StandsFor` are the three parts of the list of probes, each with no hit in the parts before it.
-/

/-- The file that a base stands for, where these are the paths of the files. -/
inductive Family.StandsFor (family : Family) (files : List String) (base : String) : String → Prop
  | itself (h : base ∈ files) : StandsFor family files base base
  | extended {extension : String} (hbase : base ∉ files)
      (h : IsFirst (fun e => base ++ "." ++ e ∈ files) family.extensions extension) :
      StandsFor family files base (base ++ "." ++ extension)
  | index {file : String} (hbase : base ∉ files)
      (hextensions : ∀ e ∈ family.extensions, base ++ "." ++ e ∉ files)
      (h : IsFirst (fun f => base ++ "/" ++ f ∈ files) family.indexFiles file) :
      StandsFor family files base (base ++ "/" ++ file)

/-- The file that a reference means: what the first of its bases that stands for a file stands for. -/
def Family.Means (family : Family) (files : List String) (reference : Reference) (path : String) :
    Prop :=
  ∃ base, IsFirst (fun b => b ≠ "" ∧ ∃ p, family.StandsFor files b p) reference.bases base ∧
    family.StandsFor files base path

variable {family : Family} {files : List String}

/-- The first probe of a base that is a file is what the base stands for. -/
theorem find?_probesAt_eq_some_iff {base path : String} :
    (family.probesAt base).find? (fun p => decide (p ∈ files)) = some path ↔
      family.StandsFor files base path := by
  rw [Family.probesAt, List.cons_append, List.find?_cons]
  -- The rules of `StandsFor` exclude each other as the probes do: each asks that all earlier ones fail.
  by_cases hbase : base ∈ files
  · rw [decide_eq_true hbase]
    constructor
    · intro h
      obtain rfl : base = path := Option.some.inj h
      exact .itself hbase
    · intro h
      cases h with
      | itself => rfl
      | extended hnot => exact absurd hbase hnot
      | index hnot => exact absurd hbase hnot
  · rw [decide_eq_false hbase]
    dsimp only
    rw [List.find?_append, Option.or_eq_some_iff, find?_map_eq_some_iff, find?_map_eq_some_iff,
      List.find?_eq_none]
    simp only [List.forall_mem_map, decide_eq_true_eq]
    constructor
    · rintro (⟨extension, hfirst, rfl⟩ | ⟨hnone, file, hfirst, rfl⟩)
      · exact .extended hbase hfirst
      · exact .index hbase hnone hfirst
    · intro h
      cases h with
      | itself h => exact absurd h hbase
      | extended _ hfirst => exact .inl ⟨_, hfirst, rfl⟩
      | index _ hnone hfirst => exact .inr ⟨hnone, _, hfirst, rfl⟩

/-! ## References

The bases of a reference are probed one after the other, and one that is empty is passed over.
-/

/-- A path is among the candidates if it is one of their paths. -/
theorem any_path_eq_decide (candidates : List Candidate) (path : String) :
    candidates.any (·.path == path) = decide (path ∈ candidates.map (·.path)) := by
  rw [Bool.eq_iff_iff]
  simp

/-- The first hit among the probes of a reference is the first hit of the first base that has one. -/
theorem find?_probes (reference : Reference) :
    (family.probes reference).find? (fun p => decide (p ∈ files))
      = reference.bases.findSome? fun base =>
          if base = "" then none else (family.probesAt base).find? fun p => decide (p ∈ files) := by
  rw [Family.probes, List.find?_flatMap]
  induction reference.bases with
  | nil => rfl
  | cons base rest ih =>
    by_cases hbase : base = ""
    · rw [List.filter_cons_of_neg (by simpa using hbase), List.findSome?_cons, if_pos hbase, ih]
    · rw [List.filter_cons_of_pos (by simpa using hbase), List.findSome?_cons, List.findSome?_cons,
        if_neg hbase, ih]

/-- Resolution finds what a reference means. -/
theorem resolve?_eq_some_iff {candidates : List Candidate} {reference : Reference} {path : String} :
    family.resolve? candidates reference = some path ↔
      family.Means (candidates.map (·.path)) reference path := by
  rw [Family.resolve?]
  simp only [any_path_eq_decide]
  generalize candidates.map (·.path) = files
  have hhit : ∀ base p, (if base = "" then none
      else (family.probesAt base).find? fun p => decide (p ∈ files)) = some p ↔
        base ≠ "" ∧ family.StandsFor files base p := by
    intro base p
    rw [Option.ite_none_left_eq_some, find?_probesAt_eq_some_iff]
  have hmiss : ∀ base, (if base = "" then none
      else (family.probesAt base).find? fun p => decide (p ∈ files)) = none ↔
        ¬(base ≠ "" ∧ ∃ p, family.StandsFor files base p) := by
    intro base
    rw [Option.eq_none_iff_forall_ne_some, not_and, not_exists]
    simp only [ne_eq, hhit, not_and]
    exact ⟨fun h hne p => h p hne, fun h p hne => h hne p⟩
  rw [find?_probes, List.findSome?_eq_some_iff]
  simp only [hhit, hmiss]
  constructor
  · intro ⟨before, base, after, heq, ⟨hne, hstands⟩, hbefore⟩
    exact ⟨base, ⟨before, after, heq, ⟨hne, path, hstands⟩, hbefore⟩, hstands⟩
  · intro ⟨base, ⟨before, after, heq, ⟨hne, _⟩, hbefore⟩, hstands⟩
    exact ⟨before, base, after, heq, ⟨hne, hstands⟩, hbefore⟩

/-- What a reference means is a file. -/
theorem mem_of_resolve? {candidates : List Candidate} {reference : Reference} {path : String}
    (h : family.resolve? candidates reference = some path) : path ∈ candidates.map (·.path) := by
  rw [Family.resolve?] at h
  have hany := List.find?_some h
  rw [any_path_eq_decide] at hany
  exact of_decide_eq_true hany

/-! ## Dependencies

The dependencies are found by going through the candidates, so they have their order, and no path stands twice. The
order of the candidates makes no difference where their paths are all different.
-/

/-- The dependencies of a target with a family are those of its text. -/
theorem dependencies_eq {target : Candidate}
    (hfamily : target.extension.bind Family.ofExtension? = some family) (bytes : Bytes)
    (candidates : List Candidate) :
    dependencies target (some bytes) candidates
      = dependenciesIn family target.path (Text.decodeLossy bytes) candidates := by
  simp only [dependencies, hfamily]

/-- The paths of the dependencies are those that references mean, without that of the target. -/
theorem mem_map_path_dependencies_iff {target : Candidate}
    (hfamily : target.extension.bind Family.ofExtension? = some family) {bytes : Bytes}
    {candidates : List Candidate} {path : String} :
    path ∈ (dependencies target (some bytes) candidates).map (·.path) ↔
      path ≠ target.path ∧ ∃ reference ∈ family.references target.path (Text.decodeLossy bytes),
        family.resolve? candidates reference = some path := by
  rw [dependencies_eq hfamily, dependenciesIn]
  simp only [List.mem_map, List.mem_filterMap, Sorting.mem_ascending, List.mem_filter,
    decide_eq_true_eq]
  constructor
  · rintro ⟨c, ⟨found, ⟨hfound, hne⟩, hfind⟩, rfl⟩
    rw [Context.path_eq_of_find? hfind]
    exact ⟨hne, hfound⟩
  · rintro ⟨hne, reference, hreference, hresolve⟩
    obtain ⟨c, hc⟩ : ∃ c, candidates.find? (·.path == path) = some c := by
      rw [← Option.isSome_iff_exists, List.find?_isSome]
      obtain ⟨c, hc, hpath⟩ := List.mem_map.mp (mem_of_resolve? hresolve)
      exact ⟨c, hc, by simpa using hpath⟩
    exact ⟨c, ⟨path, ⟨⟨reference, hreference, hresolve⟩, hne⟩, hc⟩, Context.path_eq_of_find? hc⟩

/-- A candidate is a dependency if a reference means it, and it is not the target. -/
theorem mem_dependencies_iff {target : Candidate}
    (hfamily : target.extension.bind Family.ofExtension? = some family) {bytes : Bytes}
    {candidates : List Candidate} (hnodup : (candidates.map (·.path)).Nodup) {c : Candidate} :
    c ∈ dependencies target (some bytes) candidates ↔
      c ∈ candidates ∧ c.path ≠ target.path ∧
        ∃ reference ∈ family.references target.path (Text.decodeLossy bytes),
          family.Means (candidates.map (·.path)) reference c.path := by
  simp only [← resolve?_eq_some_iff]
  rw [← mem_map_path_dependencies_iff hfamily, List.mem_map]
  constructor
  · exact fun hc => ⟨mem_dependencies hc, c, hc, rfl⟩
  · -- There is one candidate with the path only.
    rintro ⟨hc, c', hc', hpath⟩
    rwa [← List.inj_on_of_nodup_map hnodup (mem_dependencies hc') hc hpath]

/--
The dependencies of a target are the candidates that its references mean, without the target, strictly in the
order of their paths. The order of the candidates makes no difference.
-/
theorem dependencies_exact {target : Candidate} {family : Family}
    (hfamily : target.extension.bind Family.ofExtension? = some family) (bytes : Bytes)
    {candidates : List Candidate} (hnodup : (candidates.map (·.path)).Nodup) :
    ((dependencies target (some bytes) candidates).Pairwise fun a b => a.path < b.path) ∧
      (∀ c, c ∈ dependencies target (some bytes) candidates ↔
        c ∈ candidates ∧ c.path ≠ target.path ∧
          ∃ reference ∈ family.references target.path (Text.decodeLossy bytes),
            family.Means (candidates.map (·.path)) reference c.path) ∧
      ∀ candidates', candidates.Perm candidates' →
        dependencies target (some bytes) candidates' = dependencies target (some bytes) candidates := by
  refine ⟨pairwise_dependencies _ _ _, fun c => mem_dependencies_iff hfamily hnodup, ?_⟩
  intro candidates' hperm
  have hpaths := hperm.map (·.path)
  have hnodup' : (candidates'.map (·.path)).Nodup := hpaths.nodup_iff.mp hnodup
  refine Sorting.eq_of_mem_iff (pairwise_dependencies _ _ _) (pairwise_dependencies _ _ _) fun c => ?_
  -- Only which paths there are counts for a reference, and the order of the candidates does not change that.
  have hresolve : ∀ reference,
      family.resolve? candidates' reference = family.resolve? candidates reference := by
    intro reference
    rw [Family.resolve?, Family.resolve?]
    congr 1
    funext path
    rw [any_path_eq_decide, any_path_eq_decide]
    exact decide_eq_decide.mpr hpaths.symm.mem_iff
  rw [mem_dependencies_iff hfamily hnodup', mem_dependencies_iff hfamily hnodup, hperm.mem_iff]
  simp only [← resolve?_eq_some_iff, hresolve]

/-- A script that imports another one next to it, and itself. -/
def shadowingScript : Bytes := Text.encode "import { b } from './b';\nimport './a';\n".toList

/-- Candidates of which two could be meant by `./b`. -/
def shadowedCandidates : List Candidate :=
  [⟨"src/b/index.ts", 3, some "ts"⟩, ⟨"src/b.js", 2, some "js"⟩, ⟨"src/a.ts", 1, some "ts"⟩]

/--
Of two candidates that could be meant, the one with the earlier extension is, and the target is no dependency of
its own.
-/
theorem dependencies_exact_sample :
    (some "ts").bind Family.ofExtension? = some .script ∧
      (shadowedCandidates.map (·.path)).Nodup ∧
      shadowedCandidates.Perm shadowedCandidates.reverse ∧
      (∃ reference ∈ Family.script.references "src/a.ts" (Text.decodeLossy shadowingScript),
        Family.script.Means (shadowedCandidates.map (·.path)) reference "src/b.js") ∧
      dependencies ⟨"src/a.ts", 1, some "ts"⟩ (some shadowingScript) shadowedCandidates.reverse
        = [⟨"src/b.js", 2, some "js"⟩] := by
  have hfamily : (some "ts").bind Family.ofExtension? = some .script := by decide
  have hnodup : (shadowedCandidates.map (·.path)).Nodup := by decide
  have hperm : shadowedCandidates.Perm shadowedCandidates.reverse :=
    shadowedCandidates.reverse_perm.symm
  have hdeps : dependencies ⟨"src/a.ts", 1, some "ts"⟩ (some shadowingScript) shadowedCandidates
      = [⟨"src/b.js", 2, some "js"⟩] := by decide +kernel
  have hexact := @dependencies_exact ⟨"src/a.ts", 1, some "ts"⟩ _ hfamily shadowingScript _ hnodup
  obtain ⟨-, hmem, horder⟩ := hexact
  obtain ⟨-, -, hmeans⟩ := (hmem ⟨"src/b.js", 2, some "js"⟩).mp (by rw [hdeps]; simp)
  exact ⟨hfamily, hnodup, hperm, hmeans, (horder _ hperm).trans hdeps⟩

end RepoScope.Import
