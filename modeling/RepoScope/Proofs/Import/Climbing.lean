import RepoScope.Proofs.Components
import RepoScope.Proofs.Folding
import RepoScope.Proofs.Import.Layouts
import RepoScope.Proofs.Import.Probes

/-!
# Imports that climb above the root

The dependencies of a script or a Python file are what its imports add one by one (`mem_dependencies_iff_adds`). A
relative import may climb above the root (`Statement.Climbs`): a specifier if its path does at some point, and names
from a module if more dots lead than there are directories to step up to. A specifier that climbs is no reference
(`Script.reference?_of_climbsOut`). Leading dots, though, step up no further than to the root, so what they lead
is looked for there if it climbs (`Statement.references_of_climbs`).

* **`climbing_adds_iff`**: an import that climbs adds to the dependencies what its module and its names, seen from
  the root, stand for. For specifiers this is nothing.
-/

namespace RepoScope.Import

/-! ## Imports one by one

A text has its references from all of its imports together. To say what one of them adds, imports are listed as
they are found (`Family.statements`), and each has its own references.
-/

/-- An import as it is found in the text of a script or a Python file. -/
inductive Statement where
  /-- The module that a script names. -/
  | specifier (name : List Char)
  /-- Names from a module, which leading dots may stand before. -/
  | names (dots module list : List Char)
  /-- A list of modules. -/
  | modules (list : List Char)
  deriving DecidableEq

/-- The imports that are found in a text. -/
def Family.statements (text : List Char) : Family → List Statement
  | .script => (Script.specifiers text).map .specifier
  | .python =>
    ((Python.fromStatement.allMatches text).flatMap fun
      | [dots, module, list] => [.names dots module list]
      | _ => []) ++
    ((Python.importStatement.allMatches text).flatMap fun
      | [list] => [.modules list]
      | _ => [])
  | _ => []

namespace Statement

/-- The references of an import in the file at `path`. -/
def references (path : String) : Statement → List Reference
  | specifier name => (Script.reference? (Path.parent path) name).toList
  | names dots module list =>
    Python.fromReferences (Path.parent path) dots.length (Python.modulePath module) (Python.listed list)
  | modules list =>
    (Python.listed list).map fun name =>
      let sub := Python.modulePath name.toList
      ⟨[sub, Path.under (Path.parent path) sub]⟩

/-- Whether an import adds the file at `path` to the dependencies of the one at `target`. -/
def Adds (family : Family) (files : List String) (target : String) (s : Statement) (path : String) :
    Prop :=
  path ≠ target ∧ ∃ reference ∈ s.references target, family.Means files reference path

end Statement

/-- The references of a script are those of its specifiers. -/
theorem references_script (path : String) (text : List Char) :
    Script.references path text = (Family.script.statements text).flatMap (·.references path) := by
  rw [Script.references, List.filterMap_eq_flatMap_toList, Family.statements, List.flatMap_map]
  rfl

/-- The references of a Python file are those of its two kinds of imports. -/
theorem references_python (path : String) (text : List Char) :
    Python.references path text = (Family.python.statements text).flatMap (·.references path) := by
  rw [Python.references, Family.statements, List.flatMap_append, List.flatMap_assoc, List.flatMap_assoc]
  congr 2
  · funext found
    rcases found with _ | ⟨dots, _ | ⟨module, _ | ⟨names, _ | ⟨more, rest⟩⟩⟩⟩
    case cons.cons.cons.nil => exact (List.append_nil _).symm
    all_goals rfl
  · funext found
    rcases found with _ | ⟨modules, _ | ⟨more, rest⟩⟩
    case cons.nil => exact (List.append_nil _).symm
    all_goals rfl

/-- The dependencies of a script or a Python file are what its imports add. -/
theorem mem_dependencies_iff_adds {target : Candidate} {family : Family}
    (hfamily : target.extension.bind Family.ofExtension? = some family)
    (hkind : family = .script ∨ family = .python) {bytes : Bytes} {candidates : List Candidate}
    {path : String} :
    path ∈ (dependencies target (some bytes) candidates).map (·.path) ↔
      ∃ s ∈ family.statements (Text.decodeLossy bytes),
        s.Adds family (candidates.map (·.path)) target.path path := by
  have hreferences : family.references target.path (Text.decodeLossy bytes)
      = (family.statements (Text.decodeLossy bytes)).flatMap (·.references target.path) := by
    rcases hkind with rfl | rfl
    · exact references_script _ _
    · exact references_python _ _
  rw [mem_map_path_dependencies_iff hfamily, hreferences]
  simp only [resolve?_eq_some_iff, List.mem_flatMap, Statement.Adds]
  constructor
  · rintro ⟨hne, r, ⟨s, hs, hr⟩, hmeans⟩
    exact ⟨s, hs, hne, r, hr, hmeans⟩
  · rintro ⟨s, hs, hne, r, hr, hmeans⟩
    exact ⟨hne, r, ⟨s, hs, hr⟩, hmeans⟩

/-- A reference with one base means what the base stands for. -/
theorem means_singleton_iff {family : Family} {files : List String} {base path : String} :
    family.Means files ⟨[base]⟩ path ↔ base ≠ "" ∧ family.StandsFor files base path := by
  constructor
  · rintro ⟨b, ⟨before, after, heq, ⟨hne, -⟩, -⟩, hstands⟩
    have hb : b ∈ [base] := by
      rw [show [base] = before ++ b :: after from heq]
      simp
    obtain rfl := List.mem_singleton.mp hb
    exact ⟨hne, hstands⟩
  · rintro ⟨hne, hstands⟩
    exact ⟨base, ⟨[], [], rfl, ⟨hne, path, hstands⟩, by simp⟩, hstands⟩

/-! ## Climbing

For specifiers, climbing is that the path cannot be folded. For leading dots it is that there are more of them than
directories above the file; stepping up stays at the root then, and all that follows is as for an import that stops
there.
-/

/-- A relative specifier whose path climbs above the root is no reference. -/
theorem Script.reference?_of_climbsOut {dir : String} {name : List Char}
    (hrelative : name.head? = some '.')
    (hclimbs : Path.ClimbsOut (Path.pieces (Path.under dir (String.ofList name)))) :
    Script.reference? dir name = none := by
  obtain ⟨rest, rfl⟩ := List.head?_eq_some_iff.mp hrelative
  rw [Script.reference?, Path.resolve?_eq_none_iff.mpr hclimbs, Option.map_none]

/-- Leading dots that climb above the root step up to the root. -/
theorem Python.climb_parent_eq_empty {path : String} {dots : Nat} (h : Path.depth path + 1 < dots) :
    Python.climb (Path.parent path) dots = "" := by
  obtain ⟨up, rfl⟩ : ∃ up, dots = up + 1 := ⟨dots - 1, by omega⟩
  rw [Python.climb_eq, ← Function.iterate_succ_apply]
  exact Path.iterate_parent_eq_empty (by omega)

/-- Behind leading dots that step up to the root, a module and its names are looked for there. -/
theorem Python.fromReferences_of_climb {dir module : String} {dots : Nat} (hdots : 0 < dots)
    (hclimb : Python.climb dir dots = "") (list : List String) :
    Python.fromReferences dir dots module list
      = (if module = "" then [] else [⟨[module]⟩]) ++ list.map fun name => ⟨[Path.under module name]⟩ := by
  have hpackage : (if module = "" then Python.climb dir dots
      else Path.under (Python.climb dir dots) module) = module := by
    split
    · next h => rw [hclimb, h]
    · rw [hclimb]
      exact if_pos rfl
  rw [Python.fromReferences, if_pos hdots]
  simp only [hpackage]

namespace Statement

/-- Whether a relative import in the file at `path` climbs above the root. -/
def Climbs (path : String) : Statement → Prop
  | specifier name =>
    name.head? = some '.' ∧
      Path.ClimbsOut (Path.pieces (Path.under (Path.parent path) (String.ofList name)))
  | names dots _ _ => Path.depth path + 1 < dots.length
  | modules _ => False

/-- The paths of the module and of the names of an import, as seen from the root. -/
def rootBases : Statement → List String
  | names _ module list =>
    Python.modulePath module :: (Python.listed list).map (Path.under (Python.modulePath module))
  | _ => []

/-- The references of an import that climbs are those to its module and its names below the root. -/
theorem references_of_climbs {path : String} {s : Statement} (h : s.Climbs path) {r : Reference} :
    r ∈ s.references path ∧ r ≠ ⟨[""]⟩ ↔ ∃ base ∈ s.rootBases, base ≠ "" ∧ r = ⟨[base]⟩ := by
  cases s with
  | specifier name =>
    rw [references, Script.reference?_of_climbsOut h.1 h.2]
    simp [rootBases]
  | names dots module list =>
    have hclimb := Python.climb_parent_eq_empty h
    have hdots : 0 < dots.length := by
      have : Path.depth path + 1 < dots.length := h
      omega
    rw [references, Python.fromReferences_of_climb hdots hclimb, rootBases]
    simp only [List.mem_append, List.mem_ite_nil_left, List.mem_map, List.mem_cons, List.not_mem_nil,
      or_false]
    constructor
    · rintro ⟨⟨hmodule, rfl⟩ | ⟨name, hname, rfl⟩, hne⟩
      · exact ⟨_, .inl rfl, hmodule, rfl⟩
      · exact ⟨_, .inr ⟨name, hname, rfl⟩, fun h => hne (by rw [h]), rfl⟩
    · rintro ⟨base, rfl | ⟨name, hname, rfl⟩, hne, rfl⟩
      · exact ⟨.inl ⟨hne, rfl⟩, fun h => hne (by simpa using h)⟩
      · exact ⟨.inr ⟨name, hname, rfl⟩, fun h => hne (by simpa using h)⟩
  | modules list => exact h.elim

/-- An import that climbs adds the files that its module and its names stand for, as seen from the root. -/
theorem adds_iff_of_climbs {family : Family} {files : List String} {target path : String}
    {s : Statement} (h : s.Climbs target) :
    s.Adds family files target path ↔
      path ≠ target ∧ ∃ base ∈ s.rootBases, base ≠ "" ∧ family.StandsFor files base path := by
  refine and_congr_right fun _ => ?_
  constructor
  · rintro ⟨r, hr, hmeans⟩
    have hroot : r ≠ ⟨[""]⟩ := by
      rintro rfl
      exact (means_singleton_iff.mp hmeans).1 rfl
    obtain ⟨base, hbase, -, rfl⟩ := (references_of_climbs h).mp ⟨hr, hroot⟩
    exact ⟨base, hbase, means_singleton_iff.mp hmeans⟩
  · rintro ⟨base, hbase, hne, hstands⟩
    obtain ⟨hr, -⟩ := (references_of_climbs h).mpr ⟨base, hbase, hne, rfl⟩
    exact ⟨_, hr, means_singleton_iff.mpr ⟨hne, hstands⟩⟩

end Statement

/--
The dependencies of a script or a Python file are what its imports add. A specifier that climbs above the root adds
nothing. Another import that climbs adds the files, without the target, that its module and its names stand for as
seen from the root. So a file all of whose imports climb has no dependencies if and only if none of these paths
stands for another file.
-/
theorem climbing_adds_iff {target : Candidate} {family : Family}
    (hfamily : target.extension.bind Family.ofExtension? = some family)
    (hkind : family = .script ∨ family = .python) (bytes : Bytes) (candidates : List Candidate) :
    (∀ path, path ∈ (dependencies target (some bytes) candidates).map (·.path) ↔
      ∃ s ∈ family.statements (Text.decodeLossy bytes),
        s.Adds family (candidates.map (·.path)) target.path path) ∧
    (∀ name, (Statement.specifier name).Climbs target.path →
      ∀ path, ¬(Statement.specifier name).Adds family (candidates.map (·.path)) target.path path) ∧
    (∀ s : Statement, s.Climbs target.path → ∀ path,
      s.Adds family (candidates.map (·.path)) target.path path ↔
        path ≠ target.path ∧ ∃ base ∈ s.rootBases, base ≠ "" ∧
          family.StandsFor (candidates.map (·.path)) base path) ∧
    ((∀ s ∈ family.statements (Text.decodeLossy bytes), s.Climbs target.path) →
      (dependencies target (some bytes) candidates = [] ↔
        ∀ s ∈ family.statements (Text.decodeLossy bytes), ∀ base ∈ s.rootBases, base ≠ "" →
          ∀ path, family.StandsFor (candidates.map (·.path)) base path → path = target.path)) := by
  refine ⟨fun _ => mem_dependencies_iff_adds hfamily hkind, ?specifiers,
    fun s h path => Statement.adds_iff_of_climbs h, ?all⟩
  case specifiers =>
    -- A specifier has no bases at the root, so one that climbs has none at all.
    intro name h path hadds
    obtain ⟨-, base, hbase, -⟩ := (Statement.adds_iff_of_climbs h).mp hadds
    exact List.not_mem_nil hbase
  case all =>
    intro hall
    rw [← List.map_eq_nil_iff (f := Candidate.path), List.eq_nil_iff_forall_not_mem]
    simp only [mem_dependencies_iff_adds hfamily hkind]
    constructor
    · intro hnone s hs base hbase hne path hstands
      by_contra hpath
      exact hnone path ⟨s, hs, (Statement.adds_iff_of_climbs (hall s hs)).mpr
        ⟨hpath, base, hbase, hne, hstands⟩⟩
    · rintro hself path ⟨s, hs, hadds⟩
      obtain ⟨hpath, base, hbase, hne, hstands⟩ := (Statement.adds_iff_of_climbs (hall s hs)).mp hadds
      exact hpath (hself s hs base hbase hne path hstands)

/-- A module of a package that steps up twice and once more. -/
def climbingModule : Candidate := ⟨"app/main.py", 23, some "py"⟩

def climbingText : Bytes := Text.encode "from ...lib import x\n".toList

/-- Candidates with a module in the root that has the name of the imported one. -/
def climbedCandidates : List Candidate := [climbingModule, ⟨"lib.py", 6, some "py"⟩]

theorem statements_climbingText :
    Family.python.statements (Text.decodeLossy climbingText)
      = [.names "...".toList "lib".toList "x".toList] := by decide +kernel

/-- Nothing is found in the root, so nothing is added. -/
theorem climbing_adds_sample :
    climbingModule.extension.bind Family.ofExtension? = some .python ∧
      (∀ s ∈ Family.python.statements (Text.decodeLossy climbingText), s.Climbs climbingModule.path) ∧
      (∀ base ∈ ["lib", "lib/x"], ∀ path,
        ¬Family.python.StandsFor [climbingModule.path] base path) ∧
      dependencies climbingModule (some climbingText) [climbingModule] = [] := by
  have hfamily : climbingModule.extension.bind Family.ofExtension? = some .python := by decide
  have hclimbs : ∀ s ∈ Family.python.statements (Text.decodeLossy climbingText),
      s.Climbs climbingModule.path := by
    rw [statements_climbingText]
    exact List.forall_mem_singleton.mpr (show Path.depth "app/main.py" + 1 < 3 by decide)
  have hbases : ∀ base ∈ ["lib", "lib/x"], ∀ path,
      ¬Family.python.StandsFor [climbingModule.path] base path := by
    have hnone : ∀ base ∈ ["lib", "lib/x"], (Family.python.probesAt base).find?
        (fun p => decide (p ∈ [climbingModule.path])) = none := by decide +kernel
    intro base hbase path hstands
    rw [← find?_probesAt_eq_some_iff, hnone base hbase] at hstands
    cases hstands
  refine ⟨hfamily, hclimbs, hbases, ?_⟩
  obtain ⟨-, -, -, hempty⟩ := climbing_adds_iff hfamily (.inr rfl) climbingText [climbingModule]
  refine (hempty hclimbs).mpr ?_
  rw [statements_climbingText]
  intro s hs base hbase hne path hstands
  obtain rfl := List.mem_singleton.mp hs
  exact absurd hstands (hbases base hbase path)

/-- All imports of a file climb above the root, and yet it has a dependency. -/
theorem exists_climbing_found :
    ∃ target bytes candidates,
      target.extension.bind Family.ofExtension? = some .python ∧
      (∀ s ∈ Family.python.statements (Text.decodeLossy bytes), s.Climbs target.path) ∧
      (dependencies target (some bytes) candidates).map (·.path) = ["lib.py"] := by
  refine ⟨climbingModule, climbingText, climbedCandidates, by decide, ?_, by decide +kernel⟩
  rw [statements_climbingText]
  exact List.forall_mem_singleton.mpr (show Path.depth "app/main.py" + 1 < 3 by decide)

end RepoScope.Import
