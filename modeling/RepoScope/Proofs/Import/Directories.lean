import RepoScope.Proofs.Folding
import RepoScope.Proofs.Import.Probes

/-!
# Imports of directories

A script may import a directory, which then stands for the first index file in it. The import is a reference to
the path of the directory (`Script.mem_references_of_specifier`), and this path stands for the index file where no
file has the path itself or one with an extension (`Script.standsFor_index`). The path of the root is empty, though,
and an empty base is passed over (`not_means_root`).

* **`mem_dependencies_index_iff`**: the index file is among the dependencies of the script, unless the directory is
  the root and no other import means the file.
-/

namespace RepoScope.Import

/-- A first hit among images is the image of a first hit. -/
theorem IsFirst.map {α β : Type} {p : β → Prop} {f : α → β} {items : List α} {a : α}
    (h : IsFirst (fun x => p (f x)) items a) : IsFirst p (items.map f) (f a) := by
  obtain ⟨before, after, rfl, ha, hbefore⟩ := h
  exact ⟨before.map f, after.map f, by simp, ha, List.forall_mem_map.mpr hbefore⟩

/-- A reference with one base that is not empty means what the base stands for. -/
theorem Family.means_of_standsFor {family : Family} {files : List String} {base path : String}
    (hne : base ≠ "") (h : family.StandsFor files base path) : family.Means files ⟨[base]⟩ path :=
  ⟨base, ⟨[], [], rfl, ⟨hne, path, h⟩, by simp⟩, h⟩

/-- A reference to the root means nothing. -/
theorem not_means_root {family : Family} {files : List String} {path : String} :
    ¬family.Means files ⟨[""]⟩ path := by
  rintro ⟨base, ⟨before, after, heq, ⟨hne, -⟩, -⟩, -⟩
  have hbase : base ∈ (⟨[""]⟩ : Reference).bases := by
    rw [heq]
    simp
  exact hne (List.mem_singleton.mp hbase)

namespace Script

/-- A relative specifier is a reference to the path that it folds to. -/
theorem mem_references_of_specifier {path : String} {text specifier : List Char}
    {directory : List String} (hspecifier : specifier ∈ specifiers text)
    (hrelative : specifier.head? = some '.')
    (hfolds : Path.FoldsBelow (Path.pieces (Path.under (Path.parent path) (String.ofList specifier)))
      directory) :
    ⟨[Path.join directory]⟩ ∈ references path text := by
  refine List.mem_filterMap.mpr ⟨specifier, hspecifier, ?_⟩
  obtain ⟨rest, rfl⟩ := List.head?_eq_some_iff.mp hrelative
  rw [reference?, Path.resolve?_of_foldsBelow hfolds, Option.map_some]

/-- A directory stands for the first index file in it, if no file has its path or one with an extension. -/
theorem standsFor_index {files directory : List String} {extension : String}
    (hnames : ∀ n ∈ directory, Path.IsName n) (hne : directory ≠ [])
    (hbase : Path.join directory ∉ files)
    (hextensions : ∀ e ∈ extensions, Path.join directory ++ "." ++ e ∉ files)
    (hfirst : IsFirst (fun e => Path.join (directory ++ ["index." ++ e]) ∈ files) extensions
      extension) :
    Family.script.StandsFor files (Path.join directory)
      (Path.join (directory ++ ["index." ++ extension])) := by
  have hin : ∀ file, Path.join (directory ++ [file]) = Path.join directory ++ "/" ++ file := by
    intro file
    rw [← Path.under_join hnames, Path.under,
      if_neg fun h => hne ((Path.join_eq_empty_iff hnames).mp h)]
  simp only [hin] at hfirst ⊢
  exact .index hbase hextensions
    (IsFirst.map (p := fun f => Path.join directory ++ "/" ++ f ∈ files) hfirst)

end Script

/--
A script imports a directory by a relative specifier, and no file has the path of the directory or this path with
an extension. Then the first index file in the directory, if it is not the script itself, is among the dependencies
if and only if the directory is not the root or another reference means the file.
-/
theorem mem_dependencies_index_iff {target : Candidate} {bytes : Bytes} {specifier : List Char}
    {directory : List String} {candidates : List Candidate} {extension : String}
    (hfamily : target.extension.bind Family.ofExtension? = some .script)
    (hspecifier : specifier ∈ Script.specifiers (Text.decodeLossy bytes))
    (hrelative : specifier.head? = some '.')
    (hfolds : Path.FoldsBelow
      (Path.pieces (Path.under (Path.parent target.path) (String.ofList specifier))) directory)
    (hbase : Path.join directory ∉ candidates.map (·.path))
    (hextensions : ∀ e ∈ Script.extensions,
      Path.join directory ++ "." ++ e ∉ candidates.map (·.path))
    (hfirst : IsFirst
      (fun e => Path.join (directory ++ ["index." ++ e]) ∈ candidates.map (·.path))
      Script.extensions extension)
    (hother : Path.join (directory ++ ["index." ++ extension]) ≠ target.path) :
    Path.join (directory ++ ["index." ++ extension])
        ∈ (dependencies target (some bytes) candidates).map (·.path) ↔
      directory ≠ [] ∨
        ∃ reference ∈ Script.references target.path (Text.decodeLossy bytes),
          reference.bases ≠ [""] ∧
            Family.script.Means (candidates.map (·.path)) reference
              (Path.join (directory ++ ["index." ++ extension])) := by
  rw [mem_map_path_dependencies_iff hfamily]
  simp only [resolve?_eq_some_iff]
  constructor
  · intro ⟨_, reference, hreference, hmeans⟩
    -- Something else must mean the index file, since the root itself means nothing.
    refine .inr ⟨reference, hreference, fun hroot => ?_, hmeans⟩
    obtain ⟨bases⟩ := reference
    exact not_means_root ((show bases = [""] from hroot) ▸ hmeans)
  · rintro (hne | ⟨reference, hreference, -, hmeans⟩)
    · refine ⟨hother, _, Script.mem_references_of_specifier hspecifier hrelative hfolds, ?_⟩
      have hnames := hfolds.isName
      exact Family.means_of_standsFor (fun h => hne ((Path.join_eq_empty_iff hnames).mp h))
        (Script.standsFor_index hnames hne hbase hextensions hfirst)
    · exact ⟨hother, reference, hreference, hmeans⟩

/-- A script that imports a directory next to it and the root. -/
def directoryScript : Candidate := ⟨"src/a.ts", 44, some "ts"⟩

def directoryScriptText : Bytes := Text.encode "import b from './lib/';\nimport c from '..';\n".toList

/-- Candidates with an index file in the root and two in the directory. -/
def indexedCandidates : List Candidate :=
  [⟨"index.ts", 1, some "ts"⟩, directoryScript, ⟨"src/lib/index.js", 1, some "js"⟩,
    ⟨"src/lib/index.tsx", 1, some "tsx"⟩]

/-- The directory has index files with two extensions, and the one whose extension is tried first is found. -/
theorem mem_dependencies_index_sample :
    directoryScript.extension.bind Family.ofExtension? = some .script ∧
      "./lib/".toList ∈ Script.specifiers (Text.decodeLossy directoryScriptText) ∧
      "./lib/".toList.head? = some '.' ∧
      Path.FoldsBelow (Path.pieces (Path.under (Path.parent directoryScript.path)
        (String.ofList "./lib/".toList))) ["src", "lib"] ∧
      Path.join ["src", "lib"] ∉ indexedCandidates.map (·.path) ∧
      (∀ e ∈ Script.extensions,
        Path.join ["src", "lib"] ++ "." ++ e ∉ indexedCandidates.map (·.path)) ∧
      IsFirst (fun e => Path.join (["src", "lib"] ++ ["index." ++ e])
        ∈ indexedCandidates.map (·.path)) Script.extensions "tsx" ∧
      Path.join (["src", "lib"] ++ ["index." ++ "tsx"]) ≠ directoryScript.path ∧
      "src/lib/index.tsx" ∈ (dependencies directoryScript (some directoryScriptText)
        indexedCandidates).map (·.path) := by
  have hfamily : directoryScript.extension.bind Family.ofExtension? = some .script := by decide
  have hspecifier : "./lib/".toList ∈ Script.specifiers (Text.decodeLossy directoryScriptText) := by
    decide +kernel
  have hfolds : Path.FoldsBelow (Path.pieces (Path.under (Path.parent directoryScript.path)
      (String.ofList "./lib/".toList))) ["src", "lib"] := by
    have hpieces : Path.pieces (Path.under (Path.parent directoryScript.path)
        (String.ofList "./lib/".toList)) = ["src", ".", "lib", ""] := by decide
    rw [hpieces]
    refine .stay ["src"] (.inr rfl) (.stay ["src", "lib"] (.inl rfl) ?_)
    exact .names (by decide)
  have hbase : Path.join ["src", "lib"] ∉ indexedCandidates.map (·.path) := by decide
  have hextensions : ∀ e ∈ Script.extensions,
      Path.join ["src", "lib"] ++ "." ++ e ∉ indexedCandidates.map (·.path) := by decide
  have hfirst : IsFirst (fun e => Path.join (["src", "lib"] ++ ["index." ++ e])
      ∈ indexedCandidates.map (·.path)) Script.extensions "tsx" :=
    ⟨["ts"], _, rfl, by decide, by decide⟩
  have hother : Path.join (["src", "lib"] ++ ["index." ++ "tsx"]) ≠ directoryScript.path := by decide
  exact ⟨hfamily, hspecifier, rfl, hfolds, hbase, hextensions, hfirst, hother,
    (mem_dependencies_index_iff hfamily hspecifier rfl hfolds hbase hextensions hfirst hother).mpr
      (.inl (by decide))⟩

/-- The index file of the root is missed, though the script imports the root. -/
theorem exists_rootIndex_missed :
    ∃ target bytes specifier candidates extension,
      target.extension.bind Family.ofExtension? = some .script ∧
      specifier ∈ Script.specifiers (Text.decodeLossy bytes) ∧
      specifier.head? = some '.' ∧
      Path.FoldsBelow (Path.pieces (Path.under (Path.parent target.path) (String.ofList specifier)))
        [] ∧
      Path.join [] ∉ candidates.map Candidate.path ∧
      (∀ e ∈ Script.extensions, Path.join [] ++ "." ++ e ∉ candidates.map Candidate.path) ∧
      IsFirst (fun e => Path.join ([] ++ ["index." ++ e]) ∈ candidates.map Candidate.path)
        Script.extensions extension ∧
      Path.join ([] ++ ["index." ++ extension]) ≠ target.path ∧
      Path.join ([] ++ ["index." ++ extension])
        ∉ (dependencies target (some bytes) candidates).map Candidate.path := by
  refine ⟨directoryScript, directoryScriptText, "..".toList, indexedCandidates, "ts",
    by decide, by decide +kernel, rfl, ?folds, by decide, by decide, ⟨[], _, rfl, by decide, by decide⟩,
    by decide, by decide +kernel⟩
  case folds =>
    have hpieces : Path.pieces (Path.under (Path.parent directoryScript.path)
        (String.ofList "..".toList)) = ["src", ".."] := by decide
    rw [hpieces]
    exact .up [] (by decide) (.names (by decide))

end RepoScope.Import
