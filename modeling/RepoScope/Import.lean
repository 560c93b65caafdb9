import RepoScope.Import.Include
import RepoScope.Import.Python
import RepoScope.Import.Script
import RepoScope.Import.Style
import RepoScope.Import.Submodule
import RepoScope.Walk

/-!
# What a file imports

The direct dependencies of a file are found in two steps: its text gives references, and each reference means
the first of its probes that is a file of the repository. Files that are ignored, secret or outside cannot
be meant, since only the candidates of the walk count.
-/

namespace RepoScope.Import

/-- The families of languages whose imports are understood. -/
inductive Family where
  | script
  | python
  | inclusion
  | style
  | submodule
  deriving DecidableEq

/-- The family of the files with this lower-case extension. -/
def Family.ofExtension? (extension : String) : Option Family :=
  if ["ts", "tsx", "js", "jsx", "mjs", "cjs", "mts", "cts", "vue", "svelte"].contains extension then
    some .script
  else if ["py", "pyi"].contains extension then some .python
  else if ["c", "h", "cc", "cpp", "cxx", "hpp", "hh", "hxx", "m", "mm"].contains extension then
    some .inclusion
  else if ["css", "scss", "sass", "less"].contains extension then some .style
  else if extension = "rs" then some .submodule
  else none

/-- The references in the text of the file at `path`. -/
def Family.references : Family → String → List Char → List Reference
  | .script => Script.references
  | .python => Python.references
  | .inclusion => Include.references
  | .style => Style.references
  | .submodule => Submodule.references

/-- The extensions that an import may leave out, the first choice first. -/
def Family.extensions : Family → List String
  | .script => Script.extensions
  | .python => Python.extensions
  | .inclusion => []
  | .style => Style.extensions
  | .submodule => Submodule.extensions

/-- The files that stand for their directory, the first choice first. -/
def Family.indexFiles : Family → List String
  | .script => Script.indexFiles
  | .python => Python.indexFiles
  | .inclusion => []
  | .style => Style.indexFiles
  | .submodule => Submodule.indexFiles

/-- The paths that a base may mean: itself, itself with an extension, an index file in it. -/
def Family.probesAt (family : Family) (base : String) : List String :=
  base :: family.extensions.map (base ++ "." ++ ·) ++ family.indexFiles.map (base ++ "/" ++ ·)

/-- The paths that a reference may mean, in the order in which they are tried. -/
def Family.probes (family : Family) (reference : Reference) : List String :=
  (reference.bases.filter (· ≠ "")).flatMap family.probesAt

/-- The candidate that a reference means. -/
def Family.resolve? (family : Family) (candidates : List Candidate) (reference : Reference) :
    Option String :=
  (family.probes reference).find? fun path => candidates.any (·.path == path)

/-- The candidates that the text of a target refers to, in the order of their paths, without the target. -/
def dependenciesIn (family : Family) (target : String) (text : List Char) (candidates : List Candidate) :
    List Candidate :=
  let found := (family.references target text).filterMap (family.resolve? candidates)
  (Sorting.ascending (found.filter (· ≠ target))).filterMap fun path => candidates.find? (·.path == path)

/--
The direct dependencies of a target among the candidates. A target of another language, or one that cannot
be read, has none. `content` is what its path leads to.
-/
def dependencies (target : Candidate) (content : Option Bytes) (candidates : List Candidate) :
    List Candidate :=
  match target.extension.bind Family.ofExtension?, content with
  | some family, some bytes => dependenciesIn family target.path (Text.decodeLossy bytes) candidates
  | _, _ => []

end RepoScope.Import
