import RepoScope.Import.Reference

/-!
# Submodules

A file declares its submodules by name. They are found in a directory of the name of the file, or in its own
directory if the file stands for the directory itself.
-/

namespace RepoScope.Import.Submodule

open Pattern Text

/-- The line that declares a submodule. It captures the name. -/
def statement : Pattern :=
  atLineStart ++ run isGap ++
    optional (lit "pub" ++ optional (lit "(" ++ run (· ≠ ')') ++ lit ")") ++ run1 isGap) ++
    lit "mod" ++ run1 isGap ++ captured (run1 isWordChar) ++ run isGap ++ lit ";"

/-- The directory of the submodules of the file at `path`. -/
def submoduleDir (path : String) : String :=
  let name := Path.baseName path
  if ["lib.rs", "main.rs", "mod.rs"].contains name then Path.parent path
  else Path.under (Path.parent path) (String.ofList (dropEndCopies ".rs".toList name.toList))

/-- The references of the file at `path`. -/
def references (path : String) (text : List Char) : List Reference :=
  (statement.allMatches text).flatten.map fun name =>
    ⟨[Path.under (submoduleDir path) (String.ofList name)]⟩

/-- The extensions that a declaration leaves out. -/
def extensions : List String := ["rs"]

/-- The file that stands for its directory. -/
def indexFiles : List String := ["mod.rs"]

end RepoScope.Import.Submodule
