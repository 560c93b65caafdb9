import RepoScope.Import.Reference

/-!
# Includes

A file included in double quotes is looked for from the directory of the file, from the root and in the
directory `include`. It is named in full.
-/

namespace RepoScope.Import.Include

open Pattern

/-- The line that includes a file. It captures the name. -/
def statement : Pattern :=
  atLineStart ++ run isGap ++ lit "#" ++ run isGap ++ lit "include" ++ run isGap ++ lit "\x22" ++
    captured (run1 (noneOf "\x22\n")) ++ lit "\x22"

/-- The references of the file at `path`. -/
def references (path : String) (text : List Char) : List Reference :=
  (statement.allMatches text).flatten.map fun name =>
    let name := String.ofList name
    ⟨[Path.resolve? (Path.parent path) name, Path.normalize? name,
      Path.normalize? ("include/" ++ name)].filterMap id⟩

end RepoScope.Import.Include
