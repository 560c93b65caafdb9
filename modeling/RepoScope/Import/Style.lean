import RepoScope.Import.Reference

/-!
# Imports of style sheets

A style sheet is named in quotes behind `@import`, `@use` or `@forward`, as a path from the directory of the
file. The name of a partial has an underscore before it that the import leaves out. A full address is no
file.
-/

namespace RepoScope.Import.Style

open Pattern Text

/-- The rule that imports a style sheet. It captures the name. -/
def statement : Pattern :=
  lit "@" ++ anyWord ["import", "use", "forward"] ++ blanks1 ++ optional (lit "url(" ++ blanks) ++
    one (oneOf "\x27\x22") ++ captured (run1 (noneOf "\x27\x22\n")) ++ one (oneOf "\x27\x22")

/-- The path with an underscore before its last name. -/
def partialName (path : String) : String :=
  match Path.splitLast? '/' path.toList with
  | some (dir, name) => String.ofList dir ++ "/_" ++ String.ofList name
  | none => "_" ++ path

/-- What a specifier means in a file of directory `dir`. -/
def reference? (dir : String) (specifier : List Char) : Option Reference :=
  if containsBlock specifier "://".toList then none
  else match Path.resolve? dir (String.ofList specifier) with
    | some base => some ⟨[base, partialName base]⟩
    | none => some ⟨[]⟩

/-- The references of the file at `path`. -/
def references (path : String) (text : List Char) : List Reference :=
  (statement.allMatches text).flatten.filterMap (reference? (Path.parent path))

/-- The extensions that an import may leave out. -/
def extensions : List String := ["css", "scss", "sass", "less"]

/-- The files that stand for their directory. -/
def indexFiles : List String := ["_index.scss", "index.css"]

end RepoScope.Import.Style
