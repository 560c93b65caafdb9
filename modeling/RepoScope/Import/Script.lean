import RepoScope.Import.Reference

/-!
# Imports of script languages

A module is named in quotes behind the words `from`, `import` or `require`. A name that starts with a dot is
a path from the directory of the file; the aliases `@/` and `~/` mean the source directory or the root. All
other names are packages.
-/

namespace RepoScope.Import.Script

open Pattern Text

/-- A text in quotes, which need not be of one kind, captured without them. -/
def quoted : Pattern :=
  one (oneOf "\x27\x22") ++ captured (run1 (noneOf "\x27\x22\n")) ++ one (oneOf "\x27\x22")

/-- The ways to name a module, in the order in which they are searched for. -/
def statements : List Pattern := [
  atWordEdge ++ lit "from" ++ blanks ++ quoted,
  atWordEdge ++ lit "import" ++ blanks ++ quoted,
  atWordEdge ++ lit "require" ++ blanks ++ lit "(" ++ blanks ++ quoted ++ blanks ++ lit ")",
  atWordEdge ++ lit "import" ++ blanks ++ lit "(" ++ blanks ++ quoted ++ blanks ++ lit ")"]

/-- The names of modules that a text imports. -/
def specifiers (text : List Char) : List (List Char) :=
  statements.flatMap fun statement => (statement.allMatches text).filterMap (·.head?)

/-- What a specifier means in a file of directory `dir`. -/
def reference? (dir : String) (specifier : List Char) : Option Reference :=
  match specifier with
  | '.' :: _ => (Path.resolve? dir (String.ofList specifier)).map fun base => ⟨[base]⟩
  | '@' :: '/' :: rest | '~' :: '/' :: rest =>
    some ⟨["src/" ++ String.ofList rest, String.ofList rest].filterMap Path.normalize?⟩
  | _ => none

/-- The references of the file at `path`. -/
def references (path : String) (text : List Char) : List Reference :=
  (specifiers text).filterMap (reference? (Path.parent path))

/-- The extensions that an import may leave out. -/
def extensions : List String :=
  ["ts", "tsx", "js", "jsx", "mjs", "cjs", "vue", "svelte", "json", "css", "scss", "sass", "less"]

/-- The files that stand for their directory. -/
def indexFiles : List String :=
  extensions.map ("index." ++ ·)

end RepoScope.Import.Script
