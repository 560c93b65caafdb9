import RepoScope.Import.Reference

/-!
# Imports of Python

`import a.b` means the module `a/b`; `from a.b import c` means it and possibly its submodule `c`. A module is
looked for below the root and below the directory of the file. Leading dots start at the directory of the
file, one step up for each dot beyond the first.
-/

namespace RepoScope.Import.Python

open Pattern Text

/-- A character of a dotted name. -/
def isDotted (c : Char) : Bool := isWordChar c || c == '.'

/-- The other name that a module gets. -/
def asOther : Pattern :=
  optional (run1 isGap ++ lit "as" ++ run1 isGap ++ run1 isWordChar)

/-- The statement that imports names from a module. It captures the dots, the module and the names. -/
def fromStatement : Pattern :=
  atLineStart ++ run isGap ++ lit "from" ++ run1 isGap ++ captured (run (· == '.')) ++
    captured (run isDotted) ++ run1 isGap ++ lit "import" ++ many1 isGap ++ optional (lit "(") ++
    captured (run1 fun c => isWordChar c || isGap c || c == ',')

/-- The statement that imports modules. It captures the list of modules. -/
def importStatement : Pattern :=
  atLineStart ++ run isGap ++ lit "import" ++ run1 isGap ++
    captured (run1 isDotted ++ asOther ++
      repeated (run isGap ++ lit "," ++ run isGap ++ run1 isDotted ++ asOther))

/-- The first words between the commas of a list. -/
def listed (names : List Char) : List String :=
  (pieces ',' names).filterMap fun name => (firstWord? name).map String.ofList

/-- The path of a dotted name. -/
def modulePath (dotted : List Char) : String :=
  String.ofList (replaceChar '.' '/' dotted)

/-- The directory that `dots` leading dots mean in a file of directory `dir`. -/
def climb (dir : String) : Nat → String
  | 0 | 1 => dir
  | dots + 2 => Path.parent (climb dir (dots + 1))

/-- The references of one statement that imports names, in a file of directory `dir`. -/
def fromReferences (dir : String) (dots : Nat) (module : String) (names : List String) :
    List Reference :=
  if dots > 0 then
    let base := climb dir dots
    let package := if module = "" then base else Path.under base module
    (if module = "" then [] else [⟨[package]⟩]) ++ names.map fun name => ⟨[Path.under package name]⟩
  else if module = "" then []
  else (module :: names.map fun name => module ++ "/" ++ name).map fun sub =>
    ⟨[sub, Path.under dir sub]⟩

/-- The references of the file at `path`. -/
def references (path : String) (text : List Char) : List Reference :=
  let dir := Path.parent path
  ((fromStatement.allMatches text).flatMap fun
    | [dots, module, names] => fromReferences dir dots.length (modulePath module) (listed names)
    | _ => []) ++
  ((importStatement.allMatches text).flatMap fun
    | [modules] => (listed modules).map fun name =>
        let sub := modulePath name.toList
        ⟨[sub, Path.under dir sub]⟩
    | _ => [])

/-- The extensions that an import leaves out. -/
def extensions : List String := ["py", "pyi"]

/-- The file that stands for its directory. -/
def indexFiles : List String := ["__init__.py"]

end RepoScope.Import.Python
