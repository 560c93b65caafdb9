import RepoScope.Decimal
import RepoScope.Manifest
import RepoScope.Repository

/-!
# Guard rails

What a change has to respect. Pins are the versions that it must stay compatible with, read from the
manifests at the root. Prohibitions say what it must leave alone, as the path of the target and the name of
the function suggest.
-/

namespace RepoScope.GuardRail

open Text

/-! ## Pins -/

/-- The packages whose versions are pinned, with what they are. -/
def pinnedPackages : List (String × String) := [
  ("next", "Framework (Next.js)"),
  ("react", "Library (React)"),
  ("tailwindcss", "Styling (Tailwind CSS)"),
  ("typescript", "Language (TypeScript)")]

/-- The first number in a version, if it is written in plain digits and has at most thirty-two bits. -/
def majorVersion? (version : String) : Option Nat :=
  match (Pattern.captured (Pattern.run1 isDecimalDigit)).firstMatch? version.toList with
  | some [digits] =>
    if digits.all Char.isDigit && Decimal.natOf digits < Nat.pow 2 32 then some (Decimal.natOf digits)
    else none
  | _ => none

/-- Whether the major version of a package is known and below a bound. -/
def isBelow (packages : List (String × String)) (name : String) (bound : Nat) : Bool :=
  ((Manifest.version? packages name).bind majorVersion?).any (· < bound)

/-- The pins of a `package.json`. -/
def packagePins (text : List Char) : List String :=
  let packages := Manifest.packageDependencies text
  (pinnedPackages.filterMap fun (name, label) =>
    (Manifest.version? packages name).map (label ++ ": " ++ ·)) ++
  (if isBelow packages "next" 13 then ["Do NOT use Next 13+ App Router features"] else []) ++
  (if isBelow packages "tailwindcss" 3 then
    ["Do NOT use Tailwind v3-only features (e.g., arbitrary values)"] else []) ++
  (if (Manifest.version? packages "typescript").isSome then
    ["Avoid TypeScript features beyond the installed version"] else [])

/-- The pins of one requirement. -/
def requirementPins (line : List Char) : List String :=
  let line := trim line
  let lower := lowerCase line
  let pin (name label : String) : List String :=
    if containsBlock lower name.toList then [label ++ ": " ++ String.ofList line] else []
  if line.head? = some '#' then []
  else pin "django" "Framework (Django)" ++ pin "flask" "Framework (Flask)"

/-- The setting of the language version in a `pyproject.toml`. It captures the version. -/
def requiredPython : Pattern :=
  Pattern.lit "requires-python" ++ Pattern.blanks ++ Pattern.lit "=" ++ Pattern.blanks ++
    Pattern.one (Pattern.oneOf "\x27\x22") ++
    Pattern.captured (Pattern.run1 (Pattern.noneOf "\x27\x22")) ++
    Pattern.one (Pattern.oneOf "\x27\x22")

/-- The pins of a `pyproject.toml`. -/
def projectPins (text : List Char) : List String :=
  match requiredPython.firstMatch? text with
  | some [version] => ["Python Version: " ++ String.ofList version]
  | _ => []

/-- The pins of a `Cargo.toml`. -/
def cratePins (text : List Char) : List String :=
  match Manifest.crate? text with
  | none => []
  | some doc =>
    ((Manifest.cratePackageText? doc "edition").toList.map ("Rust Edition: " ++ ·)) ++
    ((Manifest.cratePackageText? doc "rust-version").toList.map ("Minimum Rust Version: " ++ ·))

/-- The pins of the manifests at the root that can be read. -/
def pins (repo : Repository) : List String :=
  let of (name : String) (pins : List Char → List String) : List String :=
    ((repo.readText? name).map pins).getD []
  of "package.json" packagePins ++
  of "requirements.txt" (fun text => (lines text).flatMap requirementPins) ++
  of "pyproject.toml" projectPins ++
  of "Cargo.toml" cratePins

/-! ## Prohibitions -/

/-- The words of which one in the path marks a test file. -/
def testMarkers : List String := ["test", "spec", "__tests__", "e2e"]

/-- The words of which one as a whole word of the path marks a legacy file. -/
def legacyMarkers : List String := ["legacy", "deprecated", "old"]

/-- Whether a word ends between two neighbouring letters or digits: before a capital behind a small letter
or a digit. -/
def isHump (before after : Char) : Bool :=
  isUpper after && (isLower before || before.isDigit)

/-- One more character in front of the words of a text that holds only letters and digits. -/
def addToWords (c : Char) (next : Option Char) (words : List (List Char)) : List (List Char) :=
  match words with
  | [] => [[c]]
  | word :: rest => if next.any (isHump c) then [c] :: word :: rest else (c :: word) :: rest

/-- The words of a text that holds only letters and digits, cut at its humps. -/
def humps : List Char → List (List Char)
  | [] => []
  | c :: rest => addToWords c rest.head? (humps rest)

/-- The words of a path in lower case, cut at its separators and humps. -/
def pathWords (path : List Char) : List (List Char) :=
  ((piecesBy (!isAlphanumeric ·) path).flatMap humps).map lowerCase

/-- Whether the path of a target looks like a test file. -/
def isTestTarget (target : String) : Bool :=
  let path := lowerCase (replaceChar '\\' '/' target.toList)
  testMarkers.any fun marker => containsBlock path marker.toList

/-- Whether the path of a target looks like a legacy file. -/
def isLegacyTarget (target : String) : Bool :=
  (pathWords target.toList).any fun word => legacyMarkers.contains (String.ofList word)

/-- What a change must leave alone. -/
def prohibitions (target function : Option String) : List String :=
  (if target.any isTestTarget then ["Test file: Do NOT change the testing library or framework"]
    else []) ++
  (if target.any isLegacyTarget then
    ["Legacy file: Do NOT refactor names or restructure existing code"] else []) ++
  function.toList.map fun name =>
    "Scope: ONLY modify the \x60" ++ name ++ "\x60 function. Leave the rest unchanged"

end RepoScope.GuardRail
