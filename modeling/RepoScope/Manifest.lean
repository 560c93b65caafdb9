import RepoScope.Json.Reader
import RepoScope.Toml.Reader

/-!
# Manifests

What the manifests of package managers say about the packages that a project needs. Malformed manifests say
nothing.
-/

namespace RepoScope.Manifest

/-- The packages with their versions, where a later version of a package replaces an earlier one. -/
def lastVersions (packages : List (String × String)) : List (String × String) :=
  packages.foldl (fun done package => done.filter (·.1 ≠ package.1) ++ [package]) []

/--
The packages that a `package.json` needs at run time or in development, with their versions. A version that
is no string counts as the empty one.
-/
def packageDependencies (text : List Char) : List (String × String) :=
  match Json.parse? text with
  | none => []
  | some manifest =>
    lastVersions (["dependencies", "devDependencies"].flatMap fun key =>
      (((manifest.get? key).map Json.members).getD []).map fun (name, version) =>
        (name, version.text?.getD ""))

/-- The version of a package. -/
def version? (packages : List (String × String)) (name : String) : Option String :=
  (packages.find? (·.1 == name)).map (·.2)

/-- The document that a `Cargo.toml` writes. -/
def crate? (text : List Char) : Option Toml.Document :=
  (Toml.parse? text).bind Toml.Document.withDates?

/-- The names of the packages that a `Cargo.toml` needs at run time or in development. -/
def crateDependencies (text : List Char) : List String :=
  match crate? text with
  | none => []
  | some doc =>
    ["dependencies", "dev-dependencies"].flatMap fun key =>
      if doc.isTableAt [.key key] then doc.keysAt [.key key] else []

/-- A text in the section on the package itself of a `Cargo.toml`. -/
def cratePackageText? (doc : Toml.Document) (key : String) : Option String :=
  if doc.isTableAt [.key "package"] then doc.text? [.key "package", .key key] else none

end RepoScope.Manifest
