import RepoScope.Path
import RepoScope.Text.Letter

/-!
# Focus areas

The part of a repository that a request is about. A path belongs to an area by the directories above it, by
its extension or by its name; tests and configuration have rules of their own.
-/

namespace RepoScope

/-- A part of a repository. -/
inductive Focus where
  | none
  | frontend
  | backend
  | database
  | config
  | tests
  deriving DecidableEq

namespace Focus

open Text

/-- The name of an area. -/
def name : Focus → String
  | none => "none"
  | frontend => "frontend"
  | backend => "backend"
  | database => "database"
  | config => "config"
  | tests => "tests"

/-- The area that a word means, in upper or lower case. -/
def ofWord? (word : String) : Option Focus :=
  match String.ofList (lowerCase word.toList) with
  | "none" => some none
  | "frontend" => some frontend
  | "backend" => some backend
  | "database" => some database
  | "db" => some database
  | "config" => some config
  | "tests" => some tests
  | "test" => some tests
  | _ => Option.none

/-- What is said about a word that means no area. -/
def refusal (word : String) : String :=
  "Invalid focus: " ++ word ++ ". Use frontend, backend, database, config, tests, or none"

/-! ## Marks of an area -/

/-- By what the paths of an area are known. -/
structure Signature where
  /-- Names of directories. -/
  dirs : List String
  /-- Extensions in lower case. -/
  extensions : List String
  /-- Names of files. -/
  names : List String

/-- The signature of the areas that have one. -/
def signature : Focus → Signature
  | frontend => {
      dirs := ["frontend", "client", "components", "pages", "app", "public", "styles", "views",
        "layouts", "hooks", "ui", "assets"]
      extensions := ["css", "scss", "sass", "less", "vue", "svelte", "jsx", "tsx", "html"]
      names := [] }
  | backend => {
      dirs := ["backend", "server", "api", "routes", "controllers", "services", "models", "handlers",
        "middleware"]
      extensions := []
      names := [] }
  | database => {
      dirs := ["prisma", "migrations", "schema", "db", "database", "sql"]
      extensions := ["sql", "prisma"]
      names := ["schema.rb", "models.py", "knexfile.js"] }
  | config => {
      dirs := ["config", "configs", ".github"]
      extensions := []
      names := [".eslintrc", ".eslintrc.js", ".eslintrc.json", ".prettierrc", ".babelrc"] }
  | none | tests => ⟨[], [], []⟩

/-- The names of the directories above a path. -/
def dirsAbove (path : String) : List String := (Path.pieces path).dropLast

/-- Whether a path bears a mark of the signature. -/
def Signature.isMatch (s : Signature) (path : String) : Bool :=
  let name := Path.baseName path
  (dirsAbove path).any s.dirs.contains ||
  (match Path.splitLast? '.' name.toList with
    | some (_, extension) => s.extensions.contains (String.ofList (extension.map Char.toLower))
    | Option.none => false) ||
  s.names.contains name

/-! ## Tests and configuration -/

/-- Whether a path is that of a test, by its name or by a directory above it. -/
def isTestPath (path : String) : Bool :=
  let name := (Path.baseName path).toList
  startsWith name "test_".toList || containsBlock name "_test.".toList ||
  containsBlock name ".test.".toList || containsBlock name ".spec.".toList ||
  (dirsAbove path).any ["test", "tests", "spec", "__tests__", "e2e"].contains

/-- The names of build files and manifests. -/
def configFiles : List String := [
  "package.json", "tsconfig.json", "jsconfig.json", "vite.config.js", "vite.config.ts",
  "next.config.js", "next.config.mjs", "tailwind.config.js", "tailwind.config.ts",
  "webpack.config.js", "Cargo.toml", "go.mod", "requirements.txt", "pyproject.toml", "setup.py",
  "Pipfile", "Gemfile", "pom.xml", "build.gradle", "build.gradle.kts", "composer.json",
  "Dockerfile", "docker-compose.yml", "Makefile", "CMakeLists.txt"]

/-- Whether a path is that of a build file or manifest, in any directory. -/
def isConfigFile (path : String) : Bool :=
  configFiles.contains (Path.baseName path)

/-- Whether a name is that of the configuration of a tool: its second part between dots says so. -/
def isToolConfig (name : String) : Bool :=
  (pieces '.' name.toList)[1]? = some "config".toList

/-- Whether a path belongs to an area. -/
def isMatch (area : Focus) (path : String) : Bool :=
  match area with
  | none => true
  | tests => isTestPath path
  | config => isConfigFile path || isToolConfig (Path.baseName path) || area.signature.isMatch path
  | frontend | backend | database => area.signature.isMatch path

end Focus

end RepoScope
