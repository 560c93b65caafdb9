import RepoScope.Manifest
import RepoScope.Repository
import RepoScope.Walk

/-!
# The stack of a project

The language of a project and the libraries it is built on, as far as its manifests and the extensions of its
files tell. Each manifest at the root gives one signal; the first signal that knows a library decides. Of the
languages that the signals name, the one with most files is the language of the project; without signals, it
is the language with most files.
-/

namespace RepoScope.Stack

open Text

/-- What is known about the stack of a project. -/
structure Profile where
  language : Option String
  framework : Option String
  styling : Option String
  validation : Option String
  testing : Option String
  /-- Habits of the code, in ascending order. -/
  patterns : List String
  deriving DecidableEq

/-- Whether nothing is known. -/
def Profile.isEmpty (p : Profile) : Bool :=
  p.language.isNone && p.framework.isNone && p.styling.isNone && p.validation.isNone &&
  p.testing.isNone && p.patterns.isEmpty

/-- The stack on one line. -/
def Profile.summary (p : Profile) : String :=
  let field (label : String) (value : Option String) : List String :=
    value.toList.map (label ++ ": " ++ ·)
  " | ".intercalate (
    field "Language" p.language ++ field "Framework" p.framework ++ field "Styling" p.styling ++
    field "Validation" p.validation ++ field "Testing" p.testing ++
    if p.patterns.isEmpty then [] else ["Patterns: " ++ ", ".intercalate p.patterns])

/-! ## Signals of manifests -/

/-- What one manifest says. -/
structure Signal where
  language : String
  framework : Option String
  styling : Option String
  validation : Option String
  testing : Option String

/-- The label of the first entry of a table that is present. -/
def firstLabel? (table : List (String × String)) (isPresent : String → Bool) : Option String :=
  (table.find? fun entry => isPresent entry.1).map (·.2)

/-- The label, if it applies. -/
def labelIf (applies : Bool) (label : String) : Option String :=
  if applies then some label else none

/-- The signal of a `package.json`. -/
def packageSignal (text : List Char) : Signal :=
  let packages := Manifest.packageDependencies text
  let has (name : String) : Bool := packages.any (·.1 == name)
  { language := if has "typescript" then "typescript" else "javascript"
    framework := firstLabel? [("next", "Next.js"), ("nuxt", "Nuxt"), ("@angular/core", "Angular"),
      ("@sveltejs/kit", "SvelteKit"), ("svelte", "Svelte"), ("vue", "Vue"), ("react", "React"),
      ("@nestjs/core", "NestJS"), ("express", "Express"), ("fastify", "Fastify")] has
    styling := firstLabel? [("tailwindcss", "Tailwind CSS"), ("styled-components", "styled-components"),
      ("@emotion/react", "Emotion"), ("sass", "Sass")] has
    validation := firstLabel? [("zod", "Zod"), ("yup", "Yup"), ("joi", "Joi"),
      ("class-validator", "class-validator")] has
    testing := firstLabel? [("jest", "jest"), ("vitest", "vitest"), ("mocha", "mocha"),
      ("@playwright/test", "playwright"), ("cypress", "cypress")] has }

/-- The signal of a manifest of a Python project, which is not parsed but searched. -/
def pythonSignal (text : List Char) : Signal :=
  let lower := lowerCase text
  let has (name : String) : Bool := containsBlock lower name.toList
  { language := "python"
    framework := firstLabel? [("django", "Django"), ("fastapi", "FastAPI"), ("flask", "Flask")] has
    styling := none
    validation := labelIf (has "pydantic") "Pydantic"
    testing := labelIf (has "pytest") "pytest" }

/-- The signal of a `Cargo.toml`. -/
def crateSignal (text : List Char) : Signal :=
  let crates := Manifest.crateDependencies text
  let has (name : String) : Bool := crates.contains name
  { language := "rust"
    framework := firstLabel? [("axum", "Axum"), ("actix-web", "Actix Web"), ("rocket", "Rocket"),
      ("warp", "Warp")] has
    styling := none
    validation := labelIf (has "validator") "validator"
    testing := labelIf (has "proptest") "proptest" }

/-- The signal of a `go.mod`. -/
def goSignal (text : List Char) : Signal :=
  { language := "go"
    framework := firstLabel? [("github.com/gin-gonic/gin", "Gin"), ("github.com/labstack/echo", "Echo"),
      ("github.com/gofiber/fiber", "Fiber")] fun name => containsBlock text name.toList
    styling := none, validation := none, testing := none }

/-- The signal of a manifest of this language that is searched for one framework. -/
def searchedSignal (language name label : String) (text : List Char) : Signal :=
  { language, framework := labelIf (containsBlock text name.toList) label
    styling := none, validation := none, testing := none }

/-- The manifests that give signals, in the order in which they are inspected. -/
def manifests : List (String × (List Char → Signal)) := [
  ("package.json", packageSignal),
  ("requirements.txt", pythonSignal),
  ("pyproject.toml", pythonSignal),
  ("setup.py", pythonSignal),
  ("Pipfile", pythonSignal),
  ("Cargo.toml", crateSignal),
  ("go.mod", goSignal),
  ("pom.xml", searchedSignal "java" "spring-boot" "Spring Boot"),
  ("build.gradle", searchedSignal "java" "spring-boot" "Spring Boot"),
  ("build.gradle.kts", searchedSignal "kotlin" "spring-boot" "Spring Boot"),
  ("Gemfile", searchedSignal "ruby" "rails" "Rails")]

/-- The signals of the manifests among the candidates that can be read. -/
def signals (repo : Repository) (candidates : List Candidate) : List Signal :=
  manifests.filterMap fun (name, inspect) =>
    if candidates.any (·.path == name) then (repo.readText? name).map inspect else none

/-! ## Languages -/

/-- The languages by lower-case file extension. -/
def extensionLanguages : List (String × String) := [
  ("ts", "typescript"), ("tsx", "typescript"),
  ("js", "javascript"), ("jsx", "javascript"), ("mjs", "javascript"), ("cjs", "javascript"),
  ("py", "python"), ("rs", "rust"), ("go", "go"), ("java", "java"), ("kt", "kotlin"), ("rb", "ruby"),
  ("php", "php"), ("cs", "csharp"), ("swift", "swift"), ("c", "c"), ("h", "c"),
  ("cpp", "c++"), ("cc", "c++"), ("hpp", "c++")]

/-- The language of a file by its extension. -/
def languageOf? (c : Candidate) : Option String := do
  let extension ← c.extension
  let entry ← extensionLanguages.find? (·.1 == extension)
  some entry.2

/-- How many candidates are files of a language. -/
def fileCount (candidates : List Candidate) (language : String) : Nat :=
  candidates.countP fun c => languageOf? c == some language

/-- The first of the words with the highest count. -/
def firstHighest? (count : String → Nat) (words : List String) : Option String :=
  words.foldl (fun best word =>
    match best with
    | none => some word
    | some other => if count other < count word then some word else best) none

/-- The language of the project, given those that its manifests name in the order of inspection. -/
def language? (named : List String) (candidates : List Candidate) : Option String :=
  firstHighest? (fileCount candidates)
    (if named.isEmpty then Sorting.ascending (candidates.filterMap languageOf?) else named)

/-! ## The profile -/

/-- How many files are searched for habits. -/
def sampleLimit : Nat := 10

/-- Whether arrow functions clearly outnumber function declarations in the first script files. -/
def prefersArrows (repo : Repository) (candidates : List Candidate) : Bool :=
  let samples := (candidates.filter fun c =>
    c.extension.any fun e => ["ts", "tsx", "js", "jsx"].contains e).take sampleLimit
  let texts := samples.filterMap fun c => repo.readText? c.path
  let count (part : String) : Nat := (texts.map (countBlocks part.toList 0)).foldr (· + ·) 0
  let arrows := count "=>"
  let functions := count "function "
  arrows > 0 && arrows > functions * 2

/-- The profile of a project with these candidates. -/
def profile (repo : Repository) (candidates : List Candidate) : Profile :=
  let signals := signals repo candidates
  { language := language? (signals.map (·.language)).eraseDups candidates
    framework := signals.findSome? (·.framework)
    styling := signals.findSome? (·.styling)
    validation := signals.findSome? (·.validation)
    testing := signals.findSome? (·.testing)
    patterns := if prefersArrows repo candidates then ["Prefers arrow functions"] else [] }

end RepoScope.Stack
