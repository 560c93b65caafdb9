import RepoScope.FileTree
import RepoScope.Glob

/-!
# What is ignored

The rules by which files are left out: built-in rules, globs given with a request, and the ignore files of the
version control system and of this program.

A policy has two kinds of rules. A match of any rule in `always` ignores. Of the rules in `layered`, the last
one that matches decides, and a negated rule takes the path back in. Hidden directories are always ignored.
-/

namespace RepoScope.Ignore

open Text

/-! ## Rules -/

/-- One line of an ignore file. -/
structure Rule where
  glob : List Glob.Token
  /-- Whether the rule takes paths back in. -/
  negated : Bool
  /-- Whether it applies to directories alone. -/
  dirOnly : Bool
  /-- The path of the root as seen from the directory of the ignore file, empty if they are the same. -/
  base : String
  deriving DecidableEq

/--
The glob that a line asks for. Without an inner slash it may match at any depth; otherwise it starts at the
directory of the ignore file.
-/
def anchoredGlob (body : List Char) : List Char :=
  if startsWith body "**/".toList then body
  else match body with
    | '/' :: anchored => anchored
    | _ => if body.contains '/' then body else "**/".toList ++ body

/-- The rule of one line. Blank lines, comments and malformed globs have none. -/
def Rule.parse? (base : String) (line : List Char) : Option Rule :=
  let line := trim line
  let (negated, body) := match line with
    | '!' :: rest => (true, rest)
    | _ => (false, line)
  let body := match body with
    | '\\' :: rest => rest
    | _ => body
  let bare := dropEndWhile (· == '/') body
  if line.head? = some '#' ∨ bare.isEmpty then none
  else (Glob.parse? (anchoredGlob bare)).map fun glob =>
    { glob, negated, dirOnly := body.getLast? = some '/', base }

/-- Whether the rule applies to a path below the root. -/
def Rule.isMatch (rule : Rule) (path : String) (isDir : Bool) : Bool :=
  (isDir || !rule.dirOnly) && Glob.isMatch .sensitive rule.glob (Path.under rule.base path).toList

/-- The rules of an ignore file. -/
def rulesOf (base : String) (text : List Char) : List Rule :=
  (lines text).filterMap (Rule.parse? base)

/-- The rules that hold everywhere. -/
def builtinRules : List Rule :=
  ["node_modules/", "bower_components/", "vendor/", "venv/", "env/", "__pycache__/",
    "dist/", "build/", "out/", "target/", "coverage/",
    "*.lock", "package-lock.json", "pnpm-lock.yaml", "*.min.js", "*.min.css", "*.map", "*.pyc"].filterMap
    fun line => Rule.parse? "" line.toList

/-! ## Policies -/

/-- All rules that apply below one root. -/
structure Policy where
  /-- Rules of which each match ignores. -/
  always : List Rule
  /-- Rules of which the last match decides. -/
  layered : List Rule
  deriving DecidableEq

/-- The policy without rules. -/
def Policy.empty : Policy := ⟨[], []⟩

/-- Whether a name is that of a hidden directory. -/
def isHiddenName (name : String) : Bool :=
  name.toList.head? = some '.' && name ≠ "." && name ≠ ".."

/-- Whether the path itself is ignored, if the directories above it are not. -/
def Policy.isMatch (policy : Policy) (path : String) (isDir : Bool) : Bool :=
  (isDir && isHiddenName (Path.baseName path)) ||
  policy.always.any (·.isMatch path isDir) ||
  policy.layered.foldl (fun ignored rule => if rule.isMatch path isDir then !rule.negated else ignored) false

/-- The directories above a path, the outermost first: what stands before each of its slashes. -/
def ancestors (path : String) : List String :=
  (go [] path.toList).map String.ofList
where
  /-- The ancestors of which the path so far, newest character first, is the start. -/
  go (passed : List Char) : List Char → List (List Char)
    | [] => []
    | c :: rest => if c = '/' then passed.reverse :: go (c :: passed) rest else go (c :: passed) rest

/-- Whether the path or a directory above it is ignored. -/
def Policy.isIgnored (policy : Policy) (path : String) (isDir : Bool) : Bool :=
  (ancestors path).any (policy.isMatch · true) || policy.isMatch path isDir

/-! ## Loading -/

/-- The name of this program's own ignore files. -/
def toolIgnoreFile : String := ".contextifyignore"

/-- The rules of the ignore file at a place, none if it is missing or not UTF-8. -/
def rulesAt (top : Node) (base : String) (place : List String) : List Rule :=
  match top.readText? place with
  | some text => rulesOf base text
  | none => []

/--
The rules of the version control ignore files that apply to a root inside a repository, none if it is outside.
`dir` is the path of the directory looked at, its last piece first, and `base` the path of the root as seen from it.
A directory with an entry `.git` is the top of the repository: its exclude file comes before all ignore files, and
these come from the top down. What is above a directory shows in the path alone: a path that ends with a step up has
nothing above it, and a path through a link has the directory of the link above it.
-/
def repositoryRules? (top : Node) (base : List String) (dir : List String) : Option (List Rule) :=
  let rules := rulesAt top (Path.join base) (dir.reverse ++ [".gitignore"])
  if top.existsAt (dir.reverse ++ [".git"]) then
    some (rulesAt top (Path.join base) (dir.reverse ++ [".git", "info", "exclude"]) ++ rules)
  else match dir with
    | [] => none
    | name :: above =>
      if name = ".." then none else (repositoryRules? top (name :: base) above).map (· ++ rules)

/-- The rules of the version control ignore files that apply to the root with this path. -/
def versionControlRules (top : Node) (root : List String) : List Rule :=
  (repositoryRules? top [] (Path.naming root).reverse).getD
    (rulesAt top "" (root ++ [".gitignore"]))

/-- The policy for the root with this path, with the globs of the request. -/
def Policy.load (disk : Disk) (root : List String) (extra : List String) : Policy where
  always := builtinRules ++
    (extra.filterMap fun glob => Rule.parse? "" glob.toList).filter (!·.negated)
  layered :=
    versionControlRules disk.top root ++
    (match disk.home with
      | some home => rulesAt disk.top "" (home ++ [toolIgnoreFile])
      | none => []) ++
    rulesAt disk.top "" (root ++ [toolIgnoreFile])

end RepoScope.Ignore
