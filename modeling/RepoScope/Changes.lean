import RepoScope.Repository
import RepoScope.Sorting

/-!
# Changed files

Which files have changed, as the version control program tells. Its answers are values here: what a command
writes and how it ends.
-/

namespace RepoScope.Changes

open Text

/-- Why the changed files are not known. -/
inductive Failure where
  | notInstalled
  | notARepository
  | commandFailed (text : String)
  deriving DecidableEq

/-- The wording of a failure. -/
def Failure.message : Failure → String
  | notInstalled => "git is not installed"
  | notARepository => "not a git repository"
  | commandFailed text => "git command failed: " ++ text

/-- What is known about changes. All paths are seen from the root. -/
structure Source where
  /-- The files that differ from the last commit, and those that are not tracked. -/
  changed : Except Failure (List String)
  /-- The files with edits that are not committed. -/
  activity : Except Failure (List String)

/-- The source that knows nothing because there is no repository. -/
def Source.unavailable : Source :=
  ⟨.error .notARepository, .error .notARepository⟩

/-- What a command has written, and its exit code. -/
structure CommandResult where
  output : Bytes
  errors : Bytes
  code : Int

/-- The answers of the version control program to its arguments, none if it cannot be started. -/
abbrev Program := Option (List String → CommandResult)

/-- The output of a command, or why there is none. -/
def run (program : Program) (arguments : List String) : Except Failure (List Char) :=
  match program with
  | none => .error .notInstalled
  | some answer =>
    let result := answer arguments
    if result.code = 0 then .ok (decodeLossy result.output)
    else
      let errors := decodeLossy result.errors
      if containsBlock errors "not a git repository".toList then .error .notARepository
      else .error (.commandFailed (String.ofList (trim errors)))

/-- The paths that a listing names, one to a line. -/
def listedPaths (output : List Char) : List String :=
  ((lines output).map trim |>.filter (· ≠ [])).map fun line => String.ofList (replaceChar '\\' '/' line)

/-- The paths that two commands list together, in ascending order. -/
def listBoth (program : Program) (first second : List String) : Except Failure (List String) := do
  let firstPaths ← run program first
  let secondPaths ← run program second
  return Sorting.ascending (listedPaths firstPaths ++ listedPaths secondPaths)

/-- The program as far as it can be started: it runs in the root, which must be a directory for that. -/
def Program.startedIn (program : Program) (repo : Repository) : Program :=
  if (repo.follow "").any (·.node.isDir) then program else none

/-- What the version control program knows about changes. -/
def Source.ofProgram (program : Program) : Source where
  changed := listBoth program
    ["diff", "--name-only", "--relative", "--diff-filter=ACMR", "HEAD"]
    ["ls-files", "--others", "--exclude-standard"]
  activity := listBoth program
    ["diff", "--name-only", "--relative"]
    ["diff", "--name-only", "--relative", "--cached"]

end RepoScope.Changes
