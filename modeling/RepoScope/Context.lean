import RepoScope.Changes
import RepoScope.Import
import RepoScope.Scope.Budget
import RepoScope.Scope.Resolve
import RepoScope.Stack

/-!
# Scoping a repository

A context is opened on a root directory and keeps its ignore rules. A run walks the files as they are then,
locates the target, gathers its dependencies and the changes as far as they are asked for, and selects files
within the budget.
-/

namespace RepoScope

open Scope

/-- A root directory and the rules that hold below it. -/
structure Context where
  /-- The place of the root itself, with all links followed. -/
  root : List String
  policy : Ignore.Policy

/-- What a run finds out. -/
structure Outcome where
  /-- The selected files in the order of their importance. -/
  files : List ScopedFile
  profile : Stack.Profile
  warnings : List Warning
  /-- The files being edited, if they were asked for. -/
  activity : List String

namespace Context

/--
Opens the directory that a path leads to as seen from the place `here`, with globs of files to leave out. The
empty path leads nowhere.
-/
def open? (disk : Disk) (here : List String) (root : String) (exclude : List String) :
    Except Error Context :=
  match if root = "" then none else disk.top.follow (Path.piecesFrom here root) with
  | some place => .ok ⟨place.names, Ignore.Policy.load disk place.names exclude⟩
  | none => .error (.rootUnreadable root .missing)

/-- The repository of a context on a disk. -/
def repository (ctx : Context) (disk : Disk) : Repository := ⟨disk, ctx.root⟩

/-! ## The target -/

/-- A target, and the path below the root of the file that it leads to. -/
structure Target where
  candidate : Candidate
  resolved : String

/--
Finds the file that a target names. The path is folded as text first and must then lie below the root; so
must the place that it leads to, where a regular file must stand.
-/
def locate (ctx : Context) (disk : Disk) (candidates : List Candidate) (target : String) :
    Except Error Target :=
  let folded := Path.foldAtTop (Path.piecesFrom ctx.root target)
  match ctx.root.isPrefixOf? folded with
  | none => .error (.targetOutsideRoot target)
  | some names =>
    match disk.top.follow folded with
    | none => .error (.targetNotFound target)
    | some place =>
      match ctx.root.isPrefixOf? place.names, place.node with
      | none, _ => .error (.targetOutsideRoot target)
      | some resolved, .file content =>
        let path := Path.join names
        let candidate := (candidates.find? (·.path == path)).getD
          ⟨path, content.length, Path.extension? path⟩
        .ok ⟨candidate, Path.join resolved⟩
      | some _, _ => .error (.targetNotFound target)

/-- Whether a target, or the file that it leads to, looks like a secret. -/
def Target.isSensitive (t : Target) : Bool :=
  Secret.isSensitive t.candidate.path || Secret.isSensitive t.resolved

/-! ## A run -/

/-- The list that was asked for, with a warning if it is not available. -/
def gather (isAsked : Bool) (listing : Except Changes.Failure (List String))
    (warning : String → Warning) : Option (List String) × List Warning :=
  if isAsked then
    match listing with
    | .ok paths => (some paths, [])
    | .error failure => (none, [warning failure.message])
  else (none, [])

/-- Runs directives on the candidates of the walk, with the target already located. -/
def runOn (ctx : Context) (disk : Disk) (source : Changes.Source) (d : Directives)
    (candidates : List Candidate) (target : Option Target) : Outcome :=
  let repo := ctx.repository disk
  let withhold := target.any Target.isSensitive
  let sensitive := target.toList.filterMap fun t =>
    if t.isSensitive then some (Warning.sensitiveTarget t.candidate.path) else none
  let (changed, changeWarnings) := gather d.changedOnly source.changed .changesUnavailable
  let (activity, activityWarnings) := gather d.gitAware source.activity .activityUnavailable
  let activity := activity.map fun paths => Sorting.ascending (paths.filter (!Secret.isSensitive ·))
  let dependencies :=
    if d.treeShake then
      target.map fun t =>
        if withhold then [] else Import.dependencies t.candidate (repo.read? t.candidate.path) candidates
    else none
  let resolution := resolve
    { candidates, target := target.map (·.candidate), dependencies, changed, activity, withhold } d
  { files := rank resolution.files d.maxFiles
    profile := Stack.profile repo candidates
    warnings := sensitive ++ changeWarnings ++ activityWarnings ++ resolution.warnings
    activity := activity.getD [] }

/-- Runs directives on the files as they are on the disk. -/
def run (ctx : Context) (disk : Disk) (source : Changes.Source) (d : Directives) :
    Except Error Outcome :=
  match Walk.candidates? disk.top ctx.root ctx.policy with
  | none =>
    .error (.rootUnreadable (Path.join ("" :: ctx.root))
      (if disk.top.existsAt ctx.root then .noDirectory else .missing))
  | some candidates =>
    match d.target with
    | none => .ok (ctx.runOn disk source d candidates none)
    | some target => do
      let located ← ctx.locate disk candidates target
      return ctx.runOn disk source d candidates (some located)

end Context

end RepoScope
