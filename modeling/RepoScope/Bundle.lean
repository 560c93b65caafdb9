import RepoScope.Content.Load
import RepoScope.Context
import RepoScope.GuardRail

/-!
# Context bundles

Everything that is handed on about a request: the selected files with their content, the stack, the guard
rails and what went wrong.
-/

namespace RepoScope

open Scope Content

/-- The result of a run with the content of its files. -/
structure Bundle where
  project : String
  request : Option String
  profile : Option Stack.Profile
  pins : List String
  prohibitions : List String
  scopeFunction : Option String
  activity : List String
  warnings : List String
  filesShown : Nat
  skipped : List SkippedFile
  totalLines : Nat
  files : List ShownFile
  deriving DecidableEq

namespace Bundle

/-- What goes into a bundle. -/
structure Options where
  request : Option String
  withProfile : Bool
  /-- Whether the versions of the manifests are pinned. -/
  withPins : Bool
  withProhibitions : Bool
  countTokens : Bool
  /-- How many workers load the files, or zero for as many as there are processors. -/
  jobs : Nat := 0

/-- The name of the project at a root. -/
def projectName (root : List String) : String :=
  root.getLast?.getD "project"

/-- The bundle of an outcome, from the files as they are on the disk. -/
def build (ctx : Context) (disk : Disk) (outcome : Outcome) (d : Directives) (options : Options)
    (host : Host := {}) : Bundle :=
  let repo := ctx.repository disk
  let loaded := loadWith host options.jobs repo options.countTokens outcome.files
  let target := (outcome.files.find? (·.role = .target)).map (·.path)
  { project := projectName ctx.root
    request := options.request
    profile :=
      if options.withProfile && !outcome.profile.isEmpty then some outcome.profile else none
    pins := if options.withPins then GuardRail.pins repo else []
    prohibitions :=
      if options.withProhibitions then GuardRail.prohibitions target d.scopeFunction else []
    scopeFunction := d.scopeFunction
    activity := outcome.activity
    warnings := outcome.warnings.map Warning.message ++ loaded.warnings
    filesShown := loaded.files.length
    skipped := loaded.skipped
    totalLines := loaded.files.foldr (fun file lines => file.lines + lines) 0
    files := loaded.files }

end Bundle

end RepoScope
