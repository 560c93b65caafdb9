import RepoScope.Bundle
import RepoScope.Json.Writer

/-!
# Bundles as JSON

One object. What is absent or empty is left out, except for the parts of the stack, which are null, and the
list of files.
-/

namespace RepoScope.Render.JsonText

open Content

/-- A member, left out if it is absent. -/
def present (name : String) (value : Option Json) : List (String × Json) :=
  value.toList.map (name, ·)

/-- A member that lists something, left out if it is empty. -/
def nonempty (name : String) (items : List Json) : List (String × Json) :=
  if items.isEmpty then [] else [(name, .array items)]

/-- A text or null. -/
def textOrNull (text : Option String) : Json :=
  (text.map Json.string).getD .null

/-- The stack. -/
def profile (p : Stack.Profile) : Json :=
  .object [("language", textOrNull p.language), ("framework", textOrNull p.framework),
    ("styling", textOrNull p.styling), ("validation", textOrNull p.validation),
    ("testing", textOrNull p.testing), ("patterns", .array (p.patterns.map .string))]

/-- The guard rails, nothing if there are none. -/
def constraints (b : Bundle) : List (String × Json) :=
  match nonempty "tech" (b.pins.map .string) ++ nonempty "negative" (b.prohibitions.map .string) with
  | [] => []
  | members => [("constraints", .object members)]

/-- A file that is not shown. -/
def skipped (file : SkippedFile) : Json :=
  .object [("path", .string file.path), ("reason", .string file.reason)]

/-- A file. -/
def shown (file : ShownFile) : Json :=
  .object ([("path", .string file.path), ("role", .string file.role.name),
    ("mode", .string file.mode.name), ("lines", .integer file.lines)] ++
    present "hash" (file.hash.map .string) ++
    present "tokens" (file.tokens.map fun n => .integer n) ++
    present "content" (file.content.map .string))

/-- A bundle. -/
def bundle (b : Bundle) : Json :=
  .object ([("project", .string b.project)] ++
    present "request" (b.request.map .string) ++
    present "profile" (b.profile.map profile) ++
    constraints b ++
    present "scope_function" (b.scopeFunction.map .string) ++
    nonempty "activity" (b.activity.map .string) ++
    nonempty "warnings" (b.warnings.map .string) ++
    [("files_shown", .integer b.filesShown)] ++
    nonempty "skipped" (b.skipped.map skipped) ++
    [("total_lines", .integer b.totalLines), ("files", .array (b.files.map shown))])

/-- The text of a bundle. -/
def render (b : Bundle) : String := (bundle b).write

end RepoScope.Render.JsonText
