import RepoScope.Bundle
import RepoScope.Render.Xml

/-!
# Bundles as XML

One element `context`. What is absent or empty is left out, except for the list of files. The content of a
file is written as it is.
-/

namespace RepoScope.Render.XmlText

open Content Xml

/-- An element with a text, left out if it is absent. -/
def present (name : String) (content : Option String) : List Element :=
  content.toList.map (.text name)

/-- An element with items, left out if there are none. -/
def itemList (name item : String) (items : List String) : List Element :=
  if items.isEmpty then [] else [.node name [] (items.map (.text item))]

/-- The stack. -/
def profile (p : Stack.Profile) : Element :=
  .node "profile" [] (present "language" p.language ++ present "framework" p.framework ++
    present "styling" p.styling ++ present "validation" p.validation ++ present "testing" p.testing ++
    p.patterns.map (.text "pattern"))

/-- The guard rails, nothing if there are none. -/
def constraints (b : Bundle) : List Element :=
  if b.pins.isEmpty && b.prohibitions.isEmpty then []
  else [.node "constraints" [] (b.pins.map (.text "tech") ++ b.prohibitions.map (.text "negative"))]

/-- The files that are not shown, nothing if there are none. -/
def skipped (files : List SkippedFile) : List Element :=
  if files.isEmpty then []
  else [.node "skipped" [] (files.map fun file =>
    .empty "file" [("path", file.path), ("reason", file.reason)])]

/-- A file. -/
def shown (file : ShownFile) : Element :=
  let attributes := [("path", file.path), ("role", file.role.name), ("mode", file.mode.name),
    ("lines", toString file.lines)] ++ file.hash.toList.map (("hash", ·)) ++
    file.tokens.toList.map (fun n => ("tokens", toString n))
  match file.content with
  | some content => .node "file" attributes [.verbatim "content" content]
  | none => .empty "file" attributes

/-- A bundle. -/
def bundle (b : Bundle) : Element :=
  .node "context" [] ([.text "project" b.project] ++
    present "request" b.request ++
    b.profile.toList.map profile ++
    constraints b ++
    present "scope_function" b.scopeFunction ++
    itemList "activity" "path" b.activity ++
    itemList "warnings" "warning" b.warnings ++
    [.text "files_shown" (toString b.filesShown), .text "total_lines" (toString b.totalLines)] ++
    skipped b.skipped ++
    [.node "files" [] (b.files.map shown)])

/-- The text of a bundle. -/
def render (b : Bundle) : String := document (bundle b)

end RepoScope.Render.XmlText
