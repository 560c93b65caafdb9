import RepoScope.Bundle

/-!
# Bundles as plain text

A head of lines that start with a hash, and then each file between two rules.
-/

namespace RepoScope.Render.PlainText

open Content

/-- A heading and its items, nothing if there are none. -/
def itemList (heading : String) (items : List String) : List String :=
  if items.isEmpty then [] else ("# " ++ heading ++ ":") :: items.map ("#   - " ++ ·)

/-- The line above and below the head of a file. -/
def rule : String := String.ofList (List.replicate 80 '=')

/-- What stands in place of the content of a file, or the content without the line feeds at its end. -/
def body (file : ShownFile) : String :=
  match file.content, file.mode with
  | some content, _ => String.ofList (Text.dropEndWhile (· == '\n') content.toList)
  | none, .excluded => "[withheld: matches sensitive-file patterns]"
  | none, _ => "[not shown: binary or unreadable]"

/-- The lines of a file. -/
def fileLines (file : ShownFile) : List String :=
  ["", rule, "FILE: " ++ file.path, "ROLE: " ++ file.role.name, "MODE: " ++ file.mode.name,
    "LINES: " ++ toString file.lines] ++
  file.tokens.toList.map (fun n => "TOKENS: " ++ toString n) ++
  file.hash.toList.map ("HASH: " ++ ·) ++
  [rule, body file]

/-- The lines of a bundle. -/
def bundleLines (b : Bundle) : List String :=
  ["# Project: " ++ b.project] ++
  b.request.toList.map ("# Request: " ++ ·) ++
  b.profile.toList.map ("# Stack: " ++ ·.summary) ++
  itemList "Environment constraints" b.pins ++
  itemList "Constraints" b.prohibitions ++
  itemList "Recent activity" b.activity ++
  b.warnings.map ("# Warning: " ++ ·) ++
  ["# Files: " ++ toString b.filesShown ++ " shown"] ++
  b.skipped.map (fun file => "# Skipped: " ++ file.path ++ " (" ++ file.reason ++ ")") ++
  b.files.flatMap fileLines ++
  if b.files.isEmpty then [] else ["", "# Total lines: " ++ toString b.totalLines]

/-- The text of a bundle. -/
def render (b : Bundle) : String :=
  String.join ((bundleLines b).map (· ++ "\n"))

end RepoScope.Render.PlainText
