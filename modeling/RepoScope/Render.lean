import RepoScope.Render.JsonText
import RepoScope.Render.PlainText
import RepoScope.Render.XmlText
import RepoScope.Text.Letter

/-!
# Output formats

The three forms in which a bundle is written.
-/

namespace RepoScope.Render

/-- A form in which a bundle is written. -/
inductive Format where
  | text
  | json
  | xml
  deriving DecidableEq

/-- The name of a format. -/
def Format.name : Format → String
  | text => "text"
  | json => "json"
  | xml => "xml"

/-- The format that a word means, in upper or lower case. -/
def Format.ofWord? (word : String) : Option Format :=
  match String.ofList (Text.lowerCase word.toList) with
  | "text" => some text
  | "json" => some json
  | "xml" => some xml
  | _ => none

/-- What is said about a word that means no format. -/
def Format.refusal (word : String) : String :=
  "Invalid format: " ++ word ++ ". Use text, json, or xml"

/-- The text of a bundle in a format. -/
def render (format : Format) (b : Bundle) : String :=
  match format with
  | .text => PlainText.render b
  | .json => JsonText.render b
  | .xml => XmlText.render b

end RepoScope.Render
