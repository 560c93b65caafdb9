import RepoScope.Outline.Braces
import RepoScope.Outline.Indented

/-!
# Outlines of source texts

The outline of a text keeps its imports, the headers of its declarations and the comments and annotations
right above them, and puts `...` for every body. Each of its lines comes from a line of the text of its own,
so an outline is never longer than its text. A text whose brackets do not balance, or whose language is not
known, is its own outline.
-/

namespace RepoScope.Outline

/-- How a language marks its blocks. -/
inductive Layout where
  | braces (lexis : Lexis)
  | indented (lexis : Lexis)
  deriving DecidableEq

/-- Slashes for comments and one-line strings in quotes of both kinds. -/
def Lexis.slashes : Lexis :=
  { lineComment := "//".toList, blockComments := true, singleQuotes := true, backticks := false
    tripleQuotes := false }

/-- As `slashes`, with literals in backticks. -/
def Lexis.slashesAndBackticks : Lexis := { Lexis.slashes with backticks := true }

/-- As `slashes`, but a single quote opens a character literal. -/
def Lexis.slashesAndTicks : Lexis := { Lexis.slashes with singleQuotes := false }

/-- A hash for comments, and literals over several lines in three quotes. -/
def Lexis.hashes : Lexis :=
  { lineComment := "#".toList, blockComments := false, singleQuotes := true, backticks := false
    tripleQuotes := true }

/-- The extensions of the languages with outlines, by layout. -/
def layouts : List (Layout × List String) := [
  (.braces .slashesAndBackticks, ["ts", "tsx", "js", "jsx", "mjs", "cjs", "mts", "cts", "go"]),
  (.braces .slashesAndTicks, ["rs"]),
  (.braces .slashes, ["c", "h", "cc", "cpp", "cxx", "hpp", "hh", "java", "kt", "kts", "cs", "swift",
    "scala", "php", "dart"]),
  (.indented .hashes, ["py", "pyi"])]

/-- The layout of the language with this lower-case file extension. -/
def layout? (extension : String) : Option Layout :=
  (layouts.find? (·.2.contains extension)).map (·.1)

/-- Whether texts with this lower-case file extension have outlines. -/
def isSupported (extension : String) : Bool :=
  (layout? extension).isSome

/-- The selection that outlines `text` in a language of this layout. -/
def select? : Layout → List Char → Option Selection
  | .braces lexis, text => Braces.select? lexis text
  | .indented lexis, text => Indented.select? lexis text

/-- The outline of a text with this file extension, if there is one. -/
def outline? (text : List Char) (extension : Option String) : Option (List Char) := do
  let layout ← layout? (← extension)
  let selection ← select? layout text
  some (selection.finish text)

/-- The outline of a text with this file extension, or else the text itself. -/
def outline (text : List Char) (extension : Option String) : List Char :=
  (outline? text extension).getD text

end RepoScope.Outline
