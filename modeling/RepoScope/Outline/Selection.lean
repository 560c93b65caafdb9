import RepoScope.Text.Lines

/-!
# Lines selected from a text

An outline is a selection of the lines of a text in their order, each of them whole or cut short. While a
text is read, comments and annotations wait to see whether a declaration follows: only then are they kept
with it.
-/

namespace RepoScope.Outline

/-- A line, or what an outline shows of it, with the number of the source line it comes from. -/
structure Line where
  row : Nat
  text : List Char
  deriving DecidableEq

/-- The lines of a text, counted from zero. -/
def numbered (text : List Char) : List Line :=
  (Text.lines text).mapIdx Line.mk

/-- The mark that stands for what an outline leaves out. -/
def elision : List Char := "...".toList

/-- The lines kept so far and those that wait, each newest first. -/
structure Selection where
  kept : List Line
  waiting : List Line
  deriving DecidableEq

namespace Selection

/-- Nothing selected yet. -/
def empty : Selection := ⟨[], []⟩

/-- Keeps what waits and then `line`. -/
def keep (s : Selection) (line : Line) : Selection :=
  ⟨line :: (s.waiting ++ s.kept), []⟩

/-- Lets `line` wait. -/
def hold (s : Selection) (line : Line) : Selection :=
  { s with waiting := line :: s.waiting }

/-- Drops what waits. -/
def discard (s : Selection) : Selection :=
  { s with waiting := [] }

/-- Drops what waits and keeps an empty line, unless the last line kept is blank or there is none. -/
def blank (s : Selection) (row : Nat) : Selection :=
  match s.kept with
  | last :: _ => if Text.isBlankText last.text then s.discard else ⟨⟨row, []⟩ :: s.kept, []⟩
  | [] => s.discard

/-- The lines of the finished outline in order: those kept, without the blank lines at the end. -/
def lines (s : Selection) : List Line :=
  (s.kept.dropWhile fun line => Text.isBlankText line.text).reverse

/--
The outline of `source` as a text. If nothing was kept, the elision mark stands for all of it, but a blank
source is its own outline. The outline ends with a line feed if and only if the source does.
-/
def finish (s : Selection) (source : List Char) : List Char :=
  if s.lines.isEmpty && Text.isBlankText source then source
  else
    let shown := if s.lines.isEmpty then elision else Text.joinLines (s.lines.map (·.text))
    if source.getLast? = some '\n' then shown ++ ['\n'] else shown

end Selection

end RepoScope.Outline
