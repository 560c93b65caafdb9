import RepoScope.Toml.Document
import RepoScope.Toml.Quoted

/-!
# Reading TOML

A document is a sequence of lines: blank lines and comments, headers of tables, and pairs of keys and values.
Arrays may go over several lines and may hold comments; tables in braces may not.
-/

namespace RepoScope.Toml.Reader

open Quoted

/-- `cs` behind a comment up to its line end. -/
def skipComment? (cs : List Char) : Option (List Char) :=
  let rest := cs.dropWhile isPlain
  if rest.isEmpty ∨ (lineEnd? rest).isSome then some rest else none

/-- `cs` without spaces, line ends and comments at its start. `fuel` bounds the number of comments. -/
def skipLines? : Nat → List Char → Option (List Char)
  | 0, _ => none
  | fuel + 1, cs =>
    match skipBlankLines cs with
    | '#' :: rest => (skipComment? rest).bind (skipLines? fuel)
    | rest => some rest

/-- How many arrays and tables in braces may not be open at the same time. -/
def depthLimit : Nat := 80

mutual

/-- A value at nesting level `depth`. `fuel` bounds the number of values, items and pairs. -/
def value? (depth : Nat) : Nat → List Char → Parsed Value
  | 0, _ => none
  | fuel + 1, cs =>
    match cs with
    | '\x22' :: rest => (Quoted.read? .basic rest).map fun (text, rest) => (.string text, rest)
    | '\x27' :: rest => (Quoted.read? .literal rest).map fun (text, rest) => (.string text, rest)
    | '[' :: rest => if depth + 1 < depthLimit then items? (depth + 1) [] fuel rest else none
    | '{' :: rest =>
      if depth + 1 < depthLimit then
        match skipGaps rest with
        | '}' :: rest => some (.inline [], rest)
        | rest => pairs? (depth + 1) [] fuel rest
      else none
    | _ => Scalar.read? cs

/-- The rest of an array, with the items so far in `done`, newest first. -/
def items? (depth : Nat) (done : List Value) : Nat → List Char → Parsed Value
  | 0, _ => none
  | fuel + 1, cs =>
    match skipLines? (cs.length + 1) cs with
    | some (']' :: rest) => some (.array done.reverse, rest)
    | some rest =>
      match value? depth fuel rest with
      | some (item, rest) =>
        match skipLines? (rest.length + 1) rest with
        | some (',' :: rest) => items? depth (item :: done) fuel rest
        | some (']' :: rest) => some (.array (item :: done).reverse, rest)
        | _ => none
      | none => none
    | none => none

/-- The rest of a table in braces that is not empty, with the pairs so far in `done`, newest first. -/
def pairs? (depth : Nat) (done : List (List String × Value)) : Nat → List Char → Parsed Value
  | 0, _ => none
  | fuel + 1, cs =>
    match keys? cs with
    | some (keys, '=' :: rest) =>
      match value? depth fuel (skipGaps rest) with
      | some (value, rest) =>
        match skipGaps rest with
        | ',' :: rest => pairs? depth ((keys, value) :: done) fuel rest
        | '}' :: rest => some (.inline ((keys, value) :: done).reverse, rest)
        | _ => none
      | none => none
    | _ => none

end

/-- What follows the end of a line that may have a comment. -/
def endLine? (cs : List Char) : Option (List Char) :=
  match skipGaps cs with
  | [] => some []
  | '#' :: rest => (skipComment? rest).map fun rest => (lineEnd? rest).getD rest
  | rest => lineEnd? rest

/-- What has been read of a document, and the place of the table that pairs go to. -/
structure State where
  doc : Document
  table : Place

/-- Reads one line, which may go over several if it holds an array or a string. -/
def line? (s : State) (cs : List Char) : Option (State × List Char) :=
  match cs with
  | '#' :: _ => (endLine? cs).map (s, ·)
  | '\n' :: rest => some (s, rest)
  | '\r' :: '\n' :: rest => some (s, rest)
  | '[' :: '[' :: rest =>
    match keys? rest with
    | some (keys, ']' :: ']' :: rest) => do
      let rest ← endLine? rest
      let (doc, table) ← s.doc.appendTable? keys
      some (⟨doc, table⟩, rest)
    | _ => none
  | '[' :: rest =>
    match keys? rest with
    | some (keys, ']' :: rest) => do
      let rest ← endLine? rest
      let (doc, table) ← s.doc.openTable? keys
      some (⟨doc, table⟩, rest)
    | _ => none
  | _ =>
    match keys? cs with
    | some (keys, '=' :: rest) => do
      let (value, rest) ← value? 0 (2 * rest.length + 2) (skipGaps rest)
      let rest ← endLine? rest
      let doc ← s.doc.storePairs? s.table [(keys, value)]
      some ({ s with doc }, rest)
    | _ => none

/-- Reads lines until the input ends. `fuel` bounds their number. -/
def lines? (s : State) : Nat → List Char → Option State
  | 0, _ => none
  | fuel + 1, cs =>
    match skipGaps cs with
    | [] => some s
    | cs =>
      match line? s cs with
      | some (s, rest) => lines? s fuel rest
      | none => none

end Reader

/-- The document that a text writes, which may start with a byte order mark. -/
def parse? (text : List Char) : Option Document :=
  let text := if text.head? = some '\uFEFF' then text.drop 1 else text
  (Reader.lines? ⟨[], []⟩ (text.length + 1) text).map (·.doc)

end RepoScope.Toml
