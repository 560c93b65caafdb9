import RepoScope.Text.Lines

/-!
# Paths as text

Paths are strings with slashes between their parts. Three readings of them are needed:

* the *pieces* between the slashes, empty ones included;
* the *parts* that name something: without empty pieces, and without dots, except for one at the very start;
  a leading slash is a part of its own;
* the *folded* path, in which a step up takes away the directory before it.
-/

namespace RepoScope.Path

/-- The pieces of a path between its slashes. -/
def pieces (path : String) : List String :=
  (Text.pieces '/' path.toList).map String.ofList

/-- Names with a slash between each two. -/
def join (names : List String) : String :=
  String.ofList (List.intercalate ['/'] (names.map String.toList))

/-- Whether a path starts at the top of the file system. -/
def isAbsolute (path : String) : Bool :=
  path.toList.head? = some '/'

/-- Those of some pieces that name something: neither empty nor a dot. -/
def naming (pieces : List String) : List String :=
  pieces.filter fun piece => piece ≠ "" ∧ piece ≠ "."

/-- The pieces of a path that name something. -/
def names (path : String) : List String := naming (pieces path)

/-- The parts of a path. -/
def parts (path : String) : List String :=
  if isAbsolute path then "/" :: names path
  else if (pieces path).head? = some "." then "." :: names path
  else names path

/-- The last part of a path, if it is a name. -/
def fileName? (path : String) : Option String :=
  match (parts path).getLast? with
  | some name => if name = "/" ∨ name = "." ∨ name = ".." then none else some name
  | none => none

/-- What stands before and after the last occurrence of `c`. -/
def splitLast? (c : Char) (text : List Char) : Option (List Char × List Char) :=
  let last := (text.reverse.takeWhile (· ≠ c)).reverse
  if last.length < text.length then some (text.take (text.length - last.length - 1), last) else none

/--
The extension of a path: what follows the last dot of its last part, in lower case as far as it is ASCII. A
name whose only dot is its first character has no extension.
-/
def extension? (path : String) : Option String := do
  let name ← fileName? path
  let (stem, extension) ← splitLast? '.' name.toList
  if stem.isEmpty then none else some (String.ofList (extension.map Char.toLower))

/-- The directory part of a path: what stands before its last slash, empty if there is none. -/
def parent (path : String) : String :=
  match splitLast? '/' path.toList with
  | some (dir, _) => String.ofList dir
  | none => ""

/-- What stands behind the last slash of a path. -/
def baseName (path : String) : String :=
  match splitLast? '/' path.toList with
  | some (_, name) => String.ofList name
  | none => path

/-- The path `rest` as seen from `dir`, without folding. -/
def under (dir rest : String) : String :=
  if dir = "" then rest else dir ++ "/" ++ rest

/-- The pieces, from the top of the file system, of a path as seen from the place `root`. -/
def piecesFrom (root : List String) (path : String) : List String :=
  if isAbsolute path then (pieces path).tail else root ++ pieces path

/-- The path of `path` as seen from `root`, if its parts start with those of `root`. -/
def relativeTo? (root path : String) : Option String :=
  ((parts root).isPrefixOf? (parts path)).map join

/-! ## Folding -/

/-- One more piece on top of the names so far, the innermost first. Fails if there is nothing to step up from. -/
def foldPiece? (above : List String) (piece : String) : Option (List String) :=
  if piece = "" ∨ piece = "." then some above
  else if piece = ".." then
    match above with
    | [] => none
    | _ :: rest => some rest
  else some (piece :: above)

/-- Folds the pieces of a path. Fails if it climbs above its start at some point. -/
def fold? (pieces : List String) : Option (List String) :=
  (pieces.foldlM foldPiece? []).map List.reverse

/-- The folded form of a path. Fails if it climbs above its start at some point. -/
def normalize? (path : String) : Option String :=
  (fold? (pieces path)).map join

/-- The folded form of `rest` as seen from `dir`. -/
def resolve? (dir rest : String) : Option String :=
  normalize? (under dir rest)

/-- One more piece on top of the names so far, where a step up from the top stays there. -/
def foldPieceAtTop (above : List String) (piece : String) : List String :=
  if piece = "" ∨ piece = "." then above
  else if piece = ".." then above.tail
  else piece :: above

/-- Folds the pieces of an absolute path: a step up from the top of the file system stays there. -/
def foldAtTop (pieces : List String) : List String :=
  (pieces.foldl foldPieceAtTop []).reverse

end RepoScope.Path
