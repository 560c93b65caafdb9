import RepoScope.Path
import RepoScope.Text.Utf8

/-!
# File trees

A directory tree as a value: regular files with their bytes, symbolic links with their targets, directories
with named entries. Places in the tree are lists of names from its top. `Node.follow` resolves a path the way
a file system does: names are looked up one after the other, and a link continues at its target, relative to
the directory that holds it, or from the top if the target starts with a slash. `Node.write?` and its like change
what a path leads to.
-/

namespace RepoScope

mutual

/-- What a name stands for. -/
inductive Node where
  | file (content : Bytes)
  | link (target : String)
  | dir (entries : Entries)

/-- The entries of a directory. The first entry of a name counts. -/
inductive Entries where
  | nil
  | cons (name : String) (node : Node) (rest : Entries)

end

namespace Entries

/-- The entry of this name. -/
def find? (name : String) : Entries → Option Node
  | nil => none
  | cons other node rest => if other = name then some node else find? name rest

/-- The entries with `node` under this name. -/
def insert (name : String) (node : Node) : Entries → Entries
  | nil => cons name node nil
  | cons other old rest =>
    if other = name then cons name node rest else cons other old (insert name node rest)

/-- The entries without those of this name. -/
def erase (name : String) : Entries → Entries
  | nil => nil
  | cons other node rest => if other = name then erase name rest else cons other node (erase name rest)

/-- The entries as a list. -/
def toList : Entries → List (String × Node)
  | nil => []
  | cons name node rest => (name, node) :: toList rest

end Entries

namespace Node

/-- The empty directory. -/
def emptyDir : Node := .dir .nil

/-- Whether this is a directory. -/
def isDir : Node → Bool
  | dir _ => true
  | _ => false

/-- The node at a place below this one. Links are not followed. -/
def lookup : Node → List String → Option Node
  | node, [] => some node
  | dir entries, name :: rest =>
    match entries.find? name with
    | some node => lookup node rest
    | none => none
  | _, _ :: _ => none

/--
The tree with the node `new` at a place below this one. Directories on the way are made where they are
missing, and replace files and links.
-/
def insert : Node → List String → Node → Node
  | _, [], new => new
  | dir entries, name :: rest, new =>
    dir (entries.insert name (insert ((entries.find? name).getD emptyDir) rest new))
  | _, name :: rest, new => dir (.cons name (insert emptyDir rest new) .nil)

/-- The tree without the node at a place below this one. -/
def erase : Node → List String → Node
  | node, [] => node
  | dir entries, [name] => dir (entries.erase name)
  | dir entries, name :: rest =>
    match entries.find? name with
    | some node => dir (entries.insert name (erase node rest))
    | none => dir entries
  | node, _ :: _ => node

/-! ## Following links -/

/-- A node and the place where it stands. -/
structure Place where
  names : List String
  node : Node

/-- How many links one path may lead through. -/
def linkLimit : Nat := 40

/--
Goes on from the directory at the place `here` with the pieces of a path. A link is left to `onward`, which
gets the place to start from and the pieces of the link's target before those that remain.
-/
def followPieces (top : Node) (onward : List String → List String → Option Place) (here : List String) :
    List String → Option Place
  | [] => (top.lookup here).map (⟨here, ·⟩)
  | piece :: rest =>
    match top.lookup here with
    | some (dir entries) =>
      if piece = "" ∨ piece = "." then followPieces top onward here rest
      else if piece = ".." then followPieces top onward here.dropLast rest
      else match entries.find? piece with
        | none => none
        | some (link target) =>
          onward (if Path.isAbsolute target then [] else here) (Path.pieces target ++ rest)
        | some _ => followPieces top onward (here ++ [piece]) rest
    | _ => none

/-- Goes on from a place with the pieces of a path, through this many links at most. -/
def followFrom (top : Node) : Nat → List String → List String → Option Place
  | 0 => followPieces top fun _ _ => none
  | links + 1 => followPieces top (followFrom top links)

/-- How many bytes a path must not have. -/
def sizeLimit : Nat := 4096

/-- How many bytes a path with these pieces has, with a slash before each. -/
def pathSize (pieces : List String) : Nat :=
  pieces.foldl (fun size piece => size + 1 + piece.utf8ByteSize) 0

/--
The node that a path from the top leads to, through all links, with its own place. A path that is too long leads
nowhere.
-/
def follow (top : Node) (pieces : List String) : Option Place :=
  if pathSize pieces < sizeLimit then followFrom top linkLimit [] pieces else none

/-- The bytes of the regular file that a path leads to. -/
def read? (top : Node) (pieces : List String) : Option Bytes :=
  match top.follow pieces with
  | some ⟨_, file content⟩ => some content
  | _ => none

/-- The text of the regular file that a path leads to, if it is well-formed UTF-8. -/
def readText? (top : Node) (pieces : List String) : Option (List Char) :=
  (top.read? pieces).bind Text.decode?

/-- Whether a path leads to a regular file. -/
def isFileAt (top : Node) (pieces : List String) : Bool :=
  (top.read? pieces).isSome

/-- Whether a path leads anywhere. -/
def existsAt (top : Node) (pieces : List String) : Bool :=
  (top.follow pieces).isSome

/-! ## Changes along links -/

/--
The tree and the place of the directory that a path from `here` leads to, after the directories that are missing on
the way have been made. Fails at a file and at a link that leads to no directory.
-/
def makeDirs? (top : Node) (here : List String) : List String → Option (Node × List String)
  | [] => some (top, here)
  | piece :: rest =>
    if piece = "" ∨ piece = "." then makeDirs? top here rest
    else if piece = ".." then makeDirs? top here.dropLast rest
    else
      let next := here ++ [piece]
      match top.follow next, top.lookup next with
      | some ⟨place, dir _⟩, _ => makeDirs? top place rest
      | none, none => makeDirs? (top.insert next emptyDir) next rest
      | _, _ => none

/--
The tree after a file has been written at a path, through this many links at most: a link at its end is written
through, also if nothing stands there yet. Fails where there is no directory for the file.
-/
def writeThrough? (top : Node) (content : Bytes) : Nat → List String → Option Node
  | links, pieces =>
    match top.follow pieces.dropLast, pieces.getLast? with
    | some ⟨here, dir entries⟩, some name =>
      if name = "" ∨ name = "." ∨ name = ".." then none
      else match entries.find? name, links with
        | some (dir _), _ => none
        | some (link _), 0 => none
        | some (link target), links + 1 => writeThrough? top content links (Path.piecesFrom here target)
        | _, _ => some (top.insert (here ++ [name]) (file content))
    | _, _ => none

/-- The tree after a file has been written at a path. Directories that are missing on the way are made. -/
def write? (top : Node) (pieces : List String) (content : Bytes) : Option Node :=
  (top.makeDirs? [] pieces.dropLast).bind fun (top, parent) =>
    top.writeThrough? content linkLimit (parent ++ pieces.getLast?.toList)

/-- The tree with a link at a path where nothing stands yet. Directories that are missing on the way are made. -/
def makeLink? (top : Node) (pieces : List String) (target : String) : Option Node :=
  (top.makeDirs? [] pieces.dropLast).bind fun (top, parent) =>
    let place := parent ++ pieces.getLast?.toList
    if (top.lookup place).isSome then none else some (top.insert place (link target))

end Node

/-- All files that a program can see, and the place of the user's home directory among them. -/
structure Disk where
  top : Node
  home : Option (List String)

end RepoScope
