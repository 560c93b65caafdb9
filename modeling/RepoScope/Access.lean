import RepoScope.Repository

/-!
# Reading at a path

What a program is given when it asks for the bytes at a path. The system looks up one name after the other as
`Node.follow` does, and where it cannot go on it says why (`ReadError`). A directory may be closed to the program,
and what a path leads to may be kept from it for reasons that do not show in the tree, such as its permissions or a
damaged disk: both are part of the `Access` that the program has.
-/

namespace RepoScope

/-- Why the bytes at a path cannot be read. -/
inductive ReadError where
  | missing
  | notDirectory
  | isDirectory
  | tooManyLinks
  | nameTooLong
  | denied
  /-- The path has the character in it that ends the paths of the system. -/
  | holdsNul
  /-- For a reason that the system gives in these words. -/
  | refused (words : String)
  deriving DecidableEq

/-- The wording of a read error. -/
def ReadError.message : ReadError → String
  | missing => "No such file or directory (os error 2)"
  | denied => "Permission denied (os error 13)"
  | notDirectory => "Not a directory (os error 20)"
  | isDirectory => "Is a directory (os error 21)"
  | nameTooLong => "File name too long (os error 36)"
  | tooManyLinks => "Too many levels of symbolic links (os error 40)"
  | holdsNul => "file name contained an unexpected NUL byte"
  | refused words => words

namespace Node

/-- What the system lets a program do at the places of a tree. -/
structure Access where
  /-- Whether names may be looked up in the directory at a place. -/
  enters : List String → Bool
  /-- The words in which the system refuses to read what stands at a place, if it does. -/
  refusal? : List String → Option String

/-- Access to everything. -/
def Access.full : Access where
  enters _ := true
  refusal? _ := none

/-- How many bytes the name of a file may have. -/
def nameLimit : Nat := 255

/-- Why a name is not found in a directory. -/
def missingName (name : String) : ReadError :=
  if nameLimit < name.utf8ByteSize then .nameTooLong else .missing

/--
Goes on from the place `here` with the pieces of a path, as `followPieces` does. A name is looked up only in a
directory that may be entered.
-/
def reachPieces (access : Access) (top : Node)
    (onward : List String → List String → Except ReadError Place) (here : List String) :
    List String → Except ReadError Place
  | [] =>
    match top.lookup here with
    | some node => .ok ⟨here, node⟩
    | none => .error .missing
  | piece :: rest =>
    match top.lookup here with
    | some (dir entries) =>
      if piece = "" then reachPieces access top onward here rest
      else if access.enters here = false then .error .denied
      else if piece = "." then reachPieces access top onward here rest
      else if piece = ".." then reachPieces access top onward here.dropLast rest
      else match entries.find? piece with
        | none => .error (missingName piece)
        | some (link target) =>
          onward (if Path.isAbsolute target then [] else here) (Path.pieces target ++ rest)
        | some _ => reachPieces access top onward (here ++ [piece]) rest
    | some _ => .error .notDirectory
    | none => .error .missing

/-- Goes on from a place with the pieces of a path, through this many links at most. -/
def reachFrom (access : Access) (top : Node) : Nat → List String → List String → Except ReadError Place
  | 0 => reachPieces access top fun _ _ => .error .tooManyLinks
  | links + 1 => reachPieces access top (reachFrom access top links)

/-- The node that a path from the top leads to, with its own place, or why there is none to be reached. -/
def reach (access : Access) (top : Node) (pieces : List String) : Except ReadError Place :=
  if pieces.any (·.toList.contains '\x00') then .error .holdsNul
  else if pathSize pieces < sizeLimit then reachFrom access top linkLimit [] pieces
  else .error .nameTooLong

end Node

namespace Repository

/-- What a path as seen from the root leads to, or why that cannot be reached. -/
def reach (access : Node.Access) (repo : Repository) (path : String) : Except ReadError Node.Place :=
  repo.disk.top.reach access (Path.piecesFrom repo.root path)

/-- The bytes at a path, or why they cannot be read. -/
def readFile (access : Node.Access) (repo : Repository) (path : String) : Except ReadError Bytes :=
  match repo.reach access path with
  | .error e => .error e
  | .ok ⟨names, node⟩ =>
    match access.refusal? names, node with
    | some words, _ => .error (.refused words)
    | none, .file content => .ok content
    | none, _ => .error .isDirectory

end Repository

end RepoScope
