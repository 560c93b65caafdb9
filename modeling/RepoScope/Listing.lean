import RepoScope.Scope.Basic

/-!
# Listings

The selected files as a list, one path to a line, or drawn as a tree. In the tree the entries of a directory
come in the order of the most important role at or below them, and by name where these are the same.
-/

namespace RepoScope.Listing

open Scope

/-! ## Labels -/

/-- How labels are written. -/
inductive Ink where
  /-- Without styles; a slash marks directories. -/
  | plain
  /-- As with styles, for a terminal that takes none. -/
  | muted
  /-- With terminal styles. -/
  | coloured
  deriving DecidableEq

/-- What ends a terminal style. -/
def resetStyle : String := "\x1b[0m"

/-- A text in the terminal style of this code. The style starts anew where the text itself ends a style. -/
def styled (code text : String) : String :=
  let start := "\x1b[" ++ code ++ "m"
  start ++ (resetStyle ++ start).intercalate (text.splitOn resetStyle) ++ resetStyle

/-- A text in the terminal style of this code, if there are styles. -/
def Ink.paint (ink : Ink) (code text : String) : String :=
  match ink with
  | plain | muted => text
  | coloured => styled code text

/-- The terminal style of a role. -/
def roleStyle : Role → String
  | .target => "1;32"
  | .dependency => "36"
  | .changed => "33"
  | .config => "35"
  | .normal => "2"

/-- The name of a role in brackets, twelve columns wide. -/
def roleMarker (ink : Ink) (role : Role) : String :=
  let label := "[" ++ role.name ++ "]"
  ink.paint (roleStyle role) (label ++ String.ofList (List.replicate (12 - label.length) ' '))

/-- What is said about a mode behind a path. -/
def modeSuffix (ink : Ink) : Mode → String
  | .full => ""
  | .skeleton => ink.paint "2" " (skeleton)"
  | .excluded => ink.paint "31" " (excluded)"

/-- The label of a file. -/
def fileLabel (ink : Ink) (role : Role) (mode : Mode) (name : String) : String :=
  roleMarker ink role ++ " " ++ name ++ modeSuffix ink mode

/-- The label of a directory. -/
def dirLabel (ink : Ink) (name : String) : String :=
  match ink with
  | .plain => name ++ "/"
  | .muted | .coloured => ink.paint "1;34" name

/-- Lines with a line feed behind each. -/
def unlines (lines : List String) : String :=
  String.join (lines.map (· ++ "\n"))

/-- The files as a list. -/
def flat (ink : Ink) (files : List ScopedFile) : String :=
  unlines (files.map fun f => fileLabel ink f.role f.mode f.path)

/-! ## Trees of names -/

/-- A name with what stands below it, and the role and mode of the file of this path, if there is one. -/
inductive Branch where
  | mk (name : String) (file : Option (Role × Mode)) (children : List Branch)

namespace Branch

/-- The name of a branch. -/
def name : Branch → String
  | mk name _ _ => name

/-- The file of a branch. -/
def file : Branch → Option (Role × Mode)
  | mk _ file _ => file

/-- The branches below a branch. -/
def children : Branch → List Branch
  | mk _ _ children => children

/-- Branches with the one of this name changed, or put in at the end if there was none. -/
def change (name : String) (f : Branch → Branch) : List Branch → List Branch
  | [] => [f (mk name none [])]
  | b :: rest => if b.name = name then f b :: rest else b :: change name f rest

/-- Branches with one more file. A later file of one path replaces an earlier one. -/
def add (file : Role × Mode) : List String → List Branch → List Branch
  | [], branches => branches
  | [name], branches => change name (fun b => mk b.name (some file) b.children) branches
  | name :: rest, branches => change name (fun b => mk b.name b.file (add file rest b.children)) branches

mutual

/-- The position of the most important role at or below a branch. -/
def bestRank : Branch → Nat
  | mk _ file children => min ((file.map (·.1.rank)).getD Role.normal.rank) (bestRankOf children)

/-- The position of the most important role at or below some branches. -/
def bestRankOf : List Branch → Nat
  | [] => Role.normal.rank
  | b :: rest => min b.bestRank (bestRankOf rest)

end

/-- Whether a branch may stand before another. -/
def precedes (a b : Branch) : Bool :=
  a.bestRank < b.bestRank || (a.bestRank == b.bestRank && a.name ≤ b.name)

mutual

/-- A branch with everything below it in order. -/
def arrange : Branch → Branch
  | mk name file children => mk name file (Sorting.sorted precedes (arrangeAll children))

/-- Branches with everything below them in order. -/
def arrangeAll : List Branch → List Branch
  | [] => []
  | b :: rest => b.arrange :: arrangeAll rest

end

/-- The branches of some files, in order. -/
def ofFiles (files : List ScopedFile) : List Branch :=
  Sorting.sorted precedes (arrangeAll
    (files.foldl (fun branches f => add (f.role, f.mode) (Path.pieces f.path) branches) []))

/-! ## Drawing -/

/-- What is written for a branch. -/
def label (ink : Ink) : Branch → String
  | mk name (some (role, mode)) [] => fileLabel ink role mode name
  | mk name _ _ => dirLabel ink name

/-- The guides below a branch. A dot draws nothing, and what is below it starts from the left. -/
def guides (above : String) (isLast : Bool) (name : String) : String :=
  if name = "." then "" else above ++ (if isLast then "    " else "│   ")

mutual

/-- The lines of a branch, given the guides to its left and whether it is the last of its parent. -/
def draw (ink : Ink) (above : String) (isLast : Bool) : Branch → List String
  | mk name file children =>
    (if name = "." then []
      else [above ++ (if isLast then "└── " else "├── ") ++ label ink (mk name file children)]) ++
    drawAll ink (guides above isLast name) children

/-- The lines of the branches below one parent. -/
def drawAll (ink : Ink) (above : String) : List Branch → List String
  | [] => []
  | b :: rest => draw ink above rest.isEmpty b ++ drawAll ink above rest

end

end Branch

/-- The files drawn as a tree. -/
def tree (ink : Ink) (files : List ScopedFile) : String :=
  unlines (Branch.drawAll ink "" (Branch.ofFiles files))

end RepoScope.Listing
