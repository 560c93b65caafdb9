import RepoScope.Ignore
import RepoScope.Secret
import RepoScope.Sorting

/-!
# The files of a repository

The walk lists the regular files below a root. It leaves out secrets and what the policy ignores, does not
enter directories that are left out, and follows no links. The names are tested one by one on the way down;
what is above a path has been admitted before the path itself is looked at.
-/

namespace RepoScope

/-- A file that may become part of the context. -/
structure Candidate where
  /-- Its path as seen from the root. -/
  path : String
  /-- How many bytes it has. -/
  size : Nat
  /-- Its extension in lower case. -/
  extension : Option String
  deriving DecidableEq

/-- What stands behind the last slash of its path. -/
def Candidate.fileName (c : Candidate) : String := Path.baseName c.path

namespace Walk

/-- Whether the walk goes on with an entry, given that it has reached its directory. -/
def admits (policy : Ignore.Policy) (path name : String) (node : Node) : Bool :=
  !Secret.isSensitiveName name && !policy.isMatch path node.isDir

mutual

/-- The files at and below a node with this path. -/
def filesAt (policy : Ignore.Policy) (path : String) : Node → List Candidate
  | .file content => [⟨path, content.length, Path.extension? path⟩]
  | .link _ => []
  | .dir entries => filesIn policy path entries

/-- The files at and below the entries of a directory with this path. -/
def filesIn (policy : Ignore.Policy) (dir : String) : Entries → List Candidate
  | .nil => []
  | .cons name node rest =>
    (if admits policy (Path.under dir name) name node then filesAt policy (Path.under dir name) node
      else []) ++
    filesIn policy dir rest

end

/-- Whether a candidate comes before another in the order of their paths. -/
def comesBefore (a b : Candidate) : Bool := a.path ≤ b.path

/-- The files below the directory that a path leads to, in the order of their paths. -/
def candidates? (top : Node) (root : List String) (policy : Ignore.Policy) : Option (List Candidate) :=
  match top.follow root with
  | some ⟨_, .dir entries⟩ => some (Sorting.sorted comesBefore (filesIn policy "" entries))
  | _ => none

end Walk

end RepoScope
