import RepoScope.FileTree

/-!
# Repositories

A repository is a directory of a disk. Its files are named by their paths as seen from it.
-/

namespace RepoScope

/-- A disk and the place of the root directory on it. -/
structure Repository where
  disk : Disk
  root : List String

namespace Repository

/-- What a path as seen from the root leads to. -/
def follow (repo : Repository) (path : String) : Option Node.Place :=
  repo.disk.top.follow (Path.piecesFrom repo.root path)

/-- The bytes of the regular file at a path. -/
def read? (repo : Repository) (path : String) : Option Bytes :=
  repo.disk.top.read? (Path.piecesFrom repo.root path)

/-- The text of the regular file at a path, if it is well-formed UTF-8. -/
def readText? (repo : Repository) (path : String) : Option (List Char) :=
  repo.disk.top.readText? (Path.piecesFrom repo.root path)

end Repository

end RepoScope
