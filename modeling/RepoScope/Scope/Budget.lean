import RepoScope.Scope.Basic

/-!
# The file budget

Selected files are put into the order of their importance and cut off at the budget. The target and its
dependencies stay, even if they alone exceed it.
-/

namespace RepoScope.Scope

/-- Whether a file may stand before another: by its role, and by its path among files of one role. -/
def ScopedFile.precedes (a b : ScopedFile) : Bool :=
  a.role.rank < b.role.rank || (a.role.rank == b.role.rank && a.path ≤ b.path)

/-- Whether a file takes the place of another with the same path. -/
def ScopedFile.outranks (a b : ScopedFile) : Bool :=
  a.path == b.path && a.role.rank < b.role.rank

/-- For each path, the first of the files with the most important role. -/
def bestOfEachPath (files : List ScopedFile) : List ScopedFile :=
  files.foldl (fun best file =>
    if best.any (·.path == file.path) then
      best.map fun other => if file.outranks other then file else other
    else best ++ [file]) []

/-- The files in the order of their importance, each path once. -/
def inRoleOrder (files : List ScopedFile) : List ScopedFile :=
  Sorting.sorted ScopedFile.precedes (bestOfEachPath files)

/-- The most important files, as many as the budget allows, and all required ones. -/
def rank (files : List ScopedFile) (maxFiles : Nat) : List ScopedFile :=
  let ordered := inRoleOrder files
  ordered.take (max maxFiles (ordered.countP (·.role.isRequired)))

end RepoScope.Scope
