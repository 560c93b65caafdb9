import RepoScope.Path
import RepoScope.Pattern

/-!
# References to other files

What an import statement says about the file it means, as far as the statement alone can tell: paths below
the root at which the file, or a directory that stands for it, may be found.
-/

namespace RepoScope.Import

/-- The paths that one import may mean, the first choice first, without extensions that it leaves out. -/
structure Reference where
  bases : List String
  deriving DecidableEq

end RepoScope.Import
