import RepoScope.Access
import RepoScope.Content.Media
import RepoScope.Content.Tokens
import RepoScope.Content.Workers

/-!
# What loading gets from elsewhere

Beside the files, loading relies on what the system lets it read, on a registry of media types, on tokenizers and on
workers.
-/

namespace RepoScope.Content

/-- The surroundings of loading. -/
structure Host where
  access : Node.Access := .full
  /-- The media type that is registered for an extension. -/
  mediaType? : String → Option MediaType := registeredType?
  tokenizers : Tokenizers := {}
  pool : Pool := .inOrder 1

end RepoScope.Content
