import RepoScope.Glob
import RepoScope.Path

/-!
# Names of secrets

A denylist of names of files that must never leave the machine: keys, certificates, credentials and
environment files. The test looks at every component of a path, so a directory with such a name takes
everything below it with it. Upper and lower case make no difference.
-/

namespace RepoScope.Secret

/-- The names that look like secrets. -/
def globs : List String := [
  ".env", ".env.*", "*.env",
  "*.pem", "*.key", "*.crt", "*.cer", "*.cert", "*.p12", "*.pfx", "*.jks", "*.keystore", "*.kdbx",
  "*id_rsa*", "*id_dsa*", "*id_ecdsa*", "*id_ed25519*",
  "*secret*", "*password*", "*credential*",
  ".netrc", ".pgpass", ".htpasswd"]

/-- The globs as tokens. -/
def tokenLists : List (List Glob.Token) :=
  globs.filterMap fun glob => Glob.parse? glob.toList

/-- Whether a single name looks like a secret. -/
def isSensitiveName (name : String) : Bool :=
  tokenLists.any fun tokens => Glob.isMatch .asciiInsensitive tokens name.toList

/-- Whether a component of the path looks like a secret. -/
def isSensitive (path : String) : Bool :=
  (Path.names path).any isSensitiveName

end RepoScope.Secret
