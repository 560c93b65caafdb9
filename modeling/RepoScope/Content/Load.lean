import RepoScope.Content.Host
import RepoScope.Digest
import RepoScope.Scope.Basic

/-!
# The content of selected files

Each selected file is shown, listed without content, or skipped. Required files are opened whatever their
size and extension, and are at least listed; other files that look binary, are too large or cannot be read
are skipped. Excluded files are listed and never opened.
-/

namespace RepoScope.Content

open Scope

/-- A selected file as it is shown. -/
structure ShownFile where
  path : String
  role : Role
  mode : Mode
  /-- How many lines the content has. -/
  lines : Nat
  /-- The short hash of the content. -/
  hash : Option String
  /-- How many tokens the content has, if that was asked for. -/
  tokens : Option Nat
  content : Option String
  deriving DecidableEq

/-- A selected file that is not shown. -/
structure SkippedFile where
  path : String
  reason : String
  deriving DecidableEq

/-! ## Text or not -/

/-- The largest size, in bytes, of a file that is shown without being required. -/
def maxTextBytes : Nat := 200000

/-- How many bytes at the start of a file are searched for zeros. -/
def sniffedBytes : Nat := 8192

/-- Whether the bytes of a file look binary. -/
def looksBinary (content : Bytes) : Bool :=
  (content.take sniffedBytes).contains 0

/-- The extension at the end of a path from the top of the file system. The root has one if its own name does. -/
def fullExtension? (repo : Repository) (path : String) : Option String :=
  Path.extension? (Path.join (Path.piecesFrom repo.root path))

/-- Whether what a path leads to may be opened as a text that is not required. -/
def mayBeText (host : Host) (repo : Repository) (path : String) : Bool :=
  !isLikelyBinary host.mediaType? (fullExtension? repo path) &&
  match repo.reach host.access path with
  | .ok ⟨_, .file content⟩ => content.length ≤ maxTextBytes
  | .ok _ => true
  | .error _ => false

/-- What is said about files that are skipped for what they are. -/
def notText : String := "binary or larger than 200 kB"

/-! ## Loading -/

/-- What becomes of one selected file. -/
inductive Loaded where
  | shown (file : ShownFile)
  /-- Listed without content, with a warning. -/
  | listed (file : ShownFile) (warning : String)
  | skipped (file : SkippedFile)

/-- A selected file without content. -/
def bare (f : ScopedFile) : ShownFile :=
  { path := f.path, role := f.role, mode := f.mode, lines := 0, hash := none, tokens := none
    content := none }

/-- What is shown of a text in the mode of the file. -/
def shownText (f : ScopedFile) (text : List Char) : List Char :=
  match f.mode with
  | .skeleton => Outline.outline text f.candidate.extension
  | .full | .excluded => text

/-- A selected file with the text that is shown of it. -/
def withText (host : Host) (countTokens : Bool) (f : ScopedFile) (text : List Char) : ShownFile :=
  { path := f.path, role := f.role, mode := f.mode
    lines := (Text.lines text).length
    hash := some (Digest.short (Text.encode text))
    tokens := if countTokens then some (host.tokenizers.count defaultEncoding text) else none
    content := some (String.ofList text) }

/-- Loads one selected file. -/
def loadFile (host : Host) (repo : Repository) (countTokens : Bool) (f : ScopedFile) : Loaded :=
  if f.mode = .excluded then .shown (bare f)
  else if !f.role.isRequired && !mayBeText host repo f.path then .skipped ⟨f.path, notText⟩
  else match repo.readFile host.access f.path with
    | .error e =>
      if f.role.isRequired then
        .listed (bare f) (f.role.name ++ " " ++ f.path ++ " could not be read: " ++ e.message)
      else .skipped ⟨f.path, "unreadable: " ++ e.message⟩
    | .ok content =>
      if looksBinary content then
        if f.role.isRequired then
          .listed (bare f)
            (f.role.name ++ " " ++ f.path ++ " is a binary file; its content is not shown")
        else .skipped ⟨f.path, notText⟩
      else .shown (withText host countTokens f (shownText f (Text.decodeLossy content)))

/-- All selected files, sorted by what becomes of them. -/
structure LoadedFiles where
  files : List ShownFile
  skipped : List SkippedFile
  warnings : List String

/-- Loads selected files one by one. -/
def load (repo : Repository) (countTokens : Bool) (files : List ScopedFile) (host : Host := {}) :
    LoadedFiles :=
  let loaded := files.map (loadFile host repo countTokens)
  { files := loaded.filterMap fun
      | .shown file | .listed file _ => some file
      | .skipped _ => none
    skipped := loaded.filterMap fun
      | .skipped file => some file
      | _ => none
    warnings := loaded.filterMap fun
      | .listed _ warning => some warning
      | _ => none }

/-! ## Loading with several workers -/

/-- The loaded files with one more behind them. -/
def LoadedFiles.push (loaded : LoadedFiles) : Loaded → LoadedFiles
  | .shown file => { loaded with files := loaded.files ++ [file] }
  | .listed file warning =>
    { loaded with files := loaded.files ++ [file], warnings := loaded.warnings ++ [warning] }
  | .skipped file => { loaded with skipped := loaded.skipped ++ [file] }

/-- Loads selected files with the workers of the host, with several if the request asks for them. -/
def loadWith (host : Host) (jobs : Nat) (repo : Repository) (countTokens : Bool)
    (files : List ScopedFile) : LoadedFiles :=
  (host.pool.map jobs (loadFile host repo countTokens) files).foldl LoadedFiles.push ⟨[], [], []⟩

end RepoScope.Content
