import RepoScope.Json.Value
import RepoScope.Repository
import RepoScope.Toml.Reader

/-!
# Configuration

Settings that hold unless a request says otherwise. They come in layers, from the user's home directory and
from the root; each setting of a later layer replaces that of an earlier one. A layer with an unknown setting
or a value of the wrong kind counts for nothing.
-/

namespace RepoScope

structure Config where
  maxFiles : Option Nat
  exclude : Option (List String)
  format : Option String
  noColor : Option Bool
  jobs : Option Nat
  tokens : Option Bool
  deriving DecidableEq

namespace Config

/-- No settings. -/
def empty : Config := ⟨none, none, none, none, none, none⟩

/-- The settings of two layers, where those of the second come first. -/
def merge (c later : Config) : Config where
  maxFiles := later.maxFiles.or c.maxFiles
  exclude := later.exclude.or c.exclude
  format := later.format.or c.format
  noColor := later.noColor.or c.noColor
  jobs := later.jobs.or c.jobs
  tokens := later.tokens.or c.tokens

/-- The names of the settings, in order. -/
def names : List String := ["max_files", "exclude", "format", "no_color", "jobs", "tokens"]

/-! ## Layers in TOML -/

/-- The settings of a TOML document. -/
def ofToml? (doc : Toml.Document) : Option Config := do
  let entry (name : String) : Option Toml.Entry := doc.entry? [.key name]
  let setting {α : Type} (name : String) (read : Toml.Entry → Option α) : Option (Option α) :=
    match entry name with
    | none => some none
    | some e => (read e).map some
  let number : Toml.Entry → Option Nat
    | .integer (.ofNat n) => some n
    | _ => none
  let flag : Toml.Entry → Option Bool
    | .boolean b => some b
    | _ => none
  let text : Toml.Entry → Option String
    | .string s => some s
    | _ => none
  let texts : Toml.Entry → Option (List String)
    | .array length => (List.range length).mapM fun i => doc.text? [.key "exclude", .position i]
    | _ => none
  if (doc.keysAt []).all names.contains then
    some {
      maxFiles := ← setting "max_files" number
      exclude := ← setting "exclude" texts
      format := ← setting "format" text
      noColor := ← setting "no_color" flag
      jobs := ← setting "jobs" number
      tokens := ← setting "tokens" flag }
  else none

/-- The settings at a place on the disk, if there are any that can be read. -/
def layerAt? (disk : Disk) (place : List String) : Option Config :=
  ((disk.top.readText? place).bind Toml.parse?).bind ofToml?

/-- The name of the settings file of a root. -/
def rootFile : String := ".contextify.toml"

/-- The settings for a root. -/
def load (disk : Disk) (root : List String) : Config :=
  let home := disk.home.bind fun home => layerAt? disk (home ++ [".contextify", "config.toml"])
  let own := layerAt? disk (root ++ [rootFile])
  (home.toList ++ own.toList).foldl merge empty

/-! ## Layers in JSON -/

/-- A setting in JSON, absent if it is null. -/
def jsonSetting {α : Type} (read : Json → Option α) : Json → Option (Option α)
  | .null => some none
  | value => (read value).map some

/-- A number of files or jobs in JSON. -/
def jsonNumber : Json → Option Nat
  | .integer (.ofNat n) => some n
  | _ => none

/-- A truth value in JSON. -/
def jsonFlag : Json → Option Bool
  | .bool b => some b
  | _ => none

/-- A list of texts in JSON. -/
def jsonTexts : Json → Option (List String)
  | .array items => items.mapM Json.text?
  | _ => none

/-- The settings of a JSON value: an object of settings, or an array of all of them in order. -/
def ofJson? (value : Json) : Option Config := do
  let values ← match value with
    | .object members =>
      if members.all (fun (name, _) => names.contains name) then
        some (names.map fun name => (value.get? name).getD .null)
      else none
    | .array items => if items.length = names.length then some items else none
    | _ => none
  match values with
  | [maxFiles, exclude, format, noColor, jobs, tokens] =>
    some {
      maxFiles := ← jsonSetting jsonNumber maxFiles
      exclude := ← jsonSetting jsonTexts exclude
      format := ← jsonSetting Json.text? format
      noColor := ← jsonSetting jsonFlag noColor
      jobs := ← jsonSetting jsonNumber jobs
      tokens := ← jsonSetting jsonFlag tokens }
  | _ => none

end Config

end RepoScope
