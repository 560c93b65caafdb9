import RepoScope.Toml.Value

/-!
# TOML documents

A document is kept flat: each place, a path of keys and positions, has an entry that says what stands there.
Places are defined once. A table may come into being by the way, as part of a longer path, and only such
a table may be defined by a header later; dotted keys extend only tables that came into being by dotted keys.
-/

namespace RepoScope.Toml

/-- A step from a table or array to a part of it. -/
inductive Step where
  | key (name : String)
  | position (index : Nat)
  deriving DecidableEq

/-- A path from the top of the document. -/
abbrev Place := List Step

/-- What stands at a place. -/
inductive Entry where
  | string (text : String)
  | integer (value : Int)
  | boolean (value : Bool)
  /-- A float, a date or a time. -/
  | other
  | array (length : Nat)
  /-- A table in braces. -/
  | inline
  /-- A table by header or by the way. `isImplicit`: it came into being by the way. -/
  | table (isImplicit isDotted : Bool)
  /-- Tables of one name, by headers in double brackets. -/
  | tables (length : Nat)
  deriving DecidableEq

/-- The entries of a document. The first entry of a place counts. -/
abbrev Document := List (Place × Entry)

namespace Document

/-- What stands at a place. -/
def entry? (doc : Document) (place : Place) : Option Entry :=
  (doc.find? (·.1 == place)).map (·.2)

/-- The document with an entry at a place. -/
def put (doc : Document) (place : Place) (entry : Entry) : Document :=
  (place, entry) :: doc

/-- The document without the entry of a place. -/
def erase (doc : Document) (place : Place) : Document :=
  doc.filter (·.1 ≠ place)

/-- The document with an entry at a place in the position of the one that it replaces. -/
def replace (doc : Document) (place : Place) (entry : Entry) : Document :=
  doc.map fun other => if other.1 = place then (place, entry) else other

/-- The names of the keys right below a place, the last one first. -/
def keysAt (doc : Document) (place : Place) : List String :=
  doc.filterMap fun (other, _) =>
    match other.getLast? with
    | some (.key name) => if other.dropLast = place then some name else none
    | _ => none

/--
Goes down from a place along keys; missing tables come into being by the way. Below tables of one name, the
latest is meant. Fails at a value, and with dotted keys also at a table that a header defined.
-/
def descend? (isDotted : Bool) (doc : Document) (place : Place) : List String → Option (Document × Place)
  | [] => some (doc, place)
  | key :: keys =>
    let next := place ++ [.key key]
    match doc.entry? next with
    | none => descend? isDotted (doc.put next (.table true isDotted)) next keys
    | some (.table isImplicit _) =>
      if isDotted && !isImplicit then none else descend? isDotted doc next keys
    | some (.tables length) => descend? isDotted doc (next ++ [.position (length - 1)]) keys
    | some _ => none

/-- Whether the table at a place came into being by dotted keys. -/
def isDottedAt (doc : Document) (place : Place) : Bool :=
  match doc.entry? place with
  | some (.table _ isDotted) => isDotted
  | _ => false

/-- The table and the place that a path of keys below `base` defines. Fails if it is defined already. -/
def define? (doc : Document) (base : Place) (keys : List String) : Option (Document × Place) := do
  let (doc, table) ← doc.descend? true base keys.dropLast
  let place := table ++ keys.getLast?.toList.map .key
  if doc.isDottedAt table == keys.dropLast.isEmpty then none
  else if (doc.entry? place).isSome then none
  else some (doc, place)

mutual

/-- The document with a value at a place. -/
def store? (doc : Document) (place : Place) : Value → Option Document
  | .string text => some (doc.put place (.string text))
  | .integer value => some (doc.put place (.integer value))
  | .boolean value => some (doc.put place (.boolean value))
  | .float => some (doc.put place .other)
  | .date => some (doc.put place .other)
  | .array items => storeItems? (doc.put place (.array items.length)) place 0 items
  | .inline pairs => storePairs? (doc.put place .inline) place pairs

/-- The document with the items of an array from position `index` on. -/
def storeItems? (doc : Document) (place : Place) (index : Nat) : List Value → Option Document
  | [] => some doc
  | item :: rest =>
    match store? doc (place ++ [.position index]) item with
    | some doc => storeItems? doc place (index + 1) rest
    | none => none

/-- The document with pairs of keys and values below a place. -/
def storePairs? (doc : Document) (place : Place) : List (List String × Value) → Option Document
  | [] => some doc
  | (keys, value) :: rest =>
    match define? doc place keys with
    | some (doc, target) =>
      match store? doc target value with
      | some doc => storePairs? doc place rest
      | none => none
    | none => none

end

/-- The document with a table by header, and its place. It comes after what stands there already. -/
def openTable? (doc : Document) (keys : List String) : Option (Document × Place) := do
  let (doc, parent) ← doc.descend? false [] keys.dropLast
  let place := parent ++ keys.getLast?.toList.map .key
  match doc.entry? place with
  | none | some (.table true false) => some ((doc.erase place).put place (.table false false), place)
  | some _ => none

/-- The document with one more table of a name, and its place. -/
def appendTable? (doc : Document) (keys : List String) : Option (Document × Place) := do
  let (doc, parent) ← doc.descend? false [] keys.dropLast
  let place := parent ++ keys.getLast?.toList.map .key
  let item (index : Nat) : Place := place ++ [.position index]
  match doc.entry? place with
  | none => some ((doc.put place (.tables 1)).put (item 0) (.table false false), item 0)
  | some (.tables length) =>
    some ((doc.replace place (.tables (length + 1))).put (item length) (.table false false), item length)
  | some _ => none

/-- The text at a place. -/
def text? (doc : Document) (place : Place) : Option String :=
  match doc.entry? place with
  | some (.string text) => some text
  | _ => none

/-- Whether a table stands at a place. -/
def isTableAt (doc : Document) (place : Place) : Bool :=
  match doc.entry? place with
  | some (.table ..) | some .inline => true
  | _ => false

/-! ## Dates in the form of tables -/

/-- The key by which a table stands for a date: it must come first, and its value is the date as a text. -/
def dateKey : String := "$__toml_private_datetime"

/-- The places of the tables that stand for dates. The whole document never does. -/
def datePlaces (doc : Document) : List Place :=
  doc.filterMap fun (place, _) =>
    let table := place.dropLast
    if place.getLast? = some (.key dateKey) ∧ table ≠ [] ∧ (doc.keysAt table).getLast? = some dateKey then
      some table
    else none

/-- Whether the date that the table at a place stands for can be read. -/
def hasDateAt (doc : Document) (place : Place) : Bool :=
  (doc.text? (place ++ [.key dateKey])).any Scalar.isDateText

/--
The document with dates in place of the tables that stand for them, and without what is inside these. Fails if one
of the dates cannot be read.
-/
def withDates? (doc : Document) : Option Document :=
  let dates := doc.datePlaces
  let isInside (place : Place) : Bool :=
    dates.any fun date => date.length < place.length && date.isPrefixOf place
  let outer := dates.filter fun date => !isInside date
  if outer.all doc.hasDateAt then
    some ((doc.filter fun entry => !isInside entry.1).map fun entry =>
      if outer.contains entry.1 then (entry.1, .other) else entry)
  else none

end Document

end RepoScope.Toml
