import RepoScope.Digest
import RepoScope.Json.Value

/-!
# Writing JSON

Values are written over several lines, each nesting level indented by two more spaces. Empty arrays and
objects stay on one line.
-/

namespace RepoScope.Json

/-- A character inside a string. Only quotes, backslashes and control characters are escaped. -/
def escapeChar (c : Char) : List Char :=
  match c with
  | '\x22' => ['\\', c]
  | '\\' => ['\\', c]
  | '\x08' => ['\\', 'b']
  | '\x0c' => ['\\', 'f']
  | '\n' => ['\\', 'n']
  | '\r' => ['\\', 'r']
  | '\t' => ['\\', 't']
  | _ => if c.toNat < 0x20 then '\\' :: 'u' :: Digest.hexDigits 4 c.toNat else [c]

/-- A string in quotes. -/
def quote (text : String) : List Char :=
  '\x22' :: text.toList.flatMap escapeChar ++ ['\x22']

/-- A line feed and the indentation of this level. -/
def newLine (level : Nat) : List Char :=
  '\n' :: List.replicate (2 * level) ' '

/-- Written parts between brackets, a comma between each two. -/
def bracketed (opening closing : Char) (level : Nat) (parts : List (List Char)) : List Char :=
  match parts with
  | [] => [opening, closing]
  | _ =>
    opening :: newLine (level + 1) ++ List.intercalate (',' :: newLine (level + 1)) parts ++
      newLine level ++ [closing]

mutual

/-- A value at this nesting level. -/
def writeAt (level : Nat) : Json → List Char
  | null => "null".toList
  | bool value => (if value then "true" else "false").toList
  | integer value => (toString value).toList
  | decimal text => text.toList
  | string text => quote text
  | array items => bracketed '[' ']' level (writeItems (level + 1) items)
  | object members => bracketed '{' '}' level (writeMembers (level + 1) members)

/-- The items of an array. -/
def writeItems (level : Nat) : List Json → List (List Char)
  | [] => []
  | item :: rest => writeAt level item :: writeItems level rest

/-- The members of an object. -/
def writeMembers (level : Nat) : List (String × Json) → List (List Char)
  | [] => []
  | (name, value) :: rest =>
    (quote name ++ ':' :: ' ' :: writeAt level value) :: writeMembers level rest

end

/-- The text of a value. -/
def write (value : Json) : String :=
  String.ofList (writeAt 0 value)

end RepoScope.Json
