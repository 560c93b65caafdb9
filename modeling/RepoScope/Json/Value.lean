/-!
# JSON values

The values that JSON texts stand for. A number is an integer if it is written without a point and exponent
and fits into sixty-four bits. The members of an object are kept in the order of the text; of members with
one name the last one counts.
-/

namespace RepoScope

inductive Json where
  | null
  | bool (value : Bool)
  | integer (value : Int)
  | decimal (text : String)
  | string (text : String)
  | array (items : List Json)
  | object (members : List (String × Json))

namespace Json

/-- The member of an object with this name. -/
def get? (name : String) : Json → Option Json
  | object members => (members.reverse.find? (·.1 == name)).map (·.2)
  | _ => none

/-- The members of an object, none for other values. -/
def members : Json → List (String × Json)
  | object members => members
  | _ => []

/-- The text of a string. -/
def text? : Json → Option String
  | string text => some text
  | _ => none

end Json

end RepoScope
