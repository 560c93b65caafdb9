import RepoScope.Text.Lines

/-!
# XML

Elements and how they are written: two spaces of indentation for each level, an element with a text on one
line. Texts and the values of attributes have their five special characters escaped; a text may also be
written as it is between marks, cut where the closing mark would stand in it.
-/

namespace RepoScope.Render.Xml

/-- An attribute with its value. -/
abbrev Attribute := String × String

/-- An element. -/
inductive Element where
  /-- An element without content. -/
  | empty (name : String) (attributes : List Attribute)
  /-- An element with an escaped text. -/
  | text (name : String) (content : String)
  /-- An element with a text between marks. -/
  | verbatim (name : String) (content : String)
  /-- An element with elements in it. -/
  | node (name : String) (attributes : List Attribute) (children : List Element)

/-- What is written for a character of a text or value. -/
def escapeChar (c : Char) : List Char :=
  match c with
  | '<' => "&lt;".toList
  | '>' => "&gt;".toList
  | '&' => "&amp;".toList
  | '\x27' => "&apos;".toList
  | '\x22' => "&quot;".toList
  | _ => [c]

/-- A text or value with its special characters escaped. -/
def escape (text : String) : List Char :=
  text.toList.flatMap escapeChar

/-- What is written between the two brackets and the greater-than sign of a closing mark in a text. -/
def verbatimCut : List Char := "]]><![CDATA[".toList

/--
The characters of a text between marks behind those in `done`, newest first. `brackets` is the number of
closing brackets that directly precede.
-/
def verbatimFrom (brackets : Nat) (done : List Char) : List Char → List Char
  | [] => done.reverse
  | c :: rest =>
    if c = ']' then verbatimFrom (brackets + 1) (c :: done) rest
    else if c = '>' ∧ 2 ≤ brackets then verbatimFrom 0 (c :: verbatimCut.reverse ++ done) rest
    else verbatimFrom 0 (c :: done) rest

/-- A text between marks. -/
def verbatim (text : String) : List Char :=
  "<![CDATA[".toList ++ verbatimFrom 0 [] text.toList ++ "]]>".toList

/-- The attributes of a tag. -/
def attributes (attrs : List Attribute) : List Char :=
  attrs.flatMap fun (name, value) =>
    ' ' :: name.toList ++ '=' :: '\x22' :: escape value ++ ['\x22']

/-- The start of an element. -/
def startTag (name : String) (attrs : List Attribute) : List Char :=
  '<' :: name.toList ++ attributes attrs ++ ['>']

/-- The end of an element. -/
def stopTag (name : String) : List Char :=
  '<' :: '/' :: name.toList ++ ['>']

/-- The start of a line at this level. -/
def newLine (level : Nat) : List Char :=
  '\n' :: List.replicate (2 * level) ' '

mutual

/-- An element on lines of its own at this level. -/
def write (level : Nat) : Element → List Char
  | .empty name attrs => newLine level ++ '<' :: name.toList ++ attributes attrs ++ ['/', '>']
  | .text name content => newLine level ++ startTag name [] ++ escape content ++ stopTag name
  | .verbatim name content => newLine level ++ startTag name [] ++ verbatim content ++ stopTag name
  | .node name attrs children =>
    newLine level ++ startTag name attrs ++ writeAll (level + 1) children ++ newLine level ++ stopTag name

/-- Elements one behind the other at this level. -/
def writeAll (level : Nat) : List Element → List Char
  | [] => []
  | e :: rest => write level e ++ writeAll level rest

end

/-- A document with this element. -/
def document (root : Element) : String :=
  "<?xml version=\x221.0\x22 encoding=\x22UTF-8\x22?>" ++ String.ofList (write 0 root)

end RepoScope.Render.Xml
