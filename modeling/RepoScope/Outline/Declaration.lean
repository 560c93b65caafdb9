import RepoScope.Pattern

/-!
# What a line declares

Tests on a single line, stripped of the blanks at its ends, by which outlines tell imports, containers such
as classes and modules, declarations, the lines that carry a header on, and annotations apart. The tests
look at the text of the line alone and know the keywords of many languages at once.
-/

namespace RepoScope.Outline

open Pattern Text

/-! ## Brace languages -/

/-- The visibility marker `pub`, with a restriction in parentheses if there is one. -/
def pubMarker : Pattern :=
  lit "pub" ++ optional (lit "(" ++ run (· ≠ ')') ++ lit ")")

/-- A statement that brings names in from elsewhere. -/
def importLine : Pattern :=
  atStart ++ anyOf [
    lit "import" ++ atWordEdge,
    lit "use" ++ one isBlank,
    pubMarker ++ blanks1 ++ lit "use" ++ one isBlank,
    lit "extern" ++ blanks1 ++ lit "crate" ++ atWordEdge,
    lit "package" ++ one isBlank,
    lit "using" ++ one isBlank,
    lit "#" ++ blanks ++ lit "include" ++ atWordEdge,
    lit "#" ++ blanks ++ lit "import" ++ atWordEdge,
    lit "require_once" ++ atWordEdge,
    lit "require" ++ blanks ++ lit "(",
    lit "export" ++ blanks ++ lit "*",
    lit "export" ++ blanks1 ++ optional (lit "type" ++ blanks1) ++ lit "\x7b" ++
      run (noneOf "\x7d") ++ lit "\x7d" ++ blanks ++ lit "from" ++ atWordEdge,
    anyWord ["const", "let", "var"] ++ one isBlank ++ run1 (noneOf "=") ++ lit "=" ++ blanks ++
      lit "require" ++ blanks ++ lit "("]

/-- The words that may stand before the keyword of a container. -/
def containerModifier : Pattern :=
  anyOf [anyWord ["export", "default", "declare"], pubMarker,
    anyWord ["public", "private", "protected", "internal", "static", "final", "abstract", "sealed",
      "partial", "open", "data", "inner", "unsafe", "enum"]]

/-- A header whose block holds members that an outline shows: a class, a module, an object type. -/
def containerHeader : Pattern :=
  anyOf [
    atStart ++ repeated (containerModifier ++ blanks1) ++
      anyWord ["class", "interface", "trait", "impl", "mod", "namespace", "module", "enum", "struct",
        "union", "record", "object", "extension", "protocol"] ++
      anyOf [one isBlank, lit "<", lit "\x7b", atStop],
    atStart ++ lit "type" ++ blanks1 ++ run1 isWordChar ++
      optional (lit "[" ++ run (noneOf "]") ++ lit "]") ++ blanks1 ++
      anyWord ["struct", "interface"] ++ atWordEdge,
    atStart ++ optional (lit "export" ++ blanks1) ++ lit "type" ++ blanks1 ++
      run1 (fun c => isWordChar c || c == '$') ++ optional (lit "<" ++ run (noneOf ">") ++ lit ">") ++
      blanks ++ lit "=" ++ blanks ++ lit "\x7b"]

/-- The words that may stand before the keyword of a declaration. -/
def declarationModifier : Pattern :=
  anyOf [anyWord ["default", "declare"], pubMarker,
    anyWord ["public", "private", "protected", "internal", "static", "final", "abstract", "async",
      "unsafe", "const"],
    lit "extern" ++ optional (blanks1 ++ lit "\x22" ++ run (noneOf "\x22") ++ lit "\x22"),
    anyWord ["inline", "override", "suspend", "open"]]

/-- A declaration that its keyword gives away. -/
def declarationHeader : Pattern :=
  atStart ++ anyOf [
    lit "export" ++ atWordEdge,
    repeated (declarationModifier ++ blanks1) ++
      anyOf [anyWord ["fn", "fun", "func"], lit "function" ++ optional (lit "*"),
        anyWord ["type", "interface", "enum", "namespace", "trait", "impl", "mod", "struct", "union",
          "macro_rules!", "static", "const", "let", "var"]] ++
      atWordEdge]

/-- Words and then a name with an opening parenthesis: a function declared by its type. -/
def typedFunction : Pattern :=
  atStart ++ repeated1 (run1 (fun c => isWordChar c || oneOf "*&:<>,~" c) ++ blanks1) ++
    run (oneOf "*&") ++ run1 (fun c => isWordChar c || oneOf ":~" c) ++ blanks ++ lit "("

/-- A line that can only go on with the header above it. -/
def headerContinuation : Pattern :=
  atStart ++ anyOf [
    lit "where" ++ atWordEdge,
    one (oneOf ":)]>\x7b"),
    lit "->",
    lit "=>",
    lit "extends" ++ atWordEdge,
    lit "implements" ++ atWordEdge,
    lit "throws" ++ atWordEdge,
    run1 (fun c => isWordChar c || c == '$') ++ optional (lit "?") ++ blanks ++ one (oneOf ":,"),
    one (oneOf "&|")]

/-- The declaration of a type by another type, which is shown in full. -/
def typeAlias : Pattern :=
  atStart ++ optional (lit "export" ++ blanks1) ++ optional (lit "declare" ++ blanks1) ++ lit "type" ++
    one isBlank

/-- The words that start a statement which looks like a function declared by its type. -/
def controlKeywords : List (List Char) :=
  ["return", "new", "else", "if", "for", "while", "switch", "case", "do", "try", "catch", "throw",
    "await", "yield", "delete", "typeof", "sizeof", "goto"].map String.toList

/-- Whether a line starts a declaration. -/
def isDeclaration (trimmed : List Char) : Bool :=
  declarationHeader.isIn trimmed || containerHeader.isIn trimmed ||
  (typedFunction.isIn trimmed &&
    !controlKeywords.contains (trimmed.takeWhile fun c => isAlphanumeric c || c == '_') &&
    !trimmed.contains '=')

/-- Whether a line is a comment or an annotation on the declaration below. `opens`: it opens a block. -/
def isAnnotation (trimmed : List Char) (opens : Bool) : Bool :=
  startsWith trimmed "//".toList || startsWith trimmed "/*".toList || startsWith trimmed "#[".toList ||
  startsWith trimmed "#!".toList || (startsWith trimmed "@".toList && !opens)

/-- Whether a header goes on below a line that leaves `parens` parentheses open. -/
def isIncomplete (trimmed : List Char) (parens : Int) : Bool :=
  parens > 0 ||
  ["(", ",", "=", "=>", "<", "|", "&", ":", "->"].any fun stop => endsWith trimmed stop.toList

/-- Whether a line ends where an initializer or the body of an arrow function starts. -/
def opensValue (trimmed : List Char) : Bool :=
  endsWith trimmed "=>".toList ||
  (endsWith trimmed "=".toList &&
    ["==", "!=", "<=", ">="].all fun stop => !endsWith trimmed stop.toList)

/-! ## Indented languages -/

/-- The start of a function. -/
def defHeader : Pattern :=
  atStart ++ optional (lit "async" ++ blanks1) ++ lit "def" ++ one isBlank

/-- The start of a class. -/
def isClassHeader (trimmed : List Char) : Bool :=
  startsWith trimmed "class ".toList || startsWith trimmed "class(".toList

/-- A statement that brings names in from elsewhere. -/
def moduleImport : Pattern :=
  atStart ++ anyWord ["import", "from"] ++ one isBlank

/-- A letter of the ASCII alphabet or an underscore. -/
def isPlainNameStart (c : Char) : Bool := c.isAlpha || c == '_'

/-- An annotation behind a name, up to the equals sign. -/
def typeAnnotation : Pattern :=
  optional (lit ":" ++ run1 (noneOf "="))

/-- A field of a class: a name with a value or a type. -/
def memberField : Pattern :=
  anyOf [
    atStart ++ one isPlainNameStart ++ run isWordChar ++ blanks ++ typeAnnotation ++ lit "=",
    atStart ++ one isPlainNameStart ++ run isWordChar ++ blanks ++ lit ":" ++ blanks ++
      one (fun c => !isBlank c)]

/-- A constant of a module: a name in capitals with a value, or the list of exported names. -/
def moduleConstant : Pattern :=
  atStart ++
    anyOf [one (fun c => c.isUpper || c == '_') ++ run (fun c => c.isUpper || c.isDigit || c == '_'),
      lit "__all__"] ++
    blanks ++ typeAnnotation ++ lit "="

/-- One step of `headerColon?`. -/
structure ColonSearch where
  depth : Int
  quote : Option Char
  escaped : Bool

/--
The column of the colon that ends a header, not counting colons inside brackets or strings; none if a
comment comes first.
-/
def headerColonFrom (column : Nat) (s : ColonSearch) : List Char → Option Nat
  | [] => none
  | c :: rest =>
    match s.quote with
    | some quote =>
      let s :=
        if s.escaped then { s with escaped := false }
        else if c = '\\' then { s with escaped := true }
        else if c = quote then { s with quote := none }
        else s
      headerColonFrom (column + 1) s rest
    | none =>
      if c = '\x27' ∨ c = '\x22' then headerColonFrom (column + 1) { s with quote := some c } rest
      else if c = '(' ∨ c = '[' ∨ c = '{' then
        headerColonFrom (column + 1) { s with depth := s.depth + 1 } rest
      else if c = ')' ∨ c = ']' ∨ c = '}' then
        headerColonFrom (column + 1) { s with depth := s.depth - 1 } rest
      else if c = ':' ∧ s.depth = 0 then some column
      else if c = '#' then none
      else headerColonFrom (column + 1) s rest

/-- The column of the colon that ends a header. -/
def headerColon? (trimmed : List Char) : Option Nat :=
  headerColonFrom 0 ⟨0, none, false⟩ trimmed

end RepoScope.Outline
