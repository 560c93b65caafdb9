import RepoScope.Proofs.Names
import RepoScope.Proofs.Xml.Pieces

/-!
# Putting pieces together

The reader takes tags apart (`Tag.of?`), replaces references and puts the pieces of a document together as
items: elements with attributes, texts and sections (`items?`). A tag that closes another element than the
innermost open one is refused.

Reading undoes writing: the document of an element is read as that element, with the sections of its texts and
with the white space between its elements (`items?_document`).
-/

namespace RepoScope.Render.Xml

/-! ## References

A reference is replaced by the character it stands for; other characters stay. Since an escaped text has no
ampersand but those of references, nothing else is mistaken for one.
-/

/-- A text with its references replaced. -/
def unescape : List Char → List Char
  | '&' :: 'l' :: 't' :: ';' :: rest => '<' :: unescape rest
  | '&' :: 'g' :: 't' :: ';' :: rest => '>' :: unescape rest
  | '&' :: 'a' :: 'm' :: 'p' :: ';' :: rest => '&' :: unescape rest
  | '&' :: 'a' :: 'p' :: 'o' :: 's' :: ';' :: rest => '\x27' :: unescape rest
  | '&' :: 'q' :: 'u' :: 'o' :: 't' :: ';' :: rest => '\x22' :: unescape rest
  | c :: rest => c :: unescape rest
  | [] => []

theorem unescape_cons {c : Char} (hc : c ≠ '&') (rest : List Char) :
    unescape (c :: rest) = c :: unescape rest := by
  rw [unescape]
  all_goals simp [hc]

/-- What is written for a character is read as this character. -/
theorem unescape_escapeChar (c : Char) (rest : List Char) :
    unescape (escapeChar c ++ rest) = c :: unescape rest := by
  unfold escapeChar
  split
  case h_6 _ _ hamp _ _ => exact unescape_cons hamp rest
  all_goals rfl

/-- Unescaping undoes escaping. -/
theorem unescape_escape (text : String) : unescape (escape text) = text.toList := by
  rw [escape]
  induction text.toList with
  | nil => rfl
  | cons c rest ih => rw [List.flatMap_cons, unescape_escapeChar, ih]

/-- Without an ampersand, a text stays. -/
theorem unescape_of_notMem {cs : List Char} (h : '&' ∉ cs) : unescape cs = cs := by
  induction cs with
  | nil => rfl
  | cons c rest ih =>
    have hc : c ≠ '&' := fun heq => h (heq ▸ List.mem_cons_self)
    rw [unescape_cons hc, ih fun hmem => h (List.mem_cons_of_mem c hmem)]

/-! ## Tags

What stands in a tag is cut at its quotation marks, so that names and values take turns. No value has a quotation
mark in it, as it is escaped, and so the cut gives back the attributes the tag was written with.
-/

/-- A tag. -/
inductive Tag where
  | instruction
  | opening (name : String) (attrs : List Attribute)
  | closing (name : String)
  /-- An element without content. -/
  | alone (name : String) (attrs : List Attribute)

/-- The attributes in the parts of a tag between quotation marks: names and values take turns. -/
def attributesOf? : List (List Char) → Option (List Attribute)
  | [[]] => some []
  | (' ' :: name) :: value :: rest =>
    if name.getLast? = some '=' then
      ((String.ofList name.dropLast, String.ofList (unescape value)) :: ·) <$> attributesOf? rest
    else none
  | _ => none

/-- The name and the attributes in a tag. -/
def start? (inside : List Char) : Option (String × List Attribute) :=
  (String.ofList (inside.takeWhile (· != ' ')), ·) <$>
    attributesOf? (Text.pieces '\x22' (inside.dropWhile (· != ' ')))

/-- Takes a tag apart. -/
def Tag.of? : List Char → Option Tag
  | '?' :: _ => some .instruction
  | '/' :: name => some (.closing (String.ofList name))
  | inside =>
    if inside.getLast? = some '/' then
      (fun (name, attrs) => .alone name attrs) <$> start? inside.dropLast
    else (fun (name, attrs) => .opening name attrs) <$> start? inside

/-- Attributes are read as they were written. -/
theorem attributesOf?_attributes {attrs : List Attribute} (h : AreNamed attrs) :
    attributesOf? (Text.pieces '\x22' (attributes attrs)) = some attrs := by
  have hnames := h.names
  clear h
  induction attrs with
  | nil => rfl
  | cons attr rest ih =>
    obtain ⟨name, value⟩ := attr
    have hname : '\x22' ∉ name.toList :=
      notMem_of_isName (hnames (name, value) List.mem_cons_self) (by decide)
    have hhead : ∀ c ∈ ' ' :: name.toList ++ ['='], (c == '\x22') = false := by
      intro c hc
      rw [beq_eq_false_iff_ne]
      rintro rfl
      simp [hname] at hc
    have hvalue : ∀ c ∈ escape value, (c == '\x22') = false := by
      intro c hc
      rw [beq_eq_false_iff_ne]
      rintro rfl
      exact notMem_escape (by simp) value hc
    have hrest := ih fun attr hattr => hnames attr (List.mem_cons_of_mem _ hattr)
    rw [attributes_cons, Text.pieces, Text.piecesBy_append_sep hhead (by decide),
      Text.piecesBy_append_sep hvalue (by decide), ← Text.pieces]
    simp [attributesOf?, hrest, unescape_escape]

/-- The name and the attributes of a tag are read as they were written. -/
theorem start?_inside {name : String} {attrs : List Attribute} (hname : isName name.toList = true)
    (hattrs : AreNamed attrs) : start? (inside name attrs) = some (name, attrs) := by
  have hblank : ∀ c ∈ name.toList, (c != ' ') = true := by
    intro c hc
    rw [bne_iff_ne]
    rintro rfl
    exact notMem_of_isName hname (by decide) hc
  have hcut : (attributes attrs).takeWhile (· != ' ') = [] ∧
      (attributes attrs).dropWhile (· != ' ') = attributes attrs := by
    cases attrs <;> simp [attributes]
  rw [start?, inside, List.takeWhile_append_of_pos hblank, List.dropWhile_append_of_pos hblank,
    hcut.1, hcut.2, attributesOf?_attributes hattrs]
  simp

/-- A tag that starts an element begins with none of the marks of other tags. -/
theorem exists_inside_eq_cons {name : String} (hname : isName name.toList = true)
    (attrs : List Attribute) : ∃ c rest, inside name attrs = c :: rest ∧ c ≠ '?' ∧ c ≠ '/' := by
  have hmarks : '?' ∉ name.toList ∧ '/' ∉ name.toList :=
    ⟨notMem_of_isName hname (by decide), notMem_of_isName hname (by decide)⟩
  rw [inside]
  cases hlist : name.toList with
  | nil =>
    rw [hlist] at hname
    cases hname
  | cons c rest =>
    rw [hlist] at hmarks
    exact ⟨c, rest ++ attributes attrs, rfl, fun hc => hmarks.1 (hc ▸ List.mem_cons_self),
      fun hc => hmarks.2 (hc ▸ List.mem_cons_self)⟩

/-- A tag that starts an element has no slash at its end, by which one that also closes it is told. -/
theorem getLast?_inside_ne {name : String} (hname : isName name.toList = true)
    (attrs : List Attribute) : (inside name attrs).getLast? ≠ some '/' := by
  rw [inside]
  rcases List.eq_nil_or_concat attrs with rfl | ⟨init, ⟨key, value⟩, rfl⟩
  · intro hlast
    have hmem : '/' ∈ name.toList := by simpa [attributes] using List.mem_of_getLast? hlast
    exact notMem_of_isName hname (by decide) hmem
  · have hquoted : name.toList ++ attributes (init.concat (key, value))
        = name.toList ++ attributes init ++ ' ' :: key.toList ++ '=' :: '\x22' :: escape value ++
          ['\x22'] := by simp [attributes]
    rw [hquoted, List.getLast?_concat]
    decide

/-- What is written to start an element is read as that. -/
theorem Tag.of?_opening {name : String} {attrs : List Attribute} (hname : isName name.toList = true)
    (hattrs : AreNamed attrs) : Tag.of? (inside name attrs) = some (.opening name attrs) := by
  obtain ⟨c, rest, hcons, hquestion, hslash⟩ := exists_inside_eq_cons hname attrs
  have hstart := start?_inside hname hattrs
  have hlast := getLast?_inside_ne hname attrs
  rw [hcons] at hstart hlast ⊢
  rw [Tag.of?, if_neg hlast, hstart]
  · rfl
  · simp [hquestion]
  · simp [hslash]

/-- What is written for an element without content is read as that. -/
theorem Tag.of?_alone {name : String} {attrs : List Attribute} (hname : isName name.toList = true)
    (hattrs : AreNamed attrs) :
    Tag.of? (inside name attrs ++ ['/']) = some (.alone name attrs) := by
  obtain ⟨c, rest, hcons, hquestion, hslash⟩ := exists_inside_eq_cons hname attrs
  have hstart := start?_inside hname hattrs
  have hlast : (inside name attrs ++ ['/']).getLast? = some '/' := by simp
  have hinit : (inside name attrs ++ ['/']).dropLast = inside name attrs := by simp
  rw [hcons, List.cons_append] at hlast hinit ⊢
  rw [hcons] at hstart
  rw [Tag.of?, if_pos hlast, hinit, hstart]
  · rfl
  · simp [hquestion]
  · simp [hslash]

/-- What is written to close an element is read as that. -/
theorem Tag.of?_closing (name : String) : Tag.of? ('/' :: name.toList) = some (.closing name) := by
  simp [Tag.of?]

/-! ## Items

A reader keeps the elements that are open, the innermost first, with what it has put into each. A closing tag takes
the innermost one off, and fails if its name is another one.
-/

/-- What a document consists of. -/
inductive Item where
  | text (content : List Char)
  | verbatim (content : List Char)
  | element (name : String) (attrs : List Attribute) (content : List Item)

/-- An element that is still open. -/
structure Frame where
  name : String
  attrs : List Attribute
  /-- The items in front of it, newest first. -/
  before : List Item

/-- What a reader has put together. -/
structure Assembly where
  /-- The open elements, innermost first. -/
  frames : List Frame
  /-- The items in the innermost one, newest first. -/
  done : List Item

namespace Assembly

/-- Adds an item to the innermost element. -/
def add (a : Assembly) (item : Item) : Assembly := { a with done := item :: a.done }

/-- Closes the innermost element, which must have this name. -/
def close? (a : Assembly) (name : String) : Option Assembly :=
  match a.frames with
  | [] => none
  | frame :: frames =>
    if name = frame.name then
      some ⟨frames, .element name frame.attrs a.done.reverse :: frame.before⟩
    else none

/-- Takes the next piece. -/
def take? (a : Assembly) : Piece → Option Assembly
  | .text content => some (a.add (.text (unescape content)))
  | .verbatim content => some (a.add (.verbatim content))
  | .tag inside =>
    match Tag.of? inside with
    | none => none
    | some .instruction => some a
    | some (.alone name attrs) => some (a.add (.element name attrs []))
    | some (.opening name attrs) => some ⟨⟨name, attrs, a.done⟩ :: a.frames, []⟩
    | some (.closing name) => a.close? name

end Assembly

/-- The items of a document. -/
def items? (document : List Char) : Option (List Item) := do
  let pieces ← pieces? document
  let a ← pieces.foldlM Assembly.take? ⟨[], []⟩
  if a.frames.isEmpty then some a.done.reverse else none

/-! ### What pieces are put together as -/

/-- Whether pieces are put together as these items wherever they come. -/
def Builds (ps : List Piece) (items : List Item) : Prop :=
  ∀ a : Assembly, ps.foldlM Assembly.take? a = some { a with done := items.reverse ++ a.done }

/-- Pieces are put together one after the other. -/
theorem Builds.append {ps qs : List Piece} {items others : List Item} (hps : Builds ps items)
    (hqs : Builds qs others) : Builds (ps ++ qs) (items ++ others) := by
  intro a
  rw [List.foldlM_append, hps, Option.bind_eq_bind, Option.bind_some, hqs]
  simp

theorem builds_nil : Builds [] [] := fun _ => rfl

/-- A text is put together with its references replaced. -/
theorem builds_text {content unescaped : List Char} (h : unescape content = unescaped) :
    Builds [.text content] [.text unescaped] := by
  intro a
  rw [← h]
  rfl

theorem builds_verbatim (content : List Char) : Builds [.verbatim content] [.verbatim content] :=
  fun _ => rfl

/-- An element without content is put together from its tag. -/
theorem builds_alone {name : String} {attrs : List Attribute} (hname : isName name.toList = true)
    (hattrs : AreNamed attrs) :
    Builds [.tag (inside name attrs ++ ['/'])] [.element name attrs []] := by
  intro a
  simp [Assembly.take?, Tag.of?_alone hname hattrs, Assembly.add]

/-- An element is put together from what stands between its tags. -/
theorem builds_element {name : String} {attrs : List Attribute} {ps : List Piece} {items : List Item}
    (hname : isName name.toList = true) (hattrs : AreNamed attrs) (h : Builds ps items) :
    Builds ([.tag (inside name attrs)] ++ ps ++ [.tag ('/' :: name.toList)])
      [.element name attrs items] := by
  intro a
  simp [Assembly.take?, Tag.of?_opening hname hattrs, h _, Tag.of?_closing, Assembly.close?]

/-- Lists of pieces are put together one after the other. -/
theorem builds_flatMap {α : Type} {values : List α} {f : α → List Piece} {g : α → List Item}
    (h : ∀ a ∈ values, Builds (f a) (g a)) : Builds (values.flatMap f) (values.flatMap g) := by
  induction values with
  | nil => exact builds_nil
  | cons a rest ih =>
    rw [List.flatMap_cons, List.flatMap_cons]
    exact (h a List.mem_cons_self).append (ih fun b hb => h b (List.mem_cons_of_mem _ hb))

/-! ## The items of elements

By induction over an element, the pieces of what is written for it are put together as the element itself. All that
the items add to it is the white space between children.
-/

namespace Element

/-- The name of an element. -/
def name : Element → String
  | .empty name _ | .text name _ | .verbatim name _ | .node name _ _ => name

/-- The attributes of an element. -/
def attrs : Element → List Attribute
  | .empty _ attrs | .node _ attrs _ => attrs
  | .text _ _ | .verbatim _ _ => []

end Element

mutual

/-- The items in an element. -/
def Element.content (level : Nat) : Element → List Item
  | .empty _ _ => []
  | .text _ content => [.text content.toList]
  | .verbatim _ content =>
    (sections content.toList).flatMap (fun content => [.text [], .verbatim content]) ++ [.text []]
  | .node _ _ children => itemsAll (level + 1) children ++ [.text (newLine level)]

/-- The items of elements, each with the white space in front of it. -/
def itemsAll (level : Nat) : List Element → List Item
  | [] => []
  | e :: rest =>
    [.text (newLine level), .element e.name e.attrs (e.content level)] ++ itemsAll level rest

end

theorem itemsAll_eq_flatMap (level : Nat) (elements : List Element) :
    itemsAll level elements = elements.flatMap fun e =>
      [.text (newLine level), .element e.name e.attrs (e.content level)] := by
  induction elements with
  | nil => rfl
  | cons e rest ih => rw [itemsAll, ih, List.flatMap_cons]

/-- The pieces of elements are put together as these, if this holds of each. -/
theorem builds_piecesAll {children : List Element} {level : Nat}
    (h : ∀ child ∈ children, Builds (pieces level child)
      [.text (newLine level), .element child.name child.attrs (child.content level)]) :
    Builds (piecesAll level children) (itemsAll level children) := by
  rw [piecesAll_eq_flatMap, itemsAll_eq_flatMap]
  exact builds_flatMap h

/-- The pieces of an element are put together as it. -/
theorem builds_pieces {e : Element} (h : e.IsNamed) (level : Nat) :
    Builds (pieces level e) [.text (newLine level), .element e.name e.attrs (e.content level)] := by
  have hline (level : Nat) : Builds [.text (newLine level)] [.text (newLine level)] :=
    builds_text (unescape_of_notMem (notMem_newLine (by decide) level))
  induction h generalizing level with
  | @empty name attrs hname hattrs => exact (hline level).append (builds_alone hname hattrs)
  | @text name hname content =>
    have htext := builds_text (unescape_escape content)
    exact (hline level).append (builds_element hname areNamed_nil htext)
  | @verbatim name hname content =>
    have hempty : Builds [.text []] [.text []] := builds_text rfl
    have hsections := builds_flatMap fun part (_ : part ∈ sections content.toList) =>
      hempty.append (builds_verbatim part)
    have helement := builds_element hname areNamed_nil (hsections.append hempty)
    simpa [pieces, Element.content, Element.name, Element.attrs] using (hline level).append helement
  | @node name attrs children hname hattrs _ ih =>
    have hchildren := builds_piecesAll fun child hchild => ih child hchild (level + 1)
    have helement := builds_element hname hattrs (hchildren.append (hline level))
    simpa [pieces, Element.content, Element.name, Element.attrs] using (hline level).append helement

/-- The document of an element is read as that element. -/
theorem items?_document {root : Element} (h : root.IsNamed) :
    items? (document root).toList
      = some [.text [], .text (newLine 0), .element root.name root.attrs (root.content 0), .text []] := by
  have hdeclaration : Builds [.text [], .tag declarationInside] [.text []] := fun _ => rfl
  have hempty : Builds [.text []] [.text []] := fun _ => rfl
  have hbuilds := ((hdeclaration.append (builds_pieces h 0)).append hempty) ⟨[], []⟩
  rw [items?, pieces?_document h, Option.bind_eq_bind, Option.bind_some, hbuilds]
  simp

end RepoScope.Render.Xml
