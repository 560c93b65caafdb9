import RepoScope.Proofs.Xml.Escapes

/-!
# Well-formed documents

The productions of XML 1.0 for documents without a document type, comments and processing instructions
(`IsElement`, `IsContent`), on characters of any kind, and the characters that XML 1.0 admits (`isChar`). A
document is well formed if it follows the productions and has no other characters (`IsWellFormed`).

Whatever texts an element holds, what is written for it follows the productions as long as its names are names
(`isDocument_document`), since a special character only stands in a reference and a closing mark only where a
section ends. Characters are not replaced, so a document is well formed exactly if the texts in it have no
others than those of XML (`isWellFormed_document_iff`).
-/

namespace RepoScope.Render.Xml

/-! ## Productions

The productions take lists of characters and know nothing of the writer. An element has a start tag and an end tag
of the same name, or one tag for both; its content are texts, with an element or a section between any two of them.
In a text, the special characters stand in references only, and no closing mark of a section does.
-/

/-- Whether a name may begin with a character; of other characters than those of ASCII, nothing is said. -/
def isNameStart (c : Char) : Bool := c.isAlpha || c == '_' || c == ':'

/-- Whether a name may go on with a character. -/
def isNameChar (c : Char) : Bool := isNameStart c || c.isDigit || c == '-' || c == '.'

/-- Whether characters are a name. -/
def isName : List Char → Bool
  | [] => false
  | c :: rest => isNameStart c && rest.all isNameChar

/-- Whether a character is white space. -/
def isSpace (c : Char) : Bool := c == ' ' || c == '\t' || c == '\r' || c == '\n'

/-- Characters other than these, and references. -/
inductive IsData (banned : List Char) : List Char → Prop where
  | nil : IsData banned []
  | char {c : Char} {rest : List Char} (hc : c ∉ banned) (hamp : c ≠ '&')
      (hrest : IsData banned rest) : IsData banned (c :: rest)
  | reference {name rest : List Char} (hname : name ∈ references) (hrest : IsData banned rest) :
      IsData banned (name ++ rest)

/-- What may stand between two tags or sections. -/
structure IsText (text : List Char) : Prop where
  data : IsData ['<'] text
  free : IsFree text

/-- The attributes of a tag, each with a name of its own. -/
inductive IsAttributes : List String → List Char → Prop where
  | nil : IsAttributes [] []
  | cons {name : String} {names : List String} {blanks value rest : List Char}
      (hblanks : blanks ≠ [] ∧ blanks.all isSpace = true) (hname : isName name.toList = true)
      (hnew : name ∉ names) (hvalue : IsData ['<', '\x22'] value) (hrest : IsAttributes names rest) :
      IsAttributes (name :: names)
        (blanks ++ name.toList ++ '=' :: '\x22' :: value ++ '\x22' :: rest)

mutual

/-- An element, closed by its own name. -/
inductive IsElement : List Char → Prop where
  | empty {name attrs : List Char} {names : List String} (hname : isName name = true)
      (hattrs : IsAttributes names attrs) : IsElement ('<' :: name ++ attrs ++ ['/', '>'])
  | node {name attrs content : List Char} {names : List String} (hname : isName name = true)
      (hattrs : IsAttributes names attrs) (hcontent : IsContent content) :
      IsElement ('<' :: name ++ attrs ++ '>' :: content ++ '<' :: '/' :: name ++ ['>'])

/-- Texts, with an element or a section between any two. -/
inductive IsContent : List Char → Prop where
  | text {text : List Char} (htext : IsText text) : IsContent text
  | element {text element rest : List Char} (htext : IsText text) (helement : IsElement element)
      (hrest : IsContent rest) : IsContent (text ++ element ++ rest)
  | verbatim {text content rest : List Char} (htext : IsText text) (hfree : IsFree content)
      (hrest : IsContent rest) : IsContent (text ++ marked content ++ rest)

end

/-- What a document begins with. -/
def declaration : List Char := "<?xml version=\x221.0\x22 encoding=\x22UTF-8\x22?>".toList

/-- The declaration and one element, with nothing but white space between them. -/
def IsDocument (document : List Char) : Prop :=
  ∃ blanks root, document = declaration ++ blanks ++ root ∧ blanks.all isSpace = true ∧ IsElement root

/-- Whether XML 1.0 admits a character. -/
def isChar (c : Char) : Bool :=
  let n := c.toNat
  n == 0x9 || n == 0xA || n == 0xD || (0x20 ≤ n && n ≤ 0xD7FF) || (0xE000 ≤ n && n ≤ 0xFFFD) ||
    (0x10000 ≤ n && n ≤ 0x10FFFF)

/-- A document that follows the productions and has no characters but those of XML. -/
structure IsWellFormed (document : List Char) : Prop where
  productions : IsDocument document
  characters : ∀ c ∈ document, isChar c = true

/-- Elements are written one behind the other. -/
theorem writeAll_eq_flatMap (level : Nat) (elements : List Element) :
    writeAll level elements = elements.flatMap (write level) := by
  induction elements with
  | nil => rfl
  | cons e rest ih => rw [writeAll, ih, List.flatMap_cons]

/-! ## What is written for texts

A text is written character by character, and each character is either no special one or becomes a reference. So no
escaped text has an opening bracket in it, nor a greater-than sign, without which there is no closing mark either.
-/

theorem IsData.of_reference {banned name : List Char} (h : name ∈ references) :
    IsData banned name := by
  simpa using IsData.reference h .nil

/-- Data can be put together. -/
theorem IsData.append {banned s t : List Char} (hs : IsData banned s) (ht : IsData banned t) :
    IsData banned (s ++ t) := by
  induction hs with
  | nil => exact ht
  | char hc hamp _ ih => exact .char hc hamp ih
  | reference hname _ ih =>
    rw [List.append_assoc]
    exact .reference hname ih

/-- What is written for a text has its special characters in references only. -/
theorem isData_escape {banned : List Char}
    (h : ∀ c ∈ banned, c = '<' ∨ c = '>' ∨ c = '\x27' ∨ c = '\x22') (text : String) :
    IsData banned (escape text) := by
  rw [escape]
  induction text.toList with
  | nil => exact .nil
  | cons c rest ih =>
    rw [List.flatMap_cons]
    refine IsData.append ?_ ih
    rcases escapeChar_cases c with href | ⟨hself, hlt, hgt, hamp, hapos, hquot⟩
    · exact .of_reference href
    · rw [hself]
      refine .char (fun hc => ?_) hamp .nil
      rcases h c hc with h | h | h | h <;> contradiction

/-- Without a greater-than sign there is no closing mark. -/
theorem IsFree.of_notMem {text : List Char} (h : '>' ∉ text) : IsFree text :=
  fun hmark => h (hmark.subset (by decide))

/-- What is written for a text may stand between two tags. -/
theorem isText_escape (text : String) : IsText (escape text) where
  data := isData_escape (by simp) text
  free := .of_notMem (notMem_escape (by simp) text)

theorem isText_nil : IsText [] := ⟨.nil, isFree_nil⟩

/-- White space may stand between two tags. -/
theorem isText_of_isSpace {text : List Char} (h : text.all isSpace = true) : IsText text := by
  have hspace : ∀ c ∈ text, isSpace c = true := List.all_eq_true.mp h
  refine ⟨?_, .of_notMem fun hgt => absurd (hspace '>' hgt) (by decide)⟩
  clear h
  induction text with
  | nil => exact .nil
  | cons c rest ih =>
    have hc : isSpace c = true := hspace c List.mem_cons_self
    refine .char ?_ ?_ (ih fun d hd => hspace d (List.mem_cons_of_mem _ hd))
    · rw [List.mem_singleton]
      rintro rfl
      exact absurd hc (by decide)
    · rintro rfl
      exact absurd hc (by decide)

theorem isSpace_newLine (level : Nat) : (newLine level).all isSpace = true := by
  simp [newLine, isSpace]

/-! ## Elements with names

The writer copies the names of elements and attributes as they are, so it depends on these whether the productions
are followed (`Element.IsNamed`). Content of any kind makes no difference. The induction is over the element; for
children it carries along whatever text follows the last of them.
-/

/-- Whether attributes have names, and different ones. -/
structure AreNamed (attrs : List Attribute) : Prop where
  names : ∀ attr ∈ attrs, isName attr.1.toList = true
  distinct : (attrs.map (·.1)).Nodup

/-- Whether the names in an element are names. -/
inductive Element.IsNamed : Element → Prop where
  | empty {name : String} {attrs : List Attribute} (hname : isName name.toList = true)
      (hattrs : AreNamed attrs) : IsNamed (.empty name attrs)
  | text {name : String} (hname : isName name.toList = true) (content : String) :
      IsNamed (.text name content)
  | verbatim {name : String} (hname : isName name.toList = true) (content : String) :
      IsNamed (.verbatim name content)
  | node {name : String} {attrs : List Attribute} {children : List Element}
      (hname : isName name.toList = true) (hattrs : AreNamed attrs)
      (hchildren : ∀ child ∈ children, child.IsNamed) : IsNamed (.node name attrs children)

theorem areNamed_nil : AreNamed [] := ⟨by simp, List.nodup_nil⟩

/-- Attributes are written one behind the other, with values between quotation marks. -/
theorem attributes_cons (name value : String) (rest : List Attribute) :
    attributes ((name, value) :: rest)
      = (' ' :: name.toList ++ ['=']) ++ '\x22' :: (escape value ++ '\x22' :: attributes rest) := by
  simp [attributes]

/-- What is written for attributes with names are attributes. -/
theorem isAttributes_attributes {attrs : List Attribute} (h : AreNamed attrs) :
    IsAttributes (attrs.map (·.1)) (attributes attrs) := by
  obtain ⟨hnames, hdistinct⟩ := h
  induction attrs with
  | nil => exact .nil
  | cons attr rest ih =>
    obtain ⟨name, value⟩ := attr
    rw [List.map_cons, List.nodup_cons] at hdistinct
    have hrest := ih (fun attr hattr => hnames attr (List.mem_cons_of_mem _ hattr)) hdistinct.2
    have hblank : [' '] ≠ [] ∧ [' '].all isSpace = true := by decide
    have hcons := IsAttributes.cons hblank (hnames (name, value) List.mem_cons_self) hdistinct.1
      (isData_escape (by simp) value) hrest
    rw [attributes_cons]
    simpa using hcons

/-- Sections one behind the other are content. -/
theorem isContent_verbatim (text : String) : IsContent (verbatim text) := by
  rw [verbatim_eq]
  have hfree : ∀ content ∈ sections text.toList, IsFree content := fun content hcontent =>
    isFree_of_mem_sections hcontent
  generalize sections text.toList = contents at hfree
  induction contents with
  | nil => exact .text isText_nil
  | cons content rest ih =>
    have hrest := ih fun content hcontent => hfree content (List.mem_cons_of_mem _ hcontent)
    exact .verbatim isText_nil (hfree content List.mem_cons_self) hrest

/-- Elements on lines of their own are content, whatever text follows them. -/
theorem isContent_writeAll {children : List Element} {level : Nat} {tail : List Char}
    (h : ∀ child ∈ children, ∃ body, write level child = newLine level ++ body ∧ IsElement body)
    (htail : IsText tail) : IsContent (writeAll level children ++ tail) := by
  induction children with
  | nil => exact .text htail
  | cons child rest ih =>
    obtain ⟨body, hbody, helement⟩ := h child List.mem_cons_self
    have hrest := ih fun child hchild => h child (List.mem_cons_of_mem _ hchild)
    rw [writeAll, hbody, List.append_assoc]
    exact .element (isText_of_isSpace (isSpace_newLine level)) helement hrest

/-- What is written for an element is one, on a line of its own. -/
theorem isElement_write {e : Element} (h : e.IsNamed) (level : Nat) :
    ∃ body, write level e = newLine level ++ body ∧ IsElement body := by
  induction h generalizing level with
  | @empty name attrs hname hattrs =>
    refine ⟨'<' :: name.toList ++ attributes attrs ++ ['/', '>'], by simp [write], ?_⟩
    exact .empty hname (isAttributes_attributes hattrs)
  | @text name hname content =>
    refine ⟨startTag name [] ++ escape content ++ stopTag name, by simp [write], ?_⟩
    simpa [startTag, stopTag, attributes] using
      IsElement.node hname .nil (.text (isText_escape content))
  | @verbatim name hname content =>
    refine ⟨startTag name [] ++ verbatim content ++ stopTag name, by simp [write], ?_⟩
    simpa [startTag, stopTag, attributes] using
      IsElement.node hname .nil (isContent_verbatim content)
  | @node name attrs children hname hattrs _ ih =>
    have hcontent : IsContent (writeAll (level + 1) children ++ newLine level) :=
      isContent_writeAll (fun child hchild => ih child hchild (level + 1))
        (isText_of_isSpace (isSpace_newLine level))
    refine ⟨startTag name attrs ++ (writeAll (level + 1) children ++ newLine level) ++ stopTag name,
      by simp [write], ?_⟩
    simpa [startTag, stopTag] using
      IsElement.node hname (isAttributes_attributes hattrs) hcontent

/-- A document is the declaration and the element of its root. -/
theorem toList_document (root : Element) :
    (document root).toList = declaration ++ write 0 root :=
  String.toList_append.trans (congrArg (declaration ++ ·) String.toList_ofList)

/-- A document follows the productions, whatever texts stand in it. -/
theorem isDocument_document {root : Element} (h : root.IsNamed) :
    IsDocument (document root).toList := by
  obtain ⟨body, hbody, helement⟩ := isElement_write h 0
  refine ⟨newLine 0, body, ?_, isSpace_newLine 0, helement⟩
  rw [toList_document, hbody, List.append_assoc]

/-! ## Characters

The writer neither drops nor replaces characters, and what it adds has only characters that XML admits. So the
characters of a document are clean exactly if those of its texts are, and this is an equivalence at each step: that
is what makes `isWellFormed_document_iff` exact.
-/

/-- Whether XML admits all characters of a text. -/
def IsClean (text : List Char) : Prop := ∀ c ∈ text, isChar c = true

instance (text : List Char) : Decidable (IsClean text) :=
  decidable_of_iff (text.all isChar = true) List.all_eq_true

@[simp] theorem isClean_nil : IsClean [] := fun _ hc => absurd hc List.not_mem_nil

@[simp] theorem isClean_cons {c : Char} {rest : List Char} :
    IsClean (c :: rest) ↔ isChar c = true ∧ IsClean rest :=
  List.forall_mem_cons

@[simp] theorem isClean_append {s t : List Char} : IsClean (s ++ t) ↔ IsClean s ∧ IsClean t :=
  List.forall_mem_append

@[simp] theorem isClean_flatMap {α : Type} {items : List α} {f : α → List Char} :
    IsClean (items.flatMap f) ↔ ∀ a ∈ items, IsClean (f a) := by
  simp only [IsClean, List.mem_flatMap, forall_exists_index, and_imp]
  exact forall_comm.trans (forall_congr' fun a => forall_comm)

/-- The five special characters are none that a text could not have, so escaping hides nothing. -/
theorem isClean_escapeChar {c : Char} : IsClean (escapeChar c) ↔ isChar c = true := by
  have href : ∀ name ∈ references, IsClean name := by decide
  unfold escapeChar
  split
  case h_6 => simp
  all_goals exact iff_of_true (href _ (by decide)) (by decide)

/-- Escaping keeps what XML does not admit, and brings nothing of it in. -/
@[simp] theorem isClean_escape {text : String} : IsClean (escape text) ↔ IsClean text.toList := by
  rw [escape, isClean_flatMap]
  exact forall₂_congr fun c _ => isClean_escapeChar

/-- So do the marks of sections. -/
@[simp] theorem isClean_verbatim {text : String} :
    IsClean (verbatim text) ↔ IsClean text.toList := by
  have hmarks : IsClean openingMark ∧ IsClean closingMark := by decide
  have hmarked : ∀ content, IsClean (marked content) ↔ IsClean content := by
    simp [marked, hmarks]
  have hflatten : (sections text.toList).flatMap id = text.toList := by
    rw [List.flatMap_id, flatten_sections]
  calc IsClean (verbatim text)
    _ ↔ ∀ content ∈ sections text.toList, IsClean (marked content) := by
      rw [verbatim_eq, isClean_flatMap]
    _ ↔ ∀ content ∈ sections text.toList, IsClean (id content) :=
      forall₂_congr fun content _ => hmarked content
    _ ↔ IsClean text.toList := by rw [← isClean_flatMap, hflatten]

/-- XML admits the characters of names. -/
theorem isChar_of_isNameChar {c : Char} (h : isNameChar c = true) : isChar c = true := by
  have halpha : c.isAlpha = (decide (65 ≤ c.val ∧ c.val ≤ 90) ||
      (decide (97 ≤ c.val) && decide (c.val ≤ 122))) := rfl
  have hdigit : c.isDigit = (decide (48 ≤ c.val) && decide (c.val ≤ 57)) := rfl
  have hrange : 0x20 ≤ c.toNat ∧ c.toNat ≤ 0xD7FF := by
    simp only [isNameChar, isNameStart, halpha, hdigit, Bool.or_eq_true, Bool.and_eq_true,
      decide_eq_true_eq, beq_iff_eq, UInt32.le_iff_toNat_le] at h
    rcases h with (((((h | h) | rfl) | rfl) | h) | rfl) | rfl
    all_goals first | decide | exact ⟨Nat.le_trans (by decide) h.1, Nat.le_trans h.2 (by decide)⟩
  simp [isChar, hrange]

/-- Names are clean. -/
theorem isClean_of_isName {name : List Char} (h : isName name = true) : IsClean name := by
  cases name with
  | nil => exact isClean_nil
  | cons c rest =>
    obtain ⟨hc, hrest⟩ := Bool.and_eq_true_iff.mp h
    refine isClean_cons.mpr ⟨isChar_of_isNameChar (by simp [isNameChar, hc]), fun d hd => ?_⟩
    exact isChar_of_isNameChar (List.all_eq_true.mp hrest d hd)

@[simp] theorem isClean_newLine (level : Nat) : IsClean (newLine level) := by
  refine isClean_cons.mpr ⟨by decide, fun c hc => ?_⟩
  rw [List.eq_of_mem_replicate hc]
  decide

/-- The values of attributes. -/
def values (attrs : List Attribute) : List String := attrs.map (·.2)

/-- Attributes are clean if their values are. -/
theorem isClean_attributes {attrs : List Attribute} (h : AreNamed attrs) :
    IsClean (attributes attrs) ↔ ∀ text ∈ values attrs, IsClean text.toList := by
  have hmarks : isChar ' ' = true ∧ isChar '=' = true ∧ isChar '\x22' = true := by decide
  rw [attributes, isClean_flatMap, values, List.forall_mem_map]
  refine forall₂_congr fun attr hattr => ?_
  simp [hmarks, isClean_of_isName (h.names attr hattr)]

mutual

/-- The texts in an element, those of its attributes first. -/
def Element.texts : Element → List String
  | .empty _ attrs => values attrs
  | .text _ content => [content]
  | .verbatim _ content => [content]
  | .node _ attrs children => values attrs ++ textsAll children

/-- The texts in elements. -/
def textsAll : List Element → List String
  | [] => []
  | e :: rest => e.texts ++ textsAll rest

end

theorem textsAll_eq_flatMap (elements : List Element) :
    textsAll elements = elements.flatMap Element.texts := by
  induction elements with
  | nil => rfl
  | cons e rest ih => rw [textsAll, ih, List.flatMap_cons]

theorem textsAll_append (es fs : List Element) : textsAll (es ++ fs) = textsAll es ++ textsAll fs := by
  simp [textsAll_eq_flatMap]

theorem textsAll_map {α : Type} (f : α → Element) (items : List α) :
    textsAll (items.map f) = items.flatMap fun a => (f a).texts := by
  simp [textsAll_eq_flatMap, List.flatMap_map]

/-- What is written for several elements is clean if the texts in them are, if this holds of each. -/
theorem isClean_writeAll {children : List Element} {level : Nat}
    (h : ∀ child ∈ children,
      IsClean (write level child) ↔ ∀ text ∈ child.texts, IsClean text.toList) :
    IsClean (writeAll level children) ↔ ∀ text ∈ textsAll children, IsClean text.toList := by
  rw [writeAll_eq_flatMap, textsAll_eq_flatMap, isClean_flatMap, List.forall_mem_flatMap]
  exact forall₂_congr h

/-- What is written for an element has no other characters than XML admits if the texts in it have none. -/
theorem isClean_write {e : Element} (h : e.IsNamed) (level : Nat) :
    IsClean (write level e) ↔ ∀ text ∈ e.texts, IsClean text.toList := by
  have hmarks : isChar '<' = true ∧ isChar '>' = true ∧ isChar '/' = true := by decide
  induction h generalizing level with
  | @empty name attrs hname hattrs =>
    simp [write, Element.texts, hmarks, isClean_of_isName hname, isClean_attributes hattrs]
  | @text name hname content =>
    simp [write, Element.texts, startTag, stopTag, attributes, hmarks, isClean_of_isName hname]
  | @verbatim name hname content =>
    simp [write, Element.texts, startTag, stopTag, attributes, hmarks, isClean_of_isName hname]
  | @node name attrs children hname hattrs _ ih =>
    have hchildren := isClean_writeAll fun child hchild => ih child hchild (level + 1)
    simp [write, Element.texts, startTag, stopTag, hmarks, isClean_of_isName hname,
      isClean_attributes hattrs, hchildren, or_imp, forall_and]

/-- A document is well formed if the texts in it have no other characters than XML admits, and only then. -/
theorem isWellFormed_document_iff {root : Element} (h : root.IsNamed) :
    IsWellFormed (document root).toList ↔ ∀ text ∈ root.texts, IsClean text.toList := by
  have hdeclaration : IsClean declaration := by decide
  have hclean : IsClean (document root).toList ↔ ∀ text ∈ root.texts, IsClean text.toList := by
    rw [toList_document, isClean_append, isClean_write h]
    exact and_iff_right hdeclaration
  rw [← hclean]
  exact ⟨fun hformed => hformed.characters, fun hchars => ⟨isDocument_document h, hchars⟩⟩

end RepoScope.Render.Xml
