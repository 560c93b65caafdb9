import RepoScope.Proofs.Xml.Grammar

/-!
# Cutting documents into pieces

A reader that knows tags and sections, but nothing about what is written with them, cuts a document into
pieces (`pieces?`). A section goes on up to the first closing mark behind its own opening mark, and a tag up to
the first greater-than sign that is not between quotation marks.

What is written for an element is cut into its tags and what stands between them (`isCut_write`). Which tags
there are depends on names and attributes only (`tags?_document`).
-/

namespace RepoScope.Render.Xml

/-! ## Pieces

The reader takes one character at a time and knows only where it stands: between tags, in a tag, in a quoted value
of a tag, or in a section. It fails where the document ends inside a tag or a section.
-/

/-- A piece of a document. -/
inductive Piece where
  /-- What stands between tags and sections. -/
  | text (content : List Char)
  /-- A tag without its angle brackets. -/
  | tag (inside : List Char)
  /-- A section without its marks. -/
  | verbatim (content : List Char)

/-- Where a reader stands. -/
inductive Place where
  | text
  | tag
  /-- Between quotation marks in a tag. -/
  | value
  | verbatim

/--
The pieces of a document from a place on, the first of them with characters that have been read, newest
first.
-/
def piecesFrom? : Place → List Char → List Char → Option (List Piece)
  | .text, done, '<' :: '!' :: '[' :: 'C' :: 'D' :: 'A' :: 'T' :: 'A' :: '[' :: rest =>
    (.text done.reverse :: ·) <$> piecesFrom? .verbatim [] rest
  | .text, done, '<' :: rest => (.text done.reverse :: ·) <$> piecesFrom? .tag [] rest
  | .text, done, c :: rest => piecesFrom? .text (c :: done) rest
  | .text, done, [] => some [.text done.reverse]
  | .tag, done, '>' :: rest => (.tag done.reverse :: ·) <$> piecesFrom? .text [] rest
  | .tag, done, '\x22' :: rest => piecesFrom? .value ('\x22' :: done) rest
  | .tag, done, c :: rest => piecesFrom? .tag (c :: done) rest
  | .value, done, '\x22' :: rest => piecesFrom? .tag ('\x22' :: done) rest
  | .value, done, c :: rest => piecesFrom? .value (c :: done) rest
  | .verbatim, done, ']' :: ']' :: '>' :: rest =>
    (.verbatim done.reverse :: ·) <$> piecesFrom? .text [] rest
  | .verbatim, done, c :: rest => piecesFrom? .verbatim (c :: done) rest
  | _, _, [] => none

/-- The pieces of a document. -/
def pieces? (document : List Char) : Option (List Piece) := piecesFrom? .text [] document

/-- Between tags, a character that opens none is read over. -/
theorem piecesFrom?_text_cons {c : Char} (hc : c ≠ '<') (done rest : List Char) :
    piecesFrom? .text done (c :: rest) = piecesFrom? .text (c :: done) rest := by
  rw [piecesFrom?]
  all_goals simp [hc]

/-- A tag is entered behind its opening bracket, if this opens no section. -/
theorem piecesFrom?_open {rest : List Char} (h : rest.head? ≠ some '!') (done : List Char) :
    piecesFrom? .text done ('<' :: rest)
      = (.text done.reverse :: ·) <$> piecesFrom? .tag [] rest := by
  rw [piecesFrom?]
  rintro tail rfl
  exact h rfl

/-- In a tag, a character that neither ends it nor begins a value is read over. -/
theorem piecesFrom?_tag_cons {c : Char} (hgt : c ≠ '>') (hquot : c ≠ '\x22')
    (done rest : List Char) :
    piecesFrom? .tag done (c :: rest) = piecesFrom? .tag (c :: done) rest := by
  rw [piecesFrom?]
  all_goals simp [hgt, hquot]

/-- In a value, a character that does not end it is read over. -/
theorem piecesFrom?_value_cons {c : Char} (hc : c ≠ '\x22') (done rest : List Char) :
    piecesFrom? .value done (c :: rest) = piecesFrom? .value (c :: done) rest := by
  rw [piecesFrom?]
  simp [hc]

/-- In a section, a character at which no closing mark begins is read over. -/
theorem piecesFrom?_verbatim_cons {c : Char} {rest : List Char} (h : ¬closingMark <+: c :: rest)
    (done : List Char) :
    piecesFrom? .verbatim done (c :: rest) = piecesFrom? .verbatim (c :: done) rest := by
  rw [piecesFrom?]
  rintro tail rfl rfl
  exact h ⟨tail, rfl⟩

/-! ### Sections -/

/-- A closing mark that begins in a text without one begins behind it. -/
theorem not_prefix_of_isFree {c : Char} {content : List Char} (h : IsFree (c :: content))
    (rest : List Char) : ¬closingMark <+: c :: (content ++ closingMark ++ rest) := by
  intro hmark
  -- Of the three characters of the mark, the third is a bracket if it is not one of the content.
  rcases content with _ | ⟨d, _ | ⟨e, content⟩⟩
  · simp [closingMark] at hmark
  · simp [closingMark] at hmark
  · simp only [closingMark, List.cons_append, List.cons_prefix_cons, List.nil_prefix,
      and_true] at hmark
    obtain ⟨rfl, rfl, rfl⟩ := hmark
    exact h ⟨[], content, rfl⟩

/-- A section goes on up to its own closing mark. -/
theorem piecesFrom?_content {content : List Char} (h : IsFree content) (done rest : List Char) :
    piecesFrom? .verbatim done (content ++ closingMark ++ rest)
      = (.verbatim (done.reverse ++ content) :: ·) <$> piecesFrom? .text [] rest := by
  induction content generalizing done with
  | nil =>
    rw [List.append_nil]
    rfl
  | cons c content ih =>
    have hcontent : IsFree content := fun hmark => h (List.infix_cons hmark)
    have hc := piecesFrom?_verbatim_cons (not_prefix_of_isFree h rest) done
    rw [List.cons_append, List.cons_append, hc, ih hcontent]
    simp

/-! ### What a document is cut into -/

/-- Whether a reader goes on from a place to another one without cutting. -/
def Passes (place place' : Place) (cs : List Char) : Prop :=
  ∀ done rest, piecesFrom? place done (cs ++ rest) = piecesFrom? place' (cs.reverse ++ done) rest

/-- What passes from one place to a second, and on to a third, passes from the first to the third. -/
theorem Passes.append {p q r : Place} {cs ds : List Char} (hcs : Passes p q cs)
    (hds : Passes q r ds) : Passes p r (cs ++ ds) := by
  intro done rest
  rw [List.append_assoc, hcs, hds, List.reverse_append, List.append_assoc]

/-- Characters each of which leaves the place as it is do so together. -/
theorem Passes.of_forall {place : Place} {cs : List Char} (h : ∀ c ∈ cs, Passes place place [c]) :
    Passes place place cs := by
  induction cs with
  | nil => exact fun _ _ => rfl
  | cons c cs ih =>
    have hc : Passes place place [c] := h c List.mem_cons_self
    exact hc.append (ih fun d hd => h d (List.mem_cons_of_mem _ hd))

/-- Text without an opening bracket passes between tags. -/
theorem passes_text {cs : List Char} (h : '<' ∉ cs) : Passes .text .text cs :=
  .of_forall fun _ hc => piecesFrom?_text_cons fun heq => h (heq ▸ hc)

/-- What has neither a greater-than sign nor a quotation mark passes in a tag. -/
theorem passes_tag {cs : List Char} (hgt : '>' ∉ cs) (hquot : '\x22' ∉ cs) : Passes .tag .tag cs :=
  .of_forall fun _ hc =>
    piecesFrom?_tag_cons (fun heq => hgt (heq ▸ hc)) (fun heq => hquot (heq ▸ hc))

/-- What has no quotation mark passes in a value. -/
theorem passes_value {cs : List Char} (h : '\x22' ∉ cs) : Passes .value .value cs :=
  .of_forall fun _ hc => piecesFrom?_value_cons fun heq => h (heq ▸ hc)

/-- What stands between quotation marks does not end a tag. -/
theorem passes_quoted {cs : List Char} (h : '\x22' ∉ cs) :
    Passes .tag .tag ('\x22' :: cs ++ ['\x22']) := by
  have hopen : Passes .tag .value ['\x22'] := fun _ _ => rfl
  have hclose : Passes .value .tag ['\x22'] := fun _ _ => rfl
  exact (hopen.append (passes_value h)).append hclose

/-- Whether characters can stand between the brackets of a tag. -/
structure IsInside (inside : List Char) : Prop where
  head : inside.head? ≠ some '!'
  passes : Passes .tag .tag inside

/-- Whether characters are cut into these pieces wherever a text begins with them. -/
def IsCut (cs : List Char) (ps : List Piece) : Prop :=
  ∀ rest, piecesFrom? .text [] (cs ++ rest) = (ps ++ ·) <$> piecesFrom? .text [] rest

/-- Pieces are put together where the texts are. -/
theorem IsCut.append {cs ds : List Char} {ps qs : List Piece} (hcs : IsCut cs ps)
    (hds : IsCut ds qs) : IsCut (cs ++ ds) (ps ++ qs) := by
  intro rest
  rw [List.append_assoc, hcs, hds]
  simp [Function.comp_def]

theorem isCut_nil : IsCut [] [] := by
  intro rest
  simp

/-- A tag is cut off at its end, with the text before it. -/
theorem isCut_tag {text inside : List Char} (htext : '<' ∉ text) (hinside : IsInside inside) :
    IsCut (text ++ '<' :: inside ++ ['>']) [.text text, .tag inside] := by
  intro rest
  have hhead : (inside ++ '>' :: rest).head? ≠ some '!' := by
    cases inside with
    | nil => simp
    | cons c inside => exact hinside.head
  have hclose (done : List Char) : piecesFrom? .tag done ('>' :: rest)
      = (.tag done.reverse :: ·) <$> piecesFrom? .text [] rest := rfl
  calc piecesFrom? .text [] (text ++ '<' :: inside ++ ['>'] ++ rest)
    _ = piecesFrom? .text [] (text ++ '<' :: (inside ++ '>' :: rest)) := by simp
    _ = piecesFrom? .text text.reverse ('<' :: (inside ++ '>' :: rest)) := by
      rw [passes_text htext, List.append_nil]
    _ = (.text text :: ·) <$> piecesFrom? .tag [] (inside ++ '>' :: rest) := by
      rw [piecesFrom?_open hhead, List.reverse_reverse]
    _ = (.text text :: ·) <$> (.tag inside :: ·) <$> piecesFrom? .text [] rest := by
      rw [hinside.passes, hclose, List.append_nil, List.reverse_reverse]
    _ = ([.text text, .tag inside] ++ ·) <$> piecesFrom? .text [] rest := by
      simp [Function.comp_def]

/-- A section without a closing mark in it is cut off at its own. -/
theorem isCut_marked {content : List Char} (h : IsFree content) :
    IsCut (marked content) [.text [], .verbatim content] := by
  intro rest
  have hopen : piecesFrom? .text [] (openingMark ++ (content ++ closingMark ++ rest))
      = (.text [] :: ·) <$> piecesFrom? .verbatim [] (content ++ closingMark ++ rest) := rfl
  rw [marked, List.append_assoc, List.append_assoc, ← List.append_assoc content, hopen,
    piecesFrom?_content h]
  simp [Function.comp_def]

/-- Texts one behind the other are cut into the pieces of each. -/
theorem isCut_flatMap {α : Type} {items : List α} {f : α → List Char} {g : α → List Piece}
    (h : ∀ a ∈ items, IsCut (f a) (g a)) : IsCut (items.flatMap f) (items.flatMap g) := by
  induction items with
  | nil => exact isCut_nil
  | cons a rest ih =>
    rw [List.flatMap_cons, List.flatMap_cons]
    exact (h a List.mem_cons_self).append (ih fun b hb => h b (List.mem_cons_of_mem _ hb))

/-! ## The pieces of elements

The pieces of an element are given by a recursion over it that goes along with that of the writer (`pieces`). That
they are what the reader cuts is an induction over the element, in which every text is known to be escaped, every
name to be a name, and every section to be free of closing marks.
-/

/-- A name has no characters but those of names. -/
theorem notMem_of_isName {name : List Char} {c : Char} (h : isName name = true)
    (hc : isNameChar c = false) : c ∉ name := by
  intro hmem
  cases name with
  | nil => cases hmem
  | cons d rest =>
    obtain ⟨hd, hrest⟩ := Bool.and_eq_true_iff.mp h
    have hchar : isNameChar c = true := by
      rcases List.mem_cons.mp hmem with rfl | hmem
      · simp [isNameChar, hd]
      · exact List.all_eq_true.mp hrest c hmem
    rw [hc] at hchar
    cases hchar

theorem passes_name {name : List Char} (h : isName name = true) : Passes .tag .tag name :=
  passes_tag (notMem_of_isName h (by decide)) (notMem_of_isName h (by decide))

/-- Attributes pass in a tag, since quotation marks in their values are written as references. -/
theorem passes_attributes {attrs : List Attribute} (h : AreNamed attrs) :
    Passes .tag .tag (attributes attrs) := by
  have hnames := h.names
  clear h
  induction attrs with
  | nil => exact fun _ _ => rfl
  | cons attr rest ih =>
    obtain ⟨name, value⟩ := attr
    have hname : isName name.toList = true := hnames (name, value) List.mem_cons_self
    have hblank : Passes .tag .tag [' '] := fun _ _ => rfl
    have hequal : Passes .tag .tag ['='] := fun _ _ => rfl
    have hvalue : Passes .tag .tag ('\x22' :: escape value ++ ['\x22']) :=
      passes_quoted (notMem_escape (by simp) value)
    have hattr := ((hblank.append (passes_name hname)).append hequal).append hvalue
    have hrest := ih fun attr hattr => hnames attr (List.mem_cons_of_mem _ hattr)
    rw [attributes_cons]
    simpa using hattr.append hrest

/-- What stands in the tag that starts an element. -/
def inside (name : String) (attrs : List Attribute) : List Char := name.toList ++ attributes attrs

/-- The name and attributes of an element stand inside its tag, with what closes an empty element behind them. -/
theorem isInside_append {name : String} {attrs : List Attribute} {tail : List Char}
    (hname : isName name.toList = true) (hattrs : AreNamed attrs) (htail : Passes .tag .tag tail) :
    IsInside (inside name attrs ++ tail) := by
  refine ⟨?_, ((passes_name hname).append (passes_attributes hattrs)).append htail⟩
  have hbang : '!' ∉ name.toList := notMem_of_isName hname (by decide)
  rw [inside]
  cases hlist : name.toList with
  | nil =>
    rw [hlist] at hname
    cases hname
  | cons c rest =>
    rw [hlist] at hbang
    simp only [List.cons_append, List.head?_cons, ne_eq, Option.some.injEq]
    rintro rfl
    exact hbang List.mem_cons_self

/-- The name and attributes of an element stand inside the tag that starts it. -/
theorem isInside_inside {name : String} {attrs : List Attribute} (hname : isName name.toList = true)
    (hattrs : AreNamed attrs) : IsInside (inside name attrs) := by
  have hnil : Passes .tag .tag [] := fun _ _ => rfl
  simpa using isInside_append hname hattrs hnil

/-- The name of an element stands inside the tag that ends it. -/
theorem isInside_stop {name : String} (hname : isName name.toList = true) :
    IsInside ('/' :: name.toList) := by
  have hslash : Passes .tag .tag ['/'] := fun _ _ => rfl
  exact ⟨by simp, hslash.append (passes_name hname)⟩

mutual

/-- The pieces of what is written for an element. -/
def pieces (level : Nat) : Element → List Piece
  | .empty name attrs => [.text (newLine level), .tag (inside name attrs ++ ['/'])]
  | .text name content =>
    [.text (newLine level), .tag (inside name []), .text (escape content), .tag ('/' :: name.toList)]
  | .verbatim name content =>
    [.text (newLine level), .tag (inside name [])] ++
      (sections content.toList).flatMap (fun content => [.text [], .verbatim content]) ++
      [.text [], .tag ('/' :: name.toList)]
  | .node name attrs children =>
    [.text (newLine level), .tag (inside name attrs)] ++ piecesAll (level + 1) children ++
      [.text (newLine level), .tag ('/' :: name.toList)]

/-- The pieces of what is written for elements. -/
def piecesAll (level : Nat) : List Element → List Piece
  | [] => []
  | e :: rest => pieces level e ++ piecesAll level rest

end

theorem piecesAll_eq_flatMap (level : Nat) (elements : List Element) :
    piecesAll level elements = elements.flatMap (pieces level) := by
  induction elements with
  | nil => rfl
  | cons e rest ih => rw [piecesAll, ih, List.flatMap_cons]

/-- What is written for several elements is cut into the pieces of each, if this holds of each. -/
theorem isCut_writeAll {children : List Element} {level : Nat}
    (h : ∀ child ∈ children, IsCut (write level child) (pieces level child)) :
    IsCut (writeAll level children) (piecesAll level children) := by
  rw [writeAll_eq_flatMap, piecesAll_eq_flatMap]
  exact isCut_flatMap h

/-- A line end with its indentation is white space. -/
theorem notMem_newLine {c : Char} (h : isSpace c = false) (level : Nat) : c ∉ newLine level := by
  intro hmem
  have hspace := List.all_eq_true.mp (isSpace_newLine level) c hmem
  rw [h] at hspace
  cases hspace

/-- Text between marks is cut into its sections. -/
theorem isCut_verbatim (content : String) : IsCut (verbatim content)
    ((sections content.toList).flatMap fun content => [.text [], .verbatim content]) := by
  rw [verbatim_eq]
  exact isCut_flatMap fun content hcontent => isCut_marked (isFree_of_mem_sections hcontent)

/-- What is written for an element is cut into its pieces. -/
theorem isCut_write {e : Element} (h : e.IsNamed) (level : Nat) :
    IsCut (write level e) (pieces level e) := by
  have hline (level : Nat) : '<' ∉ newLine level := notMem_newLine (by decide) level
  induction h generalizing level with
  | @empty name attrs hname hattrs =>
    have hslash : Passes .tag .tag ['/'] := fun _ _ => rfl
    simpa [write, pieces, inside] using
      isCut_tag (hline level) (isInside_append hname hattrs hslash)
  | @text name hname content =>
    have hopen := isCut_tag (hline level) (isInside_inside hname areNamed_nil)
    have hclose := isCut_tag (notMem_escape (by simp) content) (isInside_stop hname)
    simpa [write, pieces, startTag, stopTag, inside] using hopen.append hclose
  | @verbatim name hname content =>
    have hopen := isCut_tag (hline level) (isInside_inside hname areNamed_nil)
    have hclose := isCut_tag List.not_mem_nil (isInside_stop hname)
    simpa [write, pieces, startTag, stopTag, inside] using
      (hopen.append (isCut_verbatim content)).append hclose
  | @node name attrs children hname hattrs _ ih =>
    have hopen := isCut_tag (hline level) (isInside_inside hname hattrs)
    have hchildren := isCut_writeAll fun child hchild => ih child hchild (level + 1)
    have hclose := isCut_tag (hline level) (isInside_stop hname)
    simpa [write, pieces, startTag, stopTag, inside] using (hopen.append hchildren).append hclose

/-- What stands in the tag of the declaration. -/
def declarationInside : List Char := "?xml version=\x221.0\x22 encoding=\x22UTF-8\x22?".toList

/-- The declaration is cut into one tag. -/
theorem isCut_declaration : IsCut declaration [.text [], .tag declarationInside] := by
  have hdeclaration : declaration = [] ++ '<' :: declarationInside ++ ['>'] := by decide
  have hpasses : Passes .tag .tag declarationInside := fun _ _ => rfl
  rw [hdeclaration]
  exact isCut_tag List.not_mem_nil ⟨by decide, hpasses⟩

/-- A document is cut into the declaration and the pieces of its element. -/
theorem pieces?_document {root : Element} (h : root.IsNamed) :
    pieces? (document root).toList
      = some ([.text [], .tag declarationInside] ++ pieces 0 root ++ [.text []]) := by
  have hcut := isCut_declaration.append (isCut_write h 0) []
  rw [List.append_nil, ← toList_document] at hcut
  exact hcut

/-! ## Tags

The tags are what is left of the pieces without texts and sections, so they say what a reader sees of a document
that takes nothing but its tags.
-/

/-- What stands in a piece that is a tag. -/
def Piece.inside? : Piece → Option (List Char)
  | .tag inside => some inside
  | .text _ | .verbatim _ => none

/-- What stands in the tags of a document, in order. -/
def tags? (document : List Char) : Option (List (List Char)) :=
  (·.filterMap Piece.inside?) <$> pieces? document

mutual

/-- What stands in the tags of an element. -/
def Element.tags : Element → List (List Char)
  | .empty name attrs => [inside name attrs ++ ['/']]
  | .text name _ => [inside name [], '/' :: name.toList]
  | .verbatim name _ => [inside name [], '/' :: name.toList]
  | .node name attrs children => inside name attrs :: tagsAll children ++ ['/' :: name.toList]

/-- What stands in the tags of elements. -/
def tagsAll : List Element → List (List Char)
  | [] => []
  | e :: rest => e.tags ++ tagsAll rest

end

theorem tagsAll_eq_flatMap (elements : List Element) :
    tagsAll elements = elements.flatMap Element.tags := by
  induction elements with
  | nil => rfl
  | cons e rest ih => rw [tagsAll, ih, List.flatMap_cons]

theorem tagsAll_append (es fs : List Element) : tagsAll (es ++ fs) = tagsAll es ++ tagsAll fs := by
  simp [tagsAll_eq_flatMap]

/-- The tags of elements are those of their pieces, if this holds of each. -/
theorem inside?_piecesAll {children : List Element} {level : Nat}
    (h : ∀ child ∈ children, (pieces level child).filterMap Piece.inside? = child.tags) :
    (piecesAll level children).filterMap Piece.inside? = tagsAll children := by
  rw [piecesAll_eq_flatMap, tagsAll_eq_flatMap, List.filterMap_flatMap, List.flatMap_def,
    List.flatMap_def, List.map_congr_left h]

/-- The tags of an element are those of its pieces. -/
theorem inside?_pieces {e : Element} (h : e.IsNamed) (level : Nat) :
    (pieces level e).filterMap Piece.inside? = e.tags := by
  induction h generalizing level with
  | empty => rfl
  | text => rfl
  | verbatim _ content =>
    have hsections : ((sections content.toList).flatMap fun content =>
        [.text [], .verbatim content]).filterMap Piece.inside? = [] := by
      simp only [List.filterMap_eq_nil_iff, List.mem_flatMap, List.mem_cons, List.not_mem_nil, or_false]
      rintro piece ⟨content, -, rfl | rfl⟩ <;> rfl
    simp [pieces, List.filterMap_cons, Piece.inside?, Element.tags, hsections]
  | node _ _ _ ih =>
    have hchildren := inside?_piecesAll fun child hchild => ih child hchild (level + 1)
    simp [pieces, List.filterMap_cons, Piece.inside?, Element.tags, hchildren]

/-- The tags of a document are those of the declaration and of its element. -/
theorem tags?_document {root : Element} (h : root.IsNamed) :
    tags? (document root).toList = some (declarationInside :: root.tags) := by
  rw [tags?, pieces?_document h]
  simp [List.filterMap_cons, Piece.inside?, inside?_pieces h]

end RepoScope.Render.Xml
