import RepoScope.Proofs.Accounts
import RepoScope.Proofs.Run
import RepoScope.Proofs.Xml.Grammar
import RepoScope.Render.XmlText

/-!
# Bundles as well-formed documents

All names of elements and attributes that a bundle is written with are names, and no tag has two attributes
of one name (`isNamed_bundle`). So what is written for a bundle follows the productions of XML, whatever texts
the bundle holds; it is well formed exactly if XML admits all characters of these texts
(`render_isWellFormed_iff`). Nothing removes other characters on the way from a file to a bundle: a text file
with a form feed in it is shown as it is, and the document is then not well formed
(`exists_run_not_isWellFormed`).
-/

namespace RepoScope.Render.XmlText

open Content Scope Xml

/-! ## Names

The names of elements and attributes are fixed, so that they are names can be decided one by one. What varies is
which elements there are: lists of texts, fields that may be absent, files with or without content.
-/

/-- Texts in elements of a name are written with names. -/
theorem isNamed_texts {name : String} (hname : isName name.toList = true) (items : List String) :
    ∀ e ∈ items.map (Element.text name), e.IsNamed :=
  List.forall_mem_map.mpr fun text _ => .text hname text

theorem isNamed_present {name : String} (hname : isName name.toList = true)
    (content : Option String) : ∀ e ∈ present name content, e.IsNamed :=
  isNamed_texts hname content.toList

/-- What holds of an element holds of all there are if it may be left out. -/
theorem forall_mem_ite {p : Element → Prop} {c : Prop} [Decidable c] {e : Element} (h : p e) :
    ∀ x ∈ if c then [] else [e], p x := by
  split
  · exact fun x hx => absurd hx List.not_mem_nil
  · exact List.forall_mem_singleton.mpr h

theorem isNamed_itemList {name item : String} (hname : isName name.toList = true)
    (hitem : isName item.toList = true) (items : List String) :
    ∀ e ∈ itemList name item items, e.IsNamed :=
  forall_mem_ite (.node hname areNamed_nil (isNamed_texts hitem items))

theorem isNamed_profile (p : Stack.Profile) : (profile p).IsNamed := by
  refine .node (by decide) areNamed_nil ?_
  simp only [List.forall_mem_append]
  refine ⟨⟨⟨⟨⟨?_, ?_⟩, ?_⟩, ?_⟩, ?_⟩, isNamed_texts (by decide) p.patterns⟩
  all_goals exact isNamed_present (by decide) _

theorem isNamed_constraints (b : Bundle) : ∀ e ∈ constraints b, e.IsNamed :=
  forall_mem_ite (.node (by decide) areNamed_nil (List.forall_mem_append.mpr
    ⟨isNamed_texts (by decide) b.pins, isNamed_texts (by decide) b.prohibitions⟩))

theorem isNamed_skipped (files : List SkippedFile) : ∀ e ∈ skipped files, e.IsNamed := by
  refine forall_mem_ite (.node (by decide) areNamed_nil (List.forall_mem_map.mpr fun file _ => ?_))
  refine .empty (by decide) ⟨?_, by simp⟩
  simp [isName, isNameStart, isNameChar]

/-- The attributes of a file. -/
def shownAttributes (file : ShownFile) : List Attribute :=
  [("path", file.path), ("role", file.role.name), ("mode", file.mode.name),
    ("lines", toString file.lines)] ++ file.hash.toList.map (("hash", ·)) ++
    file.tokens.toList.map fun n => ("tokens", toString n)

/-- A shown file has an element for its content if it has one. -/
theorem shown_eq (file : ShownFile) : shown file =
    match file.content with
    | some content => .node "file" (shownAttributes file) [.verbatim "content" content]
    | none => .empty "file" (shownAttributes file) := rfl

/-- The attributes of a shown file have names, and different ones. -/
theorem areNamed_shownAttributes (file : ShownFile) : AreNamed (shownAttributes file) := by
  rw [shownAttributes]
  constructor
  · cases file.hash <;> cases file.tokens <;> simp [isName, isNameStart, isNameChar]
  · cases file.hash <;> cases file.tokens <;> simp

/-- A shown file is written with names. -/
theorem isNamed_shown (file : ShownFile) : (shown file).IsNamed := by
  have hattrs := areNamed_shownAttributes file
  rw [shown_eq]
  cases file.content with
  | none => exact .empty (by decide) hattrs
  | some content =>
    exact .node (by decide) hattrs (List.forall_mem_singleton.mpr (.verbatim (by decide) content))

/-- A bundle is written with names. -/
theorem isNamed_bundle (b : Bundle) : (bundle b).IsNamed := by
  refine .node (by decide) areNamed_nil ?_
  simp only [List.forall_mem_append, List.forall_mem_singleton, List.forall_mem_cons]
  and_intros
  · exact .text (by decide) b.project
  · exact isNamed_present (by decide) b.request
  · exact List.forall_mem_map.mpr fun p _ => isNamed_profile p
  · exact isNamed_constraints b
  · exact isNamed_present (by decide) b.scopeFunction
  · exact isNamed_itemList (by decide) (by decide) b.activity
  · exact isNamed_itemList (by decide) (by decide) b.warnings
  · exact .text (by decide) (toString b.filesShown)
  · exact .text (by decide) (toString b.totalLines)
  · exact isNamed_skipped b.skipped
  · exact .node (by decide) areNamed_nil (List.forall_mem_map.mpr fun file _ => isNamed_shown file)

/-! ## Texts

All that a document takes over from a bundle are numbers, names of roles and modes, and texts. The first two are
clean in any case, so it comes down to the texts (`isClean_bundle`).
-/

/-- The texts of a stack. -/
def profileTexts (p : Stack.Profile) : List String :=
  p.language.toList ++ p.framework.toList ++ p.styling.toList ++ p.validation.toList ++
    p.testing.toList ++ p.patterns

/-- The texts of a file. -/
def shownTexts (file : ShownFile) : List String :=
  file.path :: file.hash.toList ++ file.content.toList

/-- The texts in a bundle, other than numbers and the names of roles and modes. -/
def texts (b : Bundle) : List String :=
  b.project :: b.request.toList ++ b.profile.toList.flatMap profileTexts ++ b.pins ++ b.prohibitions ++
    b.scopeFunction.toList ++ b.activity ++ b.warnings ++
    b.skipped.flatMap (fun file => [file.path, file.reason]) ++ b.files.flatMap shownTexts

/-- The texts in elements of a name are those they were written with. -/
theorem textsAll_texts (name : String) (items : List String) :
    textsAll (items.map (Element.text name)) = items := by
  simp [textsAll_map, Element.texts]

/-- The text of a field that may be absent is that of the field. -/
theorem textsAll_present (name : String) (content : Option String) :
    textsAll (present name content) = content.toList :=
  textsAll_texts name content.toList

/-- The texts of a list are its items. -/
theorem textsAll_itemList (name item : String) (items : List String) :
    textsAll (itemList name item items) = items := by
  cases items with
  | nil => rfl
  | cons first rest =>
    simp [itemList, textsAll, Element.texts, values, textsAll_texts]

/-- The texts of the stack are those of its fields. -/
theorem texts_profile (p : Stack.Profile) : (profile p).texts = profileTexts p := by
  simp [profile, Element.texts, values, textsAll_append, textsAll_present, textsAll_texts,
    profileTexts]

/-- The texts of the constraints are the pins and the prohibitions. -/
theorem textsAll_constraints (b : Bundle) :
    textsAll (constraints b) = b.pins ++ b.prohibitions := by
  by_cases h : b.pins = [] ∧ b.prohibitions = []
  · simp [constraints, h, textsAll]
  · simp [constraints, h, textsAll, Element.texts, values, textsAll_append, textsAll_texts]

/-- The texts of the skipped files are their paths and reasons. -/
theorem textsAll_skipped (files : List SkippedFile) :
    textsAll (skipped files) = files.flatMap fun file => [file.path, file.reason] := by
  cases files with
  | nil => rfl
  | cons first rest => simp [skipped, textsAll, Element.texts, values, textsAll_map]

/-- Decimal digits are clean. -/
theorem isClean_toDigits (n : Nat) : IsClean (Nat.toDigits 10 n) := by
  intro c hc
  have hdigit : c.isDigit = true := Nat.isDigit_of_mem_toDigits (Nat.zero_lt_succ 9) (Nat.le_refl 10) hc
  exact isChar_of_isNameChar (by simp [isNameChar, hdigit])

theorem isClean_toString (n : Nat) : IsClean (toString n).toList := by
  simpa using isClean_toDigits n

/-- A shown file is clean if its texts are. -/
theorem isClean_shown (file : ShownFile) :
    (∀ text ∈ (shown file).texts, IsClean text.toList) ↔
      ∀ text ∈ shownTexts file, IsClean text.toList := by
  have hrole : IsClean file.role.name.toList := by cases file.role <;> decide
  have hmode : IsClean file.mode.name.toList := by cases file.mode <;> decide
  cases hcontent : file.content <;> cases hhash : file.hash <;> cases htokens : file.tokens <;>
    simp [shown, shownTexts, Element.texts, values, textsAll, hrole, hmode, isClean_toDigits, hcontent,
      hhash, htokens]

/-- Only the texts of a bundle can bring characters into a document that XML does not admit. -/
theorem isClean_bundle (b : Bundle) :
    (∀ text ∈ (bundle b).texts, IsClean text.toList) ↔ ∀ text ∈ texts b, IsClean text.toList := by
  have hprofile : textsAll (b.profile.toList.map profile) = b.profile.toList.flatMap profileTexts := by
    simp [textsAll_map, texts_profile]
  have hfiles : (∀ text ∈ b.files.flatMap fun file => (shown file).texts, IsClean text.toList) ↔
      ∀ text ∈ b.files.flatMap shownTexts, IsClean text.toList := by
    simp only [List.forall_mem_flatMap]
    exact forall₂_congr fun file _ => isClean_shown file
  simp only [bundle, texts, Element.texts, values, List.map_nil, textsAll, textsAll_append,
    textsAll_present, textsAll_itemList, textsAll_constraints, textsAll_skipped, hprofile, textsAll_map,
    List.forall_mem_append, List.forall_mem_cons, List.not_mem_nil, false_implies, implies_true, true_and,
    and_true, and_assoc, isClean_toString, hfiles]

/-- A document of a bundle is well formed if and only if XML admits all characters of its texts. -/
theorem isWellFormed_render (b : Bundle) :
    IsWellFormed (render b).toList ↔ ∀ text ∈ texts b, ∀ c ∈ text.toList, isChar c = true :=
  (isWellFormed_document_iff (isNamed_bundle b)).trans (isClean_bundle b)

/--
What is written for a bundle follows the productions, and is well formed if and only if XML admits all
characters of the texts in the bundle.
-/
theorem render_isWellFormed_iff (b : Bundle) :
    IsDocument (render b).toList ∧
      (IsWellFormed (render b).toList ↔ ∀ text ∈ texts b, ∀ c ∈ text.toList, isChar c = true) :=
  ⟨isDocument_document (isNamed_bundle b), isWellFormed_render b⟩

/-- A source file with a form feed between two pages. -/
def pagedText : String := "int a;\n\x0c\nint b;\n"

/-- A disk with this file alone. -/
def pagedDisk : Disk :=
  ⟨.dir (.cons "srv" (.dir (.cons "a.c" (.file (Text.encode pagedText.toList)) .nil)) .nil), none⟩

/-- Its directory, opened with the built-in rules. -/
def pagedContext : Context := ⟨["srv"], Ignore.Policy.load pagedDisk ["srv"] []⟩

/-- The file is shown as it is. -/
theorem exists_run_pagedContext :
    ∃ outcome, pagedContext.run pagedDisk .unavailable .default = .ok outcome ∧
      ∀ countTokens, (load (pagedContext.repository pagedDisk) countTokens outcome.files).files.map
        (·.content) = [some pagedText] := by
  let contents (outcome : Outcome) (countTokens : Bool) :=
    (load (pagedContext.repository pagedDisk) countTokens outcome.files).files.map (·.content)
  have hview : (pagedContext.run pagedDisk .unavailable .default).toOption.map
      (fun outcome => (contents outcome false, contents outcome true))
        = some ([some pagedText], [some pagedText]) := by decide +kernel
  obtain ⟨outcome, hrun, hcontents⟩ := Context.exists_eq_ok_of_view hview
  rw [Prod.mk.injEq] at hcontents
  exact ⟨outcome, hrun, Bool.forall_bool.mpr hcontents⟩

/-- A run shows a file with a form feed, and no document for it is well formed. -/
theorem exists_run_not_isWellFormed :
    ∃ outcome, Context.open? pagedDisk [] "srv" [] = .ok pagedContext ∧
      pagedContext.run pagedDisk .unavailable .default = .ok outcome ∧
      ∀ options, ¬IsWellFormed
        (render (.build pagedContext pagedDisk outcome .default options)).toList := by
  obtain ⟨outcome, hrun, hcontents⟩ := exists_run_pagedContext
  refine ⟨outcome, rfl, hrun, fun options hformed => ?_⟩
  rw [isWellFormed_render] at hformed
  have hmem : some pagedText ∈ (Bundle.build pagedContext pagedDisk outcome .default options).files.map
      (·.content) := by
    rw [Bundle.build, Content.loadWith_eq_load, hcontents]
    exact List.mem_singleton_self _
  obtain ⟨file, hfile, hcontent⟩ := List.mem_map.mp hmem
  have hshown : pagedText ∈ shownTexts file := by simp [shownTexts, hcontent]
  have htext : pagedText ∈ texts (.build pagedContext pagedDisk outcome .default options) :=
    List.mem_append_right _ (List.mem_flatMap.mpr ⟨file, hfile, hshown⟩)
  exact absurd (hformed pagedText htext '\x0c' (by decide)) (by decide)

end RepoScope.Render.XmlText
