import RepoScope.Proofs.Xml.Bundles
import RepoScope.Proofs.Xml.Items

/-!
# Reading bundles

A reader that knows which elements a bundle is written with takes the bundle out of the items of a document
(`bundle?`): fields by the names of their elements, files by their attributes, and the content of a file from
its sections, one behind the other. An element that is not there is a field that is absent.

What is written for a bundle is read as that bundle, and the tags in it are the same whatever contents the
files have (`render_isRecoverable`): no content closes its section or adds an element.
-/

namespace RepoScope.Render.XmlText

open Content Scope Xml

/-! ## The reader

The reader never looks at the characters of a document: it takes the items it was read as, asks for elements by
name, and follows what they hold. It knows the names of the elements and attributes and how numbers, roles and
modes are spelled, and nothing else of how a bundle is written.
-/

/-- The elements of a name among items. -/
def named (name : String) (items : List Item) : List (List Attribute × List Item) :=
  items.filterMap fun
    | .element other attrs content => if other = name then some (attrs, content) else none
    | .text _ | .verbatim _ => none

/-- The items in the elements of a name. -/
def within (name : String) (items : List Item) : List Item :=
  (named name items).flatMap (·.2)

/-- The text among items. -/
def textIn (items : List Item) : String :=
  String.ofList (items.flatMap fun
    | .text content => content
    | .verbatim _ | .element _ _ _ => [])

/-- What the sections among items hold, one behind the other. -/
def verbatimIn (items : List Item) : String :=
  String.ofList (items.flatMap fun
    | .verbatim content => content
    | .text _ | .element _ _ _ => [])

/-- The texts in the elements of a name. -/
def textsOf (name : String) (items : List Item) : List String :=
  (named name items).map fun (_, content) => textIn content

/-- The number that decimal digits write. -/
def number? (text : String) : Option Nat :=
  if text.toList ≠ [] ∧ text.toList.all (·.isDigit) then some (Nat.ofDigitChars 10 text.toList 0)
  else none

/-- The role of a name. -/
def role? (name : String) : Option Role :=
  [.target, .dependency, .changed, .config, .normal].find? (·.name == name)

/-- The mode of a name. -/
def mode? (name : String) : Option Mode :=
  [.full, .skeleton, .excluded].find? (·.name == name)

/-- The stack in its element. -/
def profileOf (items : List Item) : Stack.Profile where
  language := (textsOf "language" items).head?
  framework := (textsOf "framework" items).head?
  styling := (textsOf "styling" items).head?
  validation := (textsOf "validation" items).head?
  testing := (textsOf "testing" items).head?
  patterns := textsOf "pattern" items

/-- A file that is not shown, from the attributes of its element. -/
def skippedFile? (element : List Attribute × List Item) : Option SkippedFile := do
  let path ← element.1.lookup "path"
  let reason ← element.1.lookup "reason"
  return { path, reason }

/-- A file that is shown, from the attributes and items of its element. -/
def shownFile? (element : List Attribute × List Item) : Option ShownFile := do
  let (attrs, items) := element
  let path ← attrs.lookup "path"
  let role ← (attrs.lookup "role").bind role?
  let mode ← (attrs.lookup "mode").bind mode?
  let lines ← (attrs.lookup "lines").bind number?
  let tokens ← (attrs.lookup "tokens").mapM number?
  return {
    path, role, mode, lines, tokens
    hash := attrs.lookup "hash"
    content := (named "content" items).head?.map fun (_, content) => verbatimIn content }

/-- The bundle in its element. -/
def bundleIn? (items : List Item) : Option Bundle := do
  let project ← (textsOf "project" items).head?
  let filesShown ← (textsOf "files_shown" items).head?.bind number?
  let totalLines ← (textsOf "total_lines" items).head?.bind number?
  let skipped ← (named "file" (within "skipped" items)).mapM skippedFile?
  let files ← (named "file" (within "files" items)).mapM shownFile?
  return {
    project, filesShown, totalLines, skipped, files
    request := (textsOf "request" items).head?
    profile := (named "profile" items).head?.map fun (_, content) => profileOf content
    pins := textsOf "tech" (within "constraints" items)
    prohibitions := textsOf "negative" (within "constraints" items)
    scopeFunction := (textsOf "scope_function" items).head?
    activity := textsOf "path" (within "activity" items)
    warnings := textsOf "warning" (within "warnings" items) }

/-- The bundle that a document writes. -/
def bundle? (document : List Char) : Option Bundle := do
  let items ← items? document
  bundleIn? (within "context" items)

/-! ## Elements by their names

The items of an element are those of its elements, with white space around them. A reader that asks for a name gets
the elements of this name and no white space, so from here on it is enough to look at the elements (`ofName`).
-/

/-- The elements of a name. -/
def ofName (name : String) (elements : List Element) : List Element :=
  elements.filter (·.name == name)

/-- The elements of a name among the items are those among the elements. -/
theorem named_itemsAll (name : String) (level : Nat) (elements : List Element) (tail : List Char) :
    named name (itemsAll level elements ++ [.text tail])
      = (ofName name elements).map fun e => (e.attrs, e.content level) := by
  induction elements with
  | nil => rfl
  | cons e rest ih =>
    rw [named] at ih ⊢
    by_cases h : e.name = name
    · simp [itemsAll, ofName, h, ih]
    · simp [itemsAll, ofName, h, ih]

/-- What stands in the elements of a name is found among the items. -/
theorem within_itemsAll (name : String) (level : Nat) (elements : List Element) (tail : List Char) :
    within name (itemsAll level elements ++ [.text tail])
      = (ofName name elements).flatMap (·.content level) := by
  rw [within, named_itemsAll, List.flatMap_map]

/-- The texts in the elements of a name are found among the items. -/
theorem textsOf_itemsAll (name : String) (level : Nat) (elements : List Element) (tail : List Char) :
    textsOf name (itemsAll level elements ++ [.text tail])
      = (ofName name elements).map fun e => textIn (e.content level) := by
  rw [textsOf, named_itemsAll, List.map_map]
  rfl

/-- The elements of a name are found on both sides of a list that is put together. -/
theorem ofName_append (name : String) (es fs : List Element) :
    ofName name (es ++ fs) = ofName name es ++ ofName name fs :=
  List.filter_append es fs

/-- Among elements of one name, a reader finds all by this name and none by another. -/
theorem ofName_of_forall {own : String} {elements : List Element}
    (h : ∀ e ∈ elements, e.name = own) (name : String) :
    ofName name elements = if own = name then elements else [] := by
  split
  case isTrue heq => exact List.filter_eq_self.mpr fun e he => by simp [h e he, heq]
  case isFalse hne => exact List.filter_eq_nil_iff.mpr fun e he => by simp [h e he, hne]

/-- So it is for a list of texts in elements of one name. -/
theorem ofName_texts (own name : String) (items : List String) :
    ofName name (items.map (Element.text own))
      = if own = name then items.map (Element.text own) else [] := by
  have hname : ∀ e ∈ items.map (Element.text own), e.name = own :=
    List.forall_mem_map.mpr fun _ _ => rfl
  exact ofName_of_forall hname name

/-- So it is for an element that may be absent. -/
theorem ofName_present (own name : String) (content : Option String) :
    ofName name (present own content) = if own = name then present own content else [] :=
  ofName_texts own name content.toList

/-! ## The parts of a bundle

Reading undoes writing for each kind of part: a text, a list of texts, a field that may be absent, the stack, the
files that are skipped, and the files that are shown.
-/

/-- The text of an element is what it was written with. -/
theorem textIn_text (name content : String) (level : Nat) :
    textIn ((Element.text name content).content level) = content := by
  simp [Element.content, textIn]

/-- The text of an element between marks is what its sections hold. -/
theorem verbatimIn_verbatim (name content : String) (level : Nat) :
    verbatimIn ((Element.verbatim name content).content level) = content := by
  have hsections : (sections content.toList).flatMap (fun part => part) = content.toList := by
    rw [List.flatMap_id', flatten_sections]
  simp [Element.content, verbatimIn, List.flatMap_append, List.flatMap_assoc, hsections]

/-- The texts of elements are what these were written with. -/
theorem map_textIn_texts (name : String) (items : List String) (level : Nat) :
    (items.map (Element.text name)).map (fun e => textIn (e.content level)) = items := by
  simp [Function.comp_def, textIn_text]

/-- A field that is absent is read as absent, and one that is there as its text. -/
theorem map_textIn_present (name : String) (content : Option String) (level : Nat) :
    (present name content).map (fun e => textIn (e.content level)) = content.toList :=
  map_textIn_texts name content.toList level

/-- The items of a list are read from their elements. -/
theorem textsOf_itemList (name item : String) (items : List String) (level : Nat) :
    textsOf item ((itemList name item items).flatMap (·.content level)) = items := by
  cases items with
  | nil => rfl
  | cons first rest =>
    have hnode : (itemList name item (first :: rest)).flatMap (·.content level)
        = itemsAll (level + 1) ((first :: rest).map (Element.text item)) ++ [.text (newLine level)] := by
      simp [itemList, Element.content]
    rw [hnode, textsOf_itemsAll, ofName_texts, if_pos rfl, map_textIn_texts]

/-- The stack is read from its element. -/
theorem profileOf_profile (p : Stack.Profile) (level : Nat) :
    profileOf ((profile p).content level) = p := by
  obtain ⟨language, framework, styling, validation, testing, patterns⟩ := p
  simp [profileOf, profile, Element.content, textsOf_itemsAll, ofName_append, ofName_present, ofName_texts,
    map_textIn_present, map_textIn_texts, -List.map_map]

/-- Pins and prohibitions stand in one element, under two names. -/
theorem textsOf_constraints (b : Bundle) (level : Nat) :
    textsOf "tech" ((constraints b).flatMap (·.content level)) = b.pins ∧
      textsOf "negative" ((constraints b).flatMap (·.content level)) = b.prohibitions := by
  rw [constraints]
  split
  case isTrue hnone =>
    rw [Bool.and_eq_true, List.isEmpty_iff, List.isEmpty_iff] at hnone
    rw [hnone.1, hnone.2]
    exact ⟨rfl, rfl⟩
  case isFalse =>
    simp [Element.content, textsOf_itemsAll, ofName_append, ofName_texts, map_textIn_texts, -List.map_map]

/-- Reading undoes writing for each item of a list if it does for one. -/
theorem mapM_map_eq_some {α β : Type} {write : α → β} {read : β → Option α}
    (h : ∀ a, read (write a) = some a) (items : List α) :
    (items.map write).mapM read = some items := by
  have hpure : read ∘ write = fun a => pure a := funext h
  rw [List.mapM_map, hpure, List.mapM_pure, List.map_id']
  rfl

/-- The skipped files are read from their elements. -/
theorem mapM_skippedFile? (files : List SkippedFile) (level : Nat) :
    (named "file" ((skipped files).flatMap (·.content level))).mapM skippedFile? = some files := by
  let element (file : SkippedFile) := Element.empty "file" [("path", file.path), ("reason", file.reason)]
  have hname : ∀ e ∈ files.map element, e.name = "file" := List.forall_mem_map.mpr fun _ _ => rfl
  have hread : ∀ file,
      skippedFile? ((element file).attrs, (element file).content (level + 1)) = some file := fun _ => rfl
  cases files with
  | nil => rfl
  | cons first rest =>
    have hnode : (skipped (first :: rest)).flatMap (·.content level)
        = itemsAll (level + 1) ((first :: rest).map element) ++ [.text (newLine level)] := by
      simp [skipped, Element.content, element]
    rw [hnode, named_itemsAll, ofName_of_forall hname, if_pos rfl, List.map_map]
    exact mapM_map_eq_some hread (first :: rest)

/-- A number is read from its digits. -/
theorem number?_repr (n : Nat) : number? n.repr = some n := by
  have hlist : n.repr.toList = Nat.toDigits 10 n := Nat.toList_repr
  have hne : Nat.toDigits 10 n ≠ [] := Nat.toDigits_ne_nil
  have hdigits : (Nat.toDigits 10 n).all (·.isDigit) = true :=
    List.all_eq_true.mpr fun c hc => Nat.isDigit_of_mem_toDigits (Nat.zero_lt_succ 9) (Nat.le_refl 10) hc
  rw [number?, hlist, if_pos ⟨hne, hdigits⟩, Nat.ofDigitChars_ten_toDigits]

theorem role?_name (role : Role) : role? role.name = some role := by
  cases role <;> rfl

theorem mode?_name (mode : Mode) : mode? mode.name = some mode := by
  cases mode <;> rfl

/-- The element of a shown file has the file's attributes, whether it has a content or not. -/
theorem attrs_shown (file : ShownFile) : (shown file).attrs = shownAttributes file := by
  rw [shown_eq]
  cases file.content <;> rfl

/-- What the attributes of a file say, and that those of a hash or number that is absent are missing. -/
theorem lookup_shownAttributes (file : ShownFile) :
    (shownAttributes file).lookup "path" = some file.path ∧
      (shownAttributes file).lookup "role" = some file.role.name ∧
      (shownAttributes file).lookup "mode" = some file.mode.name ∧
      (shownAttributes file).lookup "lines" = some (toString file.lines) ∧
      (shownAttributes file).lookup "hash" = file.hash ∧
      (shownAttributes file).lookup "tokens" = file.tokens.map toString := by
  rw [shownAttributes]
  refine ⟨rfl, rfl, rfl, rfl, ?_, ?_⟩ <;> cases file.hash <;> cases file.tokens <;> rfl

/-- A file without content has no element for it, and an empty one has an empty element. -/
theorem content_shown (file : ShownFile) (level : Nat) :
    (named "content" ((shown file).content level)).head?.map (fun (_, content) => verbatimIn content)
      = file.content := by
  rw [shown_eq]
  cases file.content with
  | none => rfl
  | some content =>
    simp only [Element.content, named_itemsAll]
    exact congrArg some (verbatimIn_verbatim "content" content (level + 1))

/-- A shown file is read from its element. -/
theorem shownFile?_shown (file : ShownFile) (level : Nat) :
    shownFile? ((shown file).attrs, (shown file).content level) = some file := by
  obtain ⟨hpath, hrole, hmode, hlines, hhash, htokens⟩ := lookup_shownAttributes file
  have hnumber : (file.tokens.map toString).mapM number? = some file.tokens := by
    cases file.tokens <;> simp [number?_repr]
  rw [attrs_shown, shownFile?, hpath, hrole, hmode, hlines, hhash, htokens, content_shown]
  simp [role?_name, mode?_name, number?_repr, hnumber]

/-- The shown files are read from their elements, with white space behind them. -/
theorem mapM_shownFile? (files : List ShownFile) (level : Nat) (tail : List Char) :
    (named "file" (itemsAll level (files.map shown) ++ [.text tail])).mapM shownFile? = some files := by
  have hname : ∀ e ∈ files.map shown, e.name = "file" := by
    refine List.forall_mem_map.mpr fun file _ => ?_
    rw [shown_eq]
    cases file.content <;> rfl
  rw [named_itemsAll, ofName_of_forall hname, if_pos rfl, List.map_map]
  exact mapM_map_eq_some (fun file => shownFile?_shown file level) files

/-! ## Bundles

The element of a bundle holds one group of elements for each field, and no two fields have the same name. So what a
reader finds by the name of a field is the group of this field, and all of it; the fields are then read one by one
(`bundleIn?_content`).
-/

/-- Elements by their names: those of one name stand together. -/
abbrev Groups := List (String × List Element)

/-- Whether groups have different names, and their elements have the name of their group. -/
structure Groups.IsKeyed (groups : Groups) : Prop where
  names : ∀ group ∈ groups, ∀ e ∈ group.2, e.name = group.1
  distinct : (groups.map (·.1)).Nodup

/-- Among groups of different names, the elements of a name are those of its group. -/
theorem ofName_groups {groups : Groups} (h : groups.IsKeyed) (name : String) :
    ofName name (groups.flatMap (·.2)) = (groups.lookup name).getD [] := by
  obtain ⟨hnames, hdistinct⟩ := h
  induction groups with
  | nil => rfl
  | cons group rest ih =>
    obtain ⟨own, elements⟩ := group
    rw [List.map_cons, List.nodup_cons] at hdistinct
    have hown := ofName_of_forall (hnames (own, elements) List.mem_cons_self) name
    have hrest := ih (fun group hgroup => hnames group (List.mem_cons_of_mem _ hgroup)) hdistinct.2
    rw [List.flatMap_cons, ofName_append, hown, hrest, List.lookup_cons]
    by_cases heq : own = name
    · subst heq
      -- No later group has this name, so nothing is added to the first one.
      have hnone : rest.lookup own = none := by
        rw [List.lookup_eq_none_iff]
        intro group hgroup
        rw [bne_iff_ne]
        rintro rfl
        exact hdistinct.1 (List.mem_map.mpr ⟨group, hgroup, rfl⟩)
      simp [hnone]
    · have hne : (name == own) = false := by simpa using Ne.symm heq
      simp [heq, hne]

/-- The elements in the element of a bundle. -/
def groups (b : Bundle) : Groups :=
  [("project", [.text "project" b.project]),
    ("request", present "request" b.request),
    ("profile", b.profile.toList.map profile),
    ("constraints", constraints b),
    ("scope_function", present "scope_function" b.scopeFunction),
    ("activity", itemList "activity" "path" b.activity),
    ("warnings", itemList "warnings" "warning" b.warnings),
    ("files_shown", [.text "files_shown" (toString b.filesShown)]),
    ("total_lines", [.text "total_lines" (toString b.totalLines)]),
    ("skipped", skipped b.skipped),
    ("files", [.node "files" [] (b.files.map shown)])]

/-- What is written for a bundle are its groups, one behind the other. -/
theorem bundle_eq (b : Bundle) : bundle b = .node "context" [] ((groups b).flatMap (·.2)) := by
  simp [bundle, groups]

/-- The groups of a bundle have the names of their fields. -/
theorem isKeyed_groups (b : Bundle) : (groups b).IsKeyed := by
  refine ⟨?_, by simp [groups]⟩
  simp only [groups, List.forall_mem_cons, List.not_mem_nil, false_implies, implies_true, and_true]
  and_intros
  · rfl
  · exact List.forall_mem_map.mpr fun _ _ => rfl
  · exact List.forall_mem_map.mpr fun _ _ => rfl
  · exact forall_mem_ite rfl
  · exact List.forall_mem_map.mpr fun _ _ => rfl
  · exact forall_mem_ite rfl
  · exact forall_mem_ite rfl
  · rfl
  · rfl
  · exact forall_mem_ite rfl
  · rfl

/-- The elements of a bundle that have a name. -/
def group (b : Bundle) (name : String) : List Element := ((groups b).lookup name).getD []

/-- The elements of a name in a bundle are its group. -/
theorem ofName_bundle (b : Bundle) (name : String) :
    ofName name ((groups b).flatMap (·.2)) = group b name :=
  ofName_groups (isKeyed_groups b) name

/-- The elements of a name, as the reader finds them. -/
theorem named_content (b : Bundle) (name : String) :
    named name ((bundle b).content 0) = (group b name).map fun e => (e.attrs, e.content 1) := by
  rw [bundle_eq, Element.content, named_itemsAll, ofName_bundle]

/-- The texts of the elements of a name, as the reader finds them. -/
theorem textsOf_content (b : Bundle) (name : String) :
    textsOf name ((bundle b).content 0) = (group b name).map fun e => textIn (e.content 1) := by
  rw [bundle_eq, Element.content, textsOf_itemsAll, ofName_bundle]

/-- What stands in the elements of a name, as the reader finds it. -/
theorem within_content (b : Bundle) (name : String) :
    within name ((bundle b).content 0) = (group b name).flatMap (·.content 1) := by
  rw [bundle_eq, Element.content, within_itemsAll, ofName_bundle]

/-- What is read in the element of a bundle is the bundle. -/
theorem bundleIn?_content (b : Bundle) : bundleIn? ((bundle b).content 0) = some b := by
  -- From here on only the groups count, each of which is looked up by computation.
  have hnamed := named_content b
  have htexts := textsOf_content b
  have hwithin := within_content b
  generalize (bundle b).content 0 = items at hnamed htexts hwithin
  have hproject : textsOf "project" items = [b.project] :=
    (htexts "project").trans (map_textIn_texts "project" [b.project] 1)
  have hrequest : textsOf "request" items = b.request.toList :=
    (htexts "request").trans (map_textIn_present "request" b.request 1)
  have hprofile : (named "profile" items).head?.map (fun (_, content) => profileOf content)
      = b.profile := by
    have hgroup : group b "profile" = b.profile.toList.map profile := rfl
    rw [hnamed, hgroup]
    cases b.profile with
    | none => rfl
    | some p => exact congrArg some (profileOf_profile p 1)
  have hconstraints : textsOf "tech" (within "constraints" items) = b.pins ∧
      textsOf "negative" (within "constraints" items) = b.prohibitions := by
    rw [hwithin]
    exact textsOf_constraints b 1
  have hfunction : textsOf "scope_function" items = b.scopeFunction.toList :=
    (htexts "scope_function").trans (map_textIn_present "scope_function" b.scopeFunction 1)
  have hactivity : textsOf "path" (within "activity" items) = b.activity := by
    rw [hwithin]
    exact textsOf_itemList "activity" "path" b.activity 1
  have hwarnings : textsOf "warning" (within "warnings" items) = b.warnings := by
    rw [hwithin]
    exact textsOf_itemList "warnings" "warning" b.warnings 1
  have hfilesShown : textsOf "files_shown" items = [b.filesShown.repr] :=
    (htexts "files_shown").trans (map_textIn_texts "files_shown" [b.filesShown.repr] 1)
  have htotalLines : textsOf "total_lines" items = [b.totalLines.repr] :=
    (htexts "total_lines").trans (map_textIn_texts "total_lines" [b.totalLines.repr] 1)
  have hskipped : (named "file" (within "skipped" items)).mapM skippedFile? = some b.skipped := by
    rw [hwithin]
    exact mapM_skippedFile? b.skipped 1
  have hfiles : (named "file" (within "files" items)).mapM shownFile? = some b.files := by
    have hgroup : group b "files" = [.node "files" [] (b.files.map shown)] := rfl
    rw [hwithin, hgroup, List.flatMap_singleton, Element.content]
    exact mapM_shownFile? b.files 2 (newLine 1)
  rw [bundleIn?, hproject, hrequest, hprofile, hconstraints.1, hconstraints.2, hfunction, hactivity,
    hwarnings, hfilesShown, htotalLines, hskipped, hfiles]
  simp [number?_repr]

/-- A bundle is read from its document. -/
theorem bundle?_render (b : Bundle) : bundle? (render b).toList = some b := by
  have hname : (bundle b).name = "context" := rfl
  rw [bundle?, render, items?_document (isNamed_bundle b), hname, Option.bind_eq_bind, Option.bind_some]
  have hcontext (attrs : List Attribute) (content : List Item) : within "context"
      [.text [], .text (newLine 0), .element "context" attrs content, .text []] = content := by
    simp [within, named]
  rw [hcontext, bundleIn?_content]

/-! ## Contents

That contents have no influence on the tags is said by comparison: the tags of a bundle are those of the same
bundle with nothing in its files. A file without content has no element for it, so it is not emptied.
-/

/-- A file with nothing in it where it has a content. -/
def emptiedFile (file : ShownFile) : ShownFile := { file with content := file.content.map fun _ => "" }

/-- A bundle with nothing in its files. -/
def emptied (b : Bundle) : Bundle := { b with files := b.files.map emptiedFile }

/-- The tags of a file do not depend on what is in it. -/
theorem tags_shown (file : ShownFile) : (shown (emptiedFile file)).tags = (shown file).tags := by
  obtain ⟨path, role, mode, lines, hash, tokens, content⟩ := file
  cases content <;> rfl

theorem tagsAll_shown (files : List ShownFile) :
    tagsAll ((files.map emptiedFile).map shown) = tagsAll (files.map shown) := by
  simp [tagsAll_eq_flatMap, List.flatMap_map, tags_shown]

/-- The contents of files add no tag to a bundle and take none away. -/
theorem tags_bundle (b : Bundle) : (bundle (emptied b)).tags = (bundle b).tags := by
  have hfiles : tagsAll ((emptied b).files.map shown) = tagsAll (b.files.map shown) :=
    tagsAll_shown b.files
  simp only [bundle, Element.tags, tagsAll_append, tagsAll, hfiles]
  rfl

/--
A reader recovers a bundle from what is written for it, and the tags that it meets on the way are those of the
bundle with nothing in its files.
-/
theorem render_isRecoverable (b : Bundle) :
    bundle? (render b).toList = some b ∧
      ∃ tags, tags? (render b).toList = some tags ∧ tags? (render (emptied b)).toList = some tags := by
  refine ⟨bundle?_render b, declarationInside :: (bundle b).tags, ?_, ?_⟩
  · exact tags?_document (isNamed_bundle b)
  · rw [← tags_bundle]
    exact tags?_document (isNamed_bundle (emptied b))

end RepoScope.Render.XmlText
