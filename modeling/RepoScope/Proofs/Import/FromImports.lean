import RepoScope.Proofs.Import.Reading

/-!
# Imports of names from a module

A statement `from module import names` (`FromImport`) is read by one pattern. Up to its list it is matched in one way
(`exists_matchAt_fromStatement`). Behind `import` the pattern goes on if it finds a list there
(`exists_matchAt_listPattern`, `matchAt_listPattern_eq_none`), so what it captures of the statement can be told from
the grammar (`matchAtStart?_text`). No line of the statement but the first starts an import statement
(`quietBelow_text`).
-/

namespace RepoScope.Import.Python

open Pattern Text

/-! ## Dotted names -/

/-- The text of a dotted name. -/
def dotted (parts : List Name) : List Char := List.intercalate ['.'] (parts.map (·.chars))

theorem dotted_singleton (n : Name) : dotted [n] = n.chars := List.intercalate_singleton

theorem dotted_cons_cons (n m : Name) (more : List Name) :
    dotted (n :: m :: more) = n.chars ++ '.' :: dotted (m :: more) := by
  rw [dotted, List.map_cons, List.map_cons, List.intercalate_cons_cons, List.append_assoc]
  rfl

/-- A dotted name is made of what the pattern takes for the path of a module. -/
theorem isDotted_dotted {parts : List Name} (hne : parts ≠ []) :
    ∀ c ∈ dotted parts, isDotted c = true := by
  have hchars : ∀ n : Name, ∀ c ∈ n.chars, isDotted c = true := by
    intro n c hc
    rw [isDotted, n.isWord c hc, Bool.true_or]
  induction parts with
  | nil => exact absurd rfl hne
  | cons n more ih =>
    cases more with
    | nil => rw [dotted_singleton]; exact hchars n
    | cons m more =>
      rw [dotted_cons_cons]
      refine List.forall_mem_append.mpr ⟨hchars n, ?_⟩
      exact List.forall_mem_cons.mpr ⟨by decide, ih (by simp)⟩

/-- A dotted name starts with a character of a word, and so with neither a gap nor a dot. -/
theorem isWordChar_head?_dotted {parts : List Name} (hne : parts ≠ []) (rest : List Char) :
    ∀ c ∈ (dotted parts ++ rest).head?, isWordChar c = true := by
  obtain ⟨n, more, rfl⟩ := List.exists_cons_of_ne_nil hne
  obtain ⟨tail, htail⟩ : ∃ tail, dotted (n :: more) ++ rest = n.chars ++ tail := by
    cases more with
    | nil => exact ⟨rest, by rw [dotted_singleton]⟩
    | cons m more => exact ⟨_, by rw [dotted_cons_cons, List.append_assoc]⟩
  obtain ⟨c, tail', happend, hc⟩ := n.exists_append tail
  rw [htail, happend]
  exact forall_head?_cons hc tail'

theorem Name.toList_part (n : Name) : n.part.toList = n.chars := String.toList_ofList

/-- Different names are different parts of a path. -/
theorem Name.part_injective : Function.Injective Name.part := by
  intro n m h
  have hchars : n.chars = m.chars := by rw [← n.toList_part, h, m.toList_part]
  obtain ⟨chars, _, _, _⟩ := n
  obtain ⟨chars', _, _, _⟩ := m
  obtain rfl : chars = chars' := hchars
  rfl

/--
A name of the grammar is a name that a path can hold: it is neither empty nor made of dots, and has no slash.
-/
theorem Name.isName_part (n : Name) : Path.IsName n.part := by
  have hno : ∀ {c : Char}, isWordChar c = false → c ∉ n.chars := by
    intro c hc hmem
    rw [n.isWord c hmem] at hc
    exact absurd hc (by decide)
  have hdot : '.' ∉ n.part.toList := n.toList_part ▸ hno (by decide)
  refine ⟨?_, ?_, ?_, n.toList_part ▸ hno (by decide)⟩
  · intro h
    exact n.ne_nil (by rw [← n.toList_part, h]; rfl)
  · intro h
    exact hdot (by rw [h]; decide)
  · intro h
    exact hdot (by rw [h]; decide)

/-- The path of a dotted name joins its parts. -/
theorem modulePath_dotted (parts : List Name) :
    modulePath (dotted parts) = Path.join (parts.map (·.part)) := by
  have hchars : ∀ n : Name, replaceChar '.' '/' n.chars = n.chars := by
    intro n
    refine (List.map_congr_left fun c hc => if_neg ?_).trans (List.map_id _)
    rintro rfl
    exact absurd (n.isWord _ hc) (by decide)
  have hparts : replaceChar '.' '/' (dotted parts) = List.intercalate ['/'] (parts.map (·.chars)) := by
    induction parts with
    | nil => rfl
    | cons n more ih =>
      cases more with
      | nil => rw [dotted_singleton, hchars, List.map_singleton, List.intercalate_singleton]
      | cons m more =>
        rw [dotted_cons_cons, List.map_cons, List.map_cons, List.intercalate_cons_cons,
          ← List.map_cons, ← ih, List.append_assoc]
        simp only [replaceChar, List.map_append, List.map_cons]
        rw [← replaceChar, hchars]
        rfl
  rw [modulePath, hparts, Path.join, List.map_map]
  exact congrArg (fun texts => String.ofList (List.intercalate ['/'] texts))
    (List.map_congr_left fun n _ => n.toList_part.symm)

/-! ## Statements

A statement is cut where the pattern moves from one of its parts to the next. The list has its own grammar
(`ImportList`), which starts behind `import` and so holds the gaps before the first name.
-/

/-- Gaps that keep two words apart. -/
structure Gap where
  text : List Char
  ne_nil : text ≠ []
  all : ∀ c ∈ text, isGap c = true

/-- A statement that imports names from a module, which leading dots may stand before. -/
structure FromImport where
  indent : List Char
  isGap_indent : ∀ c ∈ indent, isGap c = true
  behindFrom : Gap
  dots : Nat
  parts : List Name
  parts_ne_nil : parts ≠ []
  beforeImport : Gap
  list : ImportList

namespace FromImport

/-- The statement up to the word `import`. -/
def head (s : FromImport) : List Char :=
  s.indent ++ ("from".toList ++ (s.behindFrom.text ++ (List.replicate s.dots '.' ++
    (dotted s.parts ++ (s.beforeImport.text ++ "import".toList)))))

/-- The statement as it is written. -/
def text (s : FromImport) : List Char := s.head ++ s.list.text

/-! ## Reading a statement

All parts of the pattern up to `import` fit in one way, since each run ends where a character of another class
follows. Behind `import`, the pattern takes at least one gap, perhaps a parenthesis, and at least one listed
character. Gaps are listed characters, so where nothing else is listed the run of gaps gives its last one back, and
this is taken for the list: that is why two gaps are needed then (`opensList_iff`).
-/

/-- The part of the pattern that takes a list, behind the gaps. -/
def namesPattern : Pattern := optional (lit "(") ++ captured (run1 isListed)

/-- The part of the pattern that stands behind `import`. -/
def listPattern : Pattern := many1 isGap ++ namesPattern

/-- Nothing is captured where no listed character stands. -/
theorem matchAt_captured_run1_eq_none {k : Cursor → Option Cursor} {c : Cursor}
    (hc : ∀ x ∈ c.rest.head?, isListed x = false) :
    (captured (run1 isListed)).matchAt k c = none := by
  rw [matchAt, matchAt_run1_eq_none hc]

section

variable {c : Cursor} {names rest : List Char} (hc : listStart c.rest = names ++ rest)
  (hnames : ∀ x ∈ names, isListed x = true) (hrest : ∀ x ∈ rest.head?, isListed x = false)

include hc hnames hrest

/-- Behind the gaps, the names are captured, whether a parenthesis stands before them or not. -/
theorem matchAt_namesPattern (hne : names ≠ []) :
    ∃ d, namesPattern.matchAt some c = some d ∧ d.captures = names :: c.captures := by
  have hcaptured : ∀ {e : Cursor}, e.rest = names ++ rest →
      (captured (run1 isListed)).matchAt some e = some (e.afterCaptured names rest) := fun he =>
    matchAt_captured he fun _ => matchAt_run1 he hne hnames hrest
  rw [namesPattern, matchAt_append, matchAt_optional]
  unfold listStart at hc
  split at hc
  · next text htext =>
    have hparen : c.rest = "(".toList ++ text := htext
    rw [matchAt_lit hparen, hcaptured hc]
    exact ⟨_, rfl, rfl⟩
  · next text hother =>
    have hparen : ¬"(".toList <+: c.rest := fun ⟨text, htext⟩ => hother text htext.symm
    rw [matchAt_lit_eq_none hparen, hcaptured hc]
    exact ⟨_, rfl, rfl⟩

/-- Behind the gaps, the pattern fails if no listed character stands there. -/
theorem matchAt_namesPattern_eq_none (hnil : names = []) : namesPattern.matchAt some c = none := by
  subst hnil
  rw [List.nil_append] at hc
  rw [namesPattern, matchAt_append, matchAt_optional]
  unfold listStart at hc
  split at hc
  · next text htext =>
    have hparen : c.rest = "(".toList ++ text := htext
    rw [matchAt_lit hparen, matchAt_captured_run1_eq_none (by simpa [hc] using hrest),
      matchAt_captured_run1_eq_none (by rw [htext]; simp; decide)]
    rfl
  · next text hother =>
    have hparen : ¬"(".toList <+: c.rest := fun ⟨text, htext⟩ => hother text htext.symm
    rw [matchAt_lit_eq_none hparen, matchAt_captured_run1_eq_none (by simpa [hc] using hrest)]
    rfl

end

/-- A text has no listed character first if it has none behind a parenthesis that it may start with. -/
theorem isListed_head?_of_listStart {text : List Char}
    (h : ∀ x ∈ (listStart text).head?, isListed x = false) :
    ∀ x ∈ text.head?, isListed x = false := by
  intro x hx
  obtain ⟨more, rfl⟩ := List.head?_eq_some_iff.mp hx
  by_cases hparen : x = '('
  · rw [hparen]
    decide
  · rw [listStart_of_ne hparen] at h
    exact h x rfl

section

variable {gaps more names rest : List Char} (hgaps : ∀ x ∈ gaps, isGap x = true)
  (hmore : ∀ x ∈ more.head?, isGap x = false) (hstart : listStart more = names ++ rest)
  (hnames : ∀ x ∈ names, isListed x = true) (hrest : ∀ x ∈ rest.head?, isListed x = false)

include hgaps hmore hstart hnames hrest

/-- The pattern finds a list behind two gaps, and behind one if a listed character follows. -/
theorem opensList_iff :
    opensList (gaps ++ more) = true ↔
      gaps ≠ [] ∧ (names = [] → ∃ x front, gaps = x :: front ∧ front ≠ []) := by
  rw [opensList, takeWhile_append_exact hgaps hmore, dropWhile_append_exact hgaps hmore, hstart]
  cases gaps with
  | nil => simp
  | cons x gaps =>
    cases gaps with
    | nil =>
      cases names with
      | nil =>
        cases rest with
        | nil => simp
        | cons y rest => simpa using hrest y rfl
      | cons y names => simpa using hnames y List.mem_cons_self
    | cons y gaps => simp

/-- The list is read from its start behind the gaps, as far as listed characters go. -/
theorem readList_eq : readList (gaps ++ more) = listed names := by
  rw [readList, dropWhile_append_exact hgaps hmore, hstart, readNames,
    takeWhile_append_exact hnames hrest]

end

/-- A list that the pattern finds is captured as far as it is read. -/
theorem exists_matchAt_listPattern {c : Cursor} (h : opensList c.rest = true) :
    ∃ d names, listPattern.matchAt some c = some d ∧ d.captures = names :: c.captures ∧
      listed names = readList c.rest := by
  obtain ⟨gaps, more, hsplit, hgaps, hmore⟩ := exists_span isGap c.rest
  obtain ⟨names, rest, hstart, hnames, hrest⟩ := exists_span isListed (listStart more)
  have hread := readList_eq hgaps hmore hstart hnames hrest
  rw [hsplit] at h ⊢
  rw [hread]
  obtain ⟨hne, htwo⟩ := (opensList_iff hgaps hmore hstart hnames hrest).mp h
  by_cases hnil : names = []
  · -- Nothing is listed behind the gaps, so the last gap is taken for the list.
    obtain ⟨x, front, rfl, hfront⟩ := htwo hnil
    obtain hnone | ⟨front, z, rfl⟩ := front.eq_nil_or_concat'
    · exact absurd hnone hfront
    · have hgap : isGap z = true := hgaps z (by simp)
      have hstop : ∀ y ∈ more.head?, isListed y = false := by
        rw [hnil, List.nil_append] at hstart
        exact isListed_head?_of_listStart (hstart ▸ hrest)
      have hparen : listStart (z :: more) = [z] ++ more :=
        listStart_of_ne (fun heq => absurd (heq ▸ hgap) (by decide)) more
      have hend := matchAt_namesPattern_eq_none (c := c.after (x :: (front ++ [z])) more) hstart hnames
        hrest hnil
      obtain ⟨d, hd, hcaptures⟩ := matchAt_namesPattern (c := c.after (x :: front) (z :: more)) hparen
        (by simpa using isListed_of_isGap hgap) hstop (by simp)
      refine ⟨d, [z], ?_, hcaptures, ?_⟩
      · have hsplit' : c.rest = (x :: front) ++ z :: more := by simp [hsplit]
        rw [← List.cons_append] at hgaps
        exact matchAt_many1_of_last hsplit' (by simp)
          (fun y hy => hgaps y (List.mem_append_left _ hy)) hgap hmore hend hd
      · rw [hnil]
        rcases isGap_iff.mp hgap with rfl | rfl <;> decide
  · obtain ⟨d, hd, hcaptures⟩ := matchAt_namesPattern (c := c.after gaps more) hstart hnames hrest hnil
    exact ⟨d, names, matchAt_many1_of_end hsplit hne hgaps hmore hd, hcaptures, rfl⟩

/-- Where the pattern finds no list behind `import`, it does not match. -/
theorem matchAt_listPattern_eq_none {c : Cursor} (h : opensList c.rest = false) :
    listPattern.matchAt some c = none := by
  obtain ⟨gaps, more, hsplit, hgaps, hmore⟩ := exists_span isGap c.rest
  obtain ⟨names, rest, hstart, hnames, hrest⟩ := exists_span isListed (listStart more)
  rw [hsplit, ← Bool.not_eq_true, opensList_iff hgaps hmore hstart hnames hrest] at h
  rw [listPattern, matchAt_append]
  match gaps with
  | [] =>
    rw [many1, matchAt_append]
    exact matchAt_one_eq_none (by rw [hsplit]; exact hmore)
  | [x] =>
    have hnil : names = [] := by
      by_contra hne
      exact h ⟨by simp, fun hnil => absurd hnil hne⟩
    rw [matchAt_many1_of_single hsplit (hgaps x (by simp)) hmore]
    exact matchAt_namesPattern_eq_none (c := c.after [x] more) hstart hnames hrest hnil
  | x :: y :: gaps => exact absurd ⟨by simp, fun _ => ⟨x, y :: gaps, rfl, by simp⟩⟩ h

/-- Up to its list, a statement is matched in one way. -/
theorem exists_matchAt_fromStatement (s : FromImport) (rest : List Char) :
    ∃ c : Cursor,
      fromStatement.matchAt some (Cursor.ofText (s.head ++ rest)) = listPattern.matchAt some c ∧
        c.rest = rest ∧ c.captures = [dotted s.parts, List.replicate s.dots '.'] := by
  -- Each run of the pattern ends where it should: no dot starts the module, no gap follows `from`, and the
  -- gap behind the module is no part of it.
  have hmodule := isWordChar_head?_dotted s.parts_ne_nil
  have hdot : ∀ more, ∀ c ∈ (dotted s.parts ++ more).head?, (c == '.') = false := by
    intro more c hc
    by_contra heq
    obtain rfl : c = '.' := by simpa using heq
    exact absurd (hmodule more _ hc) (by decide)
  have hdots : ∀ more, ∀ c ∈ (List.replicate s.dots '.' ++ (dotted s.parts ++ more)).head?,
      isGap c = false := by
    intro more c hc
    cases hn : s.dots with
    | zero =>
      rw [hn] at hc
      exact isGap_eq_false_of_isWordChar (hmodule more c hc)
    | succ n =>
      obtain rfl : '.' = c := by simpa [hn, List.replicate_succ] using hc
      decide
  have hgap : ∀ more, ∀ c ∈ (s.beforeImport.text ++ more).head?, isDotted c = false := by
    intro more c hc
    obtain ⟨d, gaps, hd⟩ := List.exists_cons_of_ne_nil s.beforeImport.ne_nil
    obtain rfl : d = c := by simpa [hd] using hc
    rcases isGap_iff.mp (s.beforeImport.all d (by simp [hd])) with rfl | rfl <;> decide
  have htext : s.head ++ rest = s.indent ++ ("from".toList ++ (s.behindFrom.text ++
      (List.replicate s.dots '.' ++ (dotted s.parts ++ (s.beforeImport.text ++
        ("import".toList ++ rest)))))) := by
    simp only [head, List.append_assoc]
  rw [htext]
  simp only [fromStatement, matchAt_append]
  -- From here on there is one step for each part of the pattern.
  exact ⟨_, Eq.trans (matchAt_atLineStart rfl) <|
    Eq.trans (matchAt_run rfl s.isGap_indent (forall_head?_cons (by decide) _)) <|
    Eq.trans (matchAt_lit rfl) <|
    Eq.trans (matchAt_run1 rfl s.behindFrom.ne_nil s.behindFrom.all (hdots _)) <|
    Eq.trans (matchAt_captured rfl fun _ => matchAt_run rfl (by simp) (hdot _)) <|
    Eq.trans (matchAt_captured rfl fun _ =>
      matchAt_run rfl (isDotted_dotted s.parts_ne_nil) (hgap _)) <|
    Eq.trans (matchAt_run1 rfl s.beforeImport.ne_nil s.beforeImport.all
      (forall_head?_cons (by decide) _)) <|
    matchAt_lit rfl, rfl, rfl⟩

/-- What the pattern for imports of names reads of a statement. -/
theorem matchAtStart?_text (s : FromImport) {after : List Char} (hafter : EndsStatement after) :
    if s.list.opensOnLine then
      ∃ names, fromStatement.matchAtStart? (s.text ++ after)
          = some [List.replicate s.dots '.', dotted s.parts, names] ∧
        listed names = s.list.namesOnLine.map (·.part)
    else fromStatement.matchAtStart? (s.text ++ after) = none := by
  obtain ⟨c, hmatch, hrest, hcaptures⟩ := s.exists_matchAt_fromStatement (s.list.text ++ after)
  rw [← List.append_assoc, ← text] at hmatch
  have hopens := s.list.opensList_append after
  rw [← hrest] at hopens
  rw [matchAtStart?, hmatch]
  split
  · next h =>
    obtain ⟨d, names, hd, hnames, hread⟩ := exists_matchAt_listPattern (hopens.trans h)
    rw [hrest, s.list.readList_append after hafter] at hread
    refine ⟨names, ?_, hread⟩
    rw [hd, Option.map_some, hnames, hcaptures]
    rfl
  · next h =>
    rw [matchAt_listPattern_eq_none (hopens.trans (by simpa using h)), Option.map_none]

/--
The only keyword at the start of a line of the statement is the `from` of its first line: the others start inside
the list, with the name of an item or with none.
-/
theorem quietBelow_text (s : FromImport) {after : List Char} (hafter : Closes after) :
    QuietBelow after s.text := by
  have hlf : ∀ {gaps : List Char}, (∀ c ∈ gaps, isGap c = true) → '\n' ∉ gaps := fun h hmem =>
    absurd (h _ hmem) (by decide)
  have hdotted : '\n' ∉ dotted s.parts := fun hmem =>
    absurd (isDotted_dotted s.parts_ne_nil _ hmem) (by decide)
  refine quietBelow_append.mpr ⟨quietBelow_of_notMem_lf ?_, s.list.quietBelow hafter⟩
  simp only [head, List.mem_append, not_or]
  exact ⟨hlf s.isGap_indent, by decide, hlf s.behindFrom.all, by simp, hdotted,
    hlf s.beforeImport.all, by decide⟩

/-- The statement starts with `from`. -/
theorem firstName_text (s : FromImport) (rest : List Char) :
    firstName (s.text ++ rest) = "from".toList := by
  obtain ⟨c, gaps, hgap⟩ := List.exists_cons_of_ne_nil s.behindFrom.ne_nil
  have hc : isGap c = true := s.behindFrom.all c (by simp [hgap])
  simp only [text, head, List.append_assoc, hgap, List.cons_append]
  exact firstName_eq s.isGap_indent (List.all_eq_true.mp (by decide))
    (forall_head?_cons (isWordChar_eq_false_of_isGap hc) _) (forall_head?_cons (by decide) _)

end FromImport

end RepoScope.Import.Python
