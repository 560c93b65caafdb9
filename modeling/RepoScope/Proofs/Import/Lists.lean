import RepoScope.Proofs.Import.Statements
import RepoScope.Proofs.Names

/-!
# Lists of names in import statements

What may stand behind `import` where names are imported from a module (`ImportList`): a star, names with commas between
them, or such names in parentheses, where lines may end anywhere between two words. The words before and behind a line
end are names, punctuation or part of a comment, so no line of a list but the first starts an import statement
(`ImportList.quietBelow`).
-/

namespace RepoScope.Import.Python

open Pattern Text

/-! ## Names and the space between them

The grammar is given by structures whose fields are texts with proofs: a name is a word with a proof that it is
one, and a space is a text that the rules derive. So a list has its text by definition, and no text has to be
parsed.
-/

/-- A name: a word other than those that start an import statement. -/
structure Name where
  chars : List Char
  ne_nil : chars ≠ []
  isWord : ∀ c ∈ chars, isWordChar c = true
  isNoKeyword : chars ≠ "from".toList ∧ chars ≠ "import".toList
  deriving DecidableEq

/-- The name as a part of a path. -/
def Name.part (n : Name) : String := String.ofList n.chars

/-- The word in front of the other name that a name gets. -/
def wordAs : Name := ⟨"as".toList, by decide, List.all_eq_true.mp (by decide), by decide⟩

/-- The ends of a line. -/
def lineEnds : List (List Char) := [['\n'], ['\r', '\n'], ['\r']]

/-- There are three ways to end a line. -/
theorem mem_lineEnds_iff {stop : List Char} :
    stop ∈ lineEnds ↔ stop = ['\n'] ∨ stop = ['\r', '\n'] ∨ stop = ['\r'] := by
  simp [lineEnds]

/-- The blanks of the grammar: gaps and the form feed. -/
def spaceChars : List Char := [' ', '\t', '\x0c']

/-- A blank of the grammar is a gap or a form feed. -/
theorem mem_spaceChars_iff {c : Char} : c ∈ spaceChars ↔ isGap c = true ∨ c = '\x0c' := by
  rw [isGap_iff, or_assoc]
  simp [spaceChars]

/--
What may stand between two words of a statement: blanks and line ends behind a backslash, and in parentheses also
bare line ends, with comments before them.
-/
inductive IsSpace (enclosed : Bool) : List Char → Prop
  | nil : IsSpace enclosed []
  | blank {c : Char} {rest : List Char} (hc : c ∈ spaceChars) (hrest : IsSpace enclosed rest) :
      IsSpace enclosed (c :: rest)
  | joined {stop rest : List Char} (hstop : stop ∈ lineEnds) (hrest : IsSpace enclosed rest) :
      IsSpace enclosed ('\\' :: (stop ++ rest))
  | lineEnd {stop rest : List Char} (h : enclosed = true) (hstop : stop ∈ lineEnds)
      (hrest : IsSpace enclosed rest) : IsSpace enclosed (stop ++ rest)
  | comment {remark stop rest : List Char} (h : enclosed = true)
      (hremark : '\n' ∉ remark ∧ '\r' ∉ remark) (hstop : stop ∈ lineEnds)
      (hrest : IsSpace enclosed rest) : IsSpace enclosed ('#' :: (remark ++ (stop ++ rest)))

/-- A text between two words. -/
structure Space (enclosed : Bool) where
  text : List Char
  isSpace : IsSpace enclosed text

/-- Whether a space is made of gaps only. -/
def Space.isFlat {enclosed : Bool} (s : Space enclosed) : Bool := s.text.all isGap

/-! ## Lists

A list is a star, names without parentheses or names in parentheses. The parameter `enclosed` of names and spaces
says whether lines may end between words without a backslash.
-/

/-- The other name that a name of a list gets, with the word before it. -/
structure OtherName (enclosed : Bool) where
  before : Space enclosed
  before_ne_nil : before.text ≠ []
  after : Space enclosed
  after_ne_nil : after.text ≠ []
  name : Name

/-- A name in a list, with the space around it. -/
structure Item (enclosed : Bool) where
  front : Space enclosed
  name : Name
  other : Option (OtherName enclosed)
  back : Space enclosed

variable {enclosed : Bool}

def OtherName.text (o : OtherName enclosed) : List Char :=
  o.before.text ++ (wordAs.chars ++ (o.after.text ++ o.name.chars))

/-- Whether another name stands on the line of what is before it. -/
def OtherName.isFlat (o : OtherName enclosed) : Bool := o.before.isFlat && o.after.isFlat

/-- What follows the name in an item. -/
def Item.tail (i : Item enclosed) : List Char := (i.other.map (·.text)).getD [] ++ i.back.text

/-- Whether all that follows the name in an item stands on its line. -/
def Item.isFlat (i : Item enclosed) : Bool := i.other.all (·.isFlat) && i.back.isFlat

def Item.text (i : Item enclosed) : List Char := i.front.text ++ (i.name.chars ++ i.tail)

/-- The items of a list behind its first, each behind a comma. -/
def moreText (more : List (Item enclosed)) : List Char :=
  more.flatMap fun i => ',' :: i.text

/-- The names of the items that stand on one line with all that is before them. -/
def flatNames : List (Item enclosed) → List Name
  | [] => []
  | i :: more =>
    if i.front.isFlat then i.name :: (if i.isFlat then flatNames more else []) else []

/-- The comma that may follow the last name in parentheses, with the space behind it. -/
def commaText : Option (Space true) → List Char
  | none => []
  | some space => ',' :: space.text

/-- What may stand behind `import`. -/
inductive ImportList where
  | star (front back : Space false)
  | bare (first : Item false) (more : List (Item false)) (hfront : first.front.text ≠ [])
  | inParens (front : Space false) (first : Item true) (more : List (Item true))
      (comma : Option (Space true)) (back : Space false)

namespace ImportList

def text : ImportList → List Char
  | star front back => front.text ++ '*' :: back.text
  | bare first more _ => first.text ++ moreText more
  | inParens front first more comma back =>
    front.text ++ '(' :: (first.text ++ (moreText more ++ (commaText comma ++ ')' :: back.text)))

/-- The names in the list. -/
def names : ImportList → List Name
  | star _ _ => []
  | bare first more _ => (first :: more).map (·.name)
  | inParens _ first more _ _ => (first :: more).map (·.name)

/-- The names that stand with all that is before them on the line of `import`. -/
def namesOnLine : ImportList → List Name
  | star _ _ => []
  | bare first more _ => flatNames (first :: more)
  | inParens front first more _ _ => if front.isFlat then flatNames (first :: more) else []

end ImportList

/-! ## Below the first line

That a line starts no import statement is a property of the words that it starts with, and it has to be known of
every line of the list. Each part of the grammar is shown to be quiet below its first line, whatever quiet text
follows; the rest of the list is such a text, and what follows a statement is as well.
-/

/-- Whether a text does not go on with a word. -/
def Ends (text : List Char) : Prop := ∀ c ∈ text.head?, isWordChar c = false

/-- What closes a statement does not go on with a word. -/
theorem Closes.ends {text : List Char} (h : Closes text) : Ends text := fun c hc => (h c hc).2

namespace Name

variable (n : Name)

theorem exists_append (rest : List Char) :
    ∃ c more, n.chars ++ rest = c :: more ∧ isWordChar c = true := by
  obtain ⟨c, chars, hc⟩ := List.exists_cons_of_ne_nil n.ne_nil
  exact ⟨c, chars ++ rest, by rw [hc, List.cons_append], n.isWord c (by simp [hc])⟩

/-- A name starts with no gap. -/
theorem isGap_head?_append (rest : List Char) : ∀ c ∈ (n.chars ++ rest).head?, isGap c = false := by
  obtain ⟨c, more, happend, hc⟩ := n.exists_append rest
  rw [happend]
  exact forall_head?_cons (isGap_eq_false_of_isWordChar hc) more

theorem isQuiet {rest : List Char} (hrest : Ends rest) : IsQuiet (n.chars ++ rest) := by
  have hname : firstName ([] ++ (n.chars ++ rest)) = n.chars :=
    firstName_eq (by simp) n.isWord hrest (n.isGap_head?_append rest)
  rw [IsQuiet, show firstName (n.chars ++ rest) = n.chars from hname]
  exact n.isNoKeyword

theorem quietBelow (rest : List Char) : QuietBelow rest n.chars :=
  quietBelow_of_notMem_lf fun hlf => absurd (n.isWord _ hlf) (by decide)

end Name

/-- A line end is followed by a line, and what that starts with has to be quiet. -/
theorem quietBelow_lineEnd {stop rest : List Char} (hstop : stop ∈ lineEnds)
    (hrest : IsQuiet rest) : QuietBelow rest stop := by
  rcases mem_lineEnds_iff.mp hstop with rfl | rfl | rfl
  · exact ⟨fun _ => hrest, trivial⟩
  · exact (quietBelow_cons (by decide)).mpr ⟨fun _ => hrest, trivial⟩
  · exact (quietBelow_cons (by decide)).mpr trivial

/-- A line end closes what stands before it. -/
theorem closes_lineEnd {stop : List Char} (hstop : stop ∈ lineEnds) (rest : List Char) :
    Closes (stop ++ rest) := by
  rcases mem_lineEnds_iff.mp hstop with rfl | rfl | rfl
  all_goals exact closes_cons (by decide) (by decide) _

namespace Space

variable (s : Space enclosed)

theorem quiet {rest : List Char} (hrest : IsQuiet rest) :
    IsQuiet (s.text ++ rest) ∧ QuietBelow rest s.text := by
  obtain ⟨text, hspace⟩ := s
  dsimp only
  -- One case for each thing a space may start with; the hypothesis is about what comes behind it.
  induction hspace with
  | nil => exact ⟨hrest, trivial⟩
  | @blank c text hc _ ih =>
    refine ⟨?_, fun h => absurd hc (by rw [h]; decide), ih.2⟩
    rcases mem_spaceChars_iff.mp hc with hgap | rfl
    · exact (isQuiet_cons hgap).mpr ih.1
    · exact (closes_cons (by decide) (by decide) _).isQuiet
  | joined hstop _ ih =>
    refine ⟨(closes_cons (by decide) (by decide) _).isQuiet, (quietBelow_cons (by decide)).mpr ?_⟩
    exact quietBelow_append.mpr ⟨quietBelow_lineEnd hstop ih.1, ih.2⟩
  | lineEnd _ hstop _ ih =>
    rw [List.append_assoc]
    exact ⟨(closes_lineEnd hstop _).isQuiet,
      quietBelow_append.mpr ⟨quietBelow_lineEnd hstop ih.1, ih.2⟩⟩
  | comment _ hremark hstop _ ih =>
    refine ⟨(closes_cons (by decide) (by decide) _).isQuiet, (quietBelow_cons (by decide)).mpr ?_⟩
    exact quietBelow_append.mpr ⟨quietBelow_of_notMem_lf hremark.1,
      quietBelow_append.mpr ⟨quietBelow_lineEnd hstop ih.1, ih.2⟩⟩

theorem ends : Ends s.text := by
  obtain ⟨text, hspace⟩ := s
  cases hspace with
  | nil => simp [Ends]
  | blank hc _ =>
    rcases mem_spaceChars_iff.mp hc with hgap | rfl
    · exact forall_head?_cons (isWordChar_eq_false_of_isGap hgap) _
    · exact forall_head?_cons (by decide) _
  | joined _ _ => exact (closes_cons (by decide) (by decide) _).ends
  | lineEnd _ hstop _ => exact (closes_lineEnd hstop _).ends
  | comment _ _ _ _ => exact (closes_cons (by decide) (by decide) _).ends

/-- A space does not go on with a word, unless it is empty and what follows does. -/
theorem ends_append {rest : List Char} (hrest : s.text = [] → Ends rest) : Ends (s.text ++ rest) := by
  have hends := s.ends
  cases htext : s.text with
  | nil => exact hrest htext
  | cons c text => rwa [htext] at hends

end Space

/-- Another name comes behind a word of its own, with a space before it. -/
theorem OtherName.ends (o : OtherName enclosed) (rest : List Char) : Ends (o.text ++ rest) := by
  rw [OtherName.text, List.append_assoc]
  exact o.before.ends_append fun h => absurd h o.before_ne_nil

theorem OtherName.quietBelow (o : OtherName enclosed) {rest : List Char} (hrest : Ends rest) :
    QuietBelow rest o.text := by
  have hafter := o.after.quiet (o.name.isQuiet hrest)
  have has : IsQuiet (wordAs.chars ++ (o.after.text ++ (o.name.chars ++ rest))) :=
    wordAs.isQuiet (o.after.ends_append fun h => absurd h o.after_ne_nil)
  rw [OtherName.text]
  simp only [quietBelow_append, List.append_assoc]
  exact ⟨(o.before.quiet has).2, wordAs.quietBelow _, hafter.2, o.name.quietBelow _⟩

namespace Item

variable (i : Item enclosed)

/-- An item ends its name. -/
theorem ends_tail {rest : List Char} (hrest : Ends rest) : Ends (i.tail ++ rest) := by
  rw [tail, List.append_assoc]
  cases i.other with
  | none => exact i.back.ends_append fun _ => hrest
  | some o => exact o.ends _

theorem quiet {rest : List Char} (hrest : Closes rest) :
    IsQuiet (i.text ++ rest) ∧ QuietBelow rest i.text := by
  have hback := i.back.quiet hrest.isQuiet
  have htail : QuietBelow rest i.tail := by
    refine quietBelow_append.mpr ⟨?_, hback.2⟩
    cases i.other with
    | none => trivial
    | some o => exact o.quietBelow (i.back.ends_append fun _ => hrest.ends)
  have hfront := i.front.quiet (i.name.isQuiet (i.ends_tail hrest.ends))
  rw [text, List.append_assoc, List.append_assoc]
  refine ⟨hfront.1, quietBelow_append.mpr ⟨?_, quietBelow_append.mpr ⟨i.name.quietBelow _, htail⟩⟩⟩
  rw [List.append_assoc]
  exact hfront.2

end Item

/-- The items behind the first start with a comma. -/
theorem closes_moreText (more : List (Item enclosed)) {rest : List Char} (hrest : Closes rest) :
    Closes (moreText more ++ rest) := by
  cases more with
  | nil => exact hrest
  | cons i more => exact closes_cons (by decide) (by decide) _

/-- No line among the items behind the first starts an import statement. -/
theorem quietBelow_moreText (more : List (Item enclosed)) {rest : List Char} (hrest : Closes rest) :
    QuietBelow rest (moreText more) := by
  induction more with
  | nil => trivial
  | cons i more ih =>
    refine quietBelow_append.mpr ⟨(quietBelow_cons (by decide)).mpr ?_, ih⟩
    exact (i.quiet (closes_moreText more hrest)).2

/-- So does the end of a list with a last comma. -/
theorem closes_commaText (comma : Option (Space true)) {rest : List Char} (hrest : Closes rest) :
    Closes (commaText comma ++ rest) := by
  cases comma with
  | none => exact hrest
  | some space => exact closes_cons (by decide) (by decide) _

theorem quietBelow_commaText (comma : Option (Space true)) {rest : List Char}
    (hrest : Closes rest) : QuietBelow rest (commaText comma) := by
  cases comma with
  | none => trivial
  | some space => exact (quietBelow_cons (by decide)).mpr (space.quiet hrest.isQuiet).2

/-- No line of a list but the first starts an import statement. -/
theorem ImportList.quietBelow (l : ImportList) {after : List Char} (hafter : Closes after) :
    QuietBelow after l.text := by
  have hmark : ∀ {c : Char} {rest : List Char}, isGap c = false → isWordChar c = false →
      Closes (c :: rest) := fun hgap hword => closes_cons hgap hword _
  cases l with
  | star front back =>
    have hstar : Closes ('*' :: back.text ++ after) := hmark (by decide) (by decide)
    exact quietBelow_append.mpr ⟨(front.quiet hstar.isQuiet).2,
      (quietBelow_cons (by decide)).mpr (back.quiet hafter.isQuiet).2⟩
  | bare first more hfront =>
    exact quietBelow_append.mpr
      ⟨(first.quiet (closes_moreText more hafter)).2, quietBelow_moreText more hafter⟩
  | inParens front first more comma back =>
    have hclose : Closes (')' :: back.text ++ after) := hmark (by decide) (by decide)
    have hcomma := closes_commaText comma hclose
    -- From the end of the list to its start: what follows a part closes the part before it.
    have hend : QuietBelow after (')' :: back.text) :=
      (quietBelow_cons (by decide)).mpr (back.quiet hafter.isQuiet).2
    have hrest : QuietBelow after (commaText comma ++ ')' :: back.text) :=
      quietBelow_append.mpr ⟨quietBelow_commaText comma hclose, hend⟩
    have hmore : QuietBelow after (moreText more ++ (commaText comma ++ ')' :: back.text)) := by
      refine quietBelow_append.mpr ⟨?_, hrest⟩
      rw [List.append_assoc]
      exact quietBelow_moreText more hcomma
    have hitems : QuietBelow after
        (first.text ++ (moreText more ++ (commaText comma ++ ')' :: back.text))) := by
      refine quietBelow_append.mpr ⟨?_, hmore⟩
      rw [List.append_assoc, List.append_assoc]
      exact (first.quiet (closes_moreText more hcomma)).2
    exact quietBelow_append.mpr ⟨(front.quiet (hmark (by decide) (by decide)).isQuiet).2,
      (quietBelow_cons (by decide)).mpr hitems⟩

end RepoScope.Import.Python
