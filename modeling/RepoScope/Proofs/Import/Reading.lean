import Mathlib.Data.List.TakeWhile
import RepoScope.Proofs.Import.Lists

/-!
# What is read of a list of names

The pattern for imports of names takes word characters, gaps and commas for the list (`isListed`) and stops at the first
other character. The first word of each piece between commas is a name. A text can be read from its start then: gaps
are passed over (`readNames_gap`), behind a name what is listed is passed over up to the next comma (`readBehind`), and
everything else ends the list. So of a list the names are read that stand on one line with all that is before them
(`ImportList.readList_append`), if the pattern finds the list at all (`ImportList.opensList_append`).
-/

namespace RepoScope.Import.Python

open Pattern Text

/-! ## What is read of a list

What the pattern captures is cut at its commas, and the first word of each piece is a name. The same can be read
off the text from left to right, by `readNames` at the start of a piece and `readBehind` behind a name, and this
form goes along with the grammar: each part of a list either is passed over or ends what is read.
-/

/-- A character that the pattern takes for the names of a list. -/
def isListed (c : Char) : Bool := isWordChar c || isGap c || c == ','

/-- The names that are read at the start of a text. -/
def readNames (text : List Char) : List String := listed (text.takeWhile isListed)

/-- A character that belongs to one name of a list: listed and no comma. -/
def isInPiece (c : Char) : Bool := isListed c && c != ','

/-- The names that are read behind a name at the start of a text: those behind the next comma. -/
def readBehind (text : List Char) : List String := readNames (text.dropWhile isInPiece)

theorem isListed_of_isWordChar {c : Char} (h : isWordChar c = true) : isListed c = true := by
  simp [isListed, h]

theorem isListed_of_isGap {c : Char} (h : isGap c = true) : isListed c = true := by
  simp [isListed, h]

/-- A piece ends at a comma, and where the list does. -/
theorem isInPiece_iff {c : Char} : isInPiece c = true ↔ isListed c = true ∧ c ≠ ',' := by
  simp [isInPiece]

theorem isInPiece_of_isWordChar {c : Char} (h : isWordChar c = true) : isInPiece c = true := by
  refine isInPiece_iff.mpr ⟨isListed_of_isWordChar h, ?_⟩
  rintro rfl
  exact absurd h (by decide)

theorem isInPiece_of_isGap {c : Char} (h : isGap c = true) : isInPiece c = true := by
  refine isInPiece_iff.mpr ⟨isListed_of_isGap h, ?_⟩
  rintro rfl
  exact absurd h (by decide)

/-- Without a comma there is one piece, and its first word is the only name. -/
theorem listed_of_notMem {names : List Char} (h : ',' ∉ names) :
    listed names = ((firstWord? names).map String.ofList).toList := by
  have hpieces : pieces ',' names = [names] := by
    refine piecesBy_of_forall_not fun c hc => ?_
    simpa using fun heq : c = ',' => h (heq ▸ hc)
  rw [listed, hpieces, List.filterMap_cons, List.filterMap_nil]
  cases (firstWord? names).map String.ofList <;> rfl

/-- A comma ends a piece. -/
theorem listed_append_comma {names : List Char} (h : ',' ∉ names) (rest : List Char) :
    listed (names ++ ',' :: rest) = listed names ++ listed rest := by
  have hpieces : pieces ',' (names ++ ',' :: rest) = names :: pieces ',' rest := by
    refine piecesBy_append_sep (fun c hc => ?_) (by simp)
    simpa using fun heq : c = ',' => h (heq ▸ hc)
  rw [listed_of_notMem h, listed, hpieces, List.filterMap_cons, listed]
  cases (firstWord? names).map String.ofList <;> rfl

/-- Nothing is read where the list ends at once. -/
theorem readNames_of_head? {text : List Char} (h : ∀ c ∈ text.head?, isListed c = false) :
    readNames text = [] := by
  cases text with
  | nil => decide
  | cons c text =>
    rw [readNames, List.takeWhile_cons_of_neg (by simp [h c rfl])]
    decide

/-- An empty piece has no name. -/
theorem readNames_comma (text : List Char) : readNames (',' :: text) = readNames text := by
  rw [readNames, List.takeWhile_cons_of_pos (by decide)]
  have hempty : ',' ∉ ([] : List Char) := by simp
  exact listed_append_comma hempty _

/-- Gaps before a word make no difference. -/
theorem firstWord?_cons_gap {c : Char} (hc : isGap c = true) (text : List Char) :
    firstWord? (c :: text) = firstWord? text := by
  have hblank : isBlank c = true := by
    rcases isGap_iff.mp hc with rfl | rfl <;> decide
  rw [firstWord?, firstWord?, trimStart, List.dropWhile_cons_of_pos hblank, trimStart]

/-- What is listed goes up to the next comma in one piece, or ends before it. -/
theorem exists_piece (text : List Char) :
    ∃ piece rest, text = piece ++ rest ∧ (∀ c ∈ piece, isInPiece c = true) ∧
      ((∀ c ∈ rest.head?, isListed c = false) ∨ ∃ more, rest = ',' :: more) := by
  obtain ⟨piece, rest, htext, hpiece, hrest⟩ := exists_span isInPiece text
  refine ⟨piece, rest, htext, hpiece, ?_⟩
  cases rest with
  | nil => exact .inl (by simp)
  | cons c more =>
    by_cases hcomma : c = ','
    · exact .inr ⟨more, by rw [hcomma]⟩
    · exact .inl (forall_head?_cons (by simpa [isInPiece, hcomma] using hrest c rfl) more)

theorem readBehind_append {piece : List Char} (hpiece : ∀ c ∈ piece, isInPiece c = true)
    (rest : List Char) : readBehind (piece ++ rest) = readBehind rest := by
  rw [readBehind, readBehind, List.dropWhile_append_of_pos hpiece]

/-- Nothing is read behind a name if the list ends there. -/
theorem readBehind_of_head? {text : List Char} (h : ∀ c ∈ text.head?, isListed c = false) :
    readBehind text = [] := by
  cases text with
  | nil => decide
  | cons c text =>
    rw [readBehind, List.dropWhile_cons_of_neg (by simp [isInPiece, h c rfl])]
    exact readNames_of_head? h

/-- Behind a comma, names are read again. -/
theorem readBehind_comma (text : List Char) : readBehind (',' :: text) = readNames text := by
  rw [readBehind, List.dropWhile_cons_of_neg (by decide), readNames_comma]

/-- What is read of a text is the first word up to the next comma and what is read behind it. -/
theorem readNames_append {piece rest : List Char} (hpiece : ∀ c ∈ piece, isInPiece c = true)
    (hrest : (∀ c ∈ rest.head?, isListed c = false) ∨ ∃ more, rest = ',' :: more) :
    readNames (piece ++ rest)
      = ((firstWord? piece).map String.ofList).toList ++ readBehind rest := by
  have hcomma : ',' ∉ piece := fun h => (isInPiece_iff.mp (hpiece _ h)).2 rfl
  have hlisted : ∀ c ∈ piece, isListed c = true := fun c hc => (isInPiece_iff.mp (hpiece c hc)).1
  rcases hrest with hstop | ⟨more, rfl⟩
  · rw [readNames, takeWhile_append_exact hlisted hstop, readBehind_of_head? hstop,
      List.append_nil, listed_of_notMem hcomma]
  · rw [readNames, List.takeWhile_append_of_pos hlisted, List.takeWhile_cons_of_pos (by decide),
      listed_append_comma hcomma, readBehind_comma, listed_of_notMem hcomma, readNames]

/-- A gap before a name is passed over. -/
theorem readNames_gap {c : Char} (hc : isGap c = true) (text : List Char) :
    readNames (c :: text) = readNames text := by
  obtain ⟨piece, rest, rfl, hpiece, hrest⟩ := exists_piece text
  have hgap : ∀ d ∈ c :: piece, isInPiece d = true :=
    List.forall_mem_cons.mpr ⟨isInPiece_of_isGap hc, hpiece⟩
  rw [← List.cons_append, readNames_append hgap hrest, readNames_append hpiece hrest,
    firstWord?_cons_gap hc]

/-- A gap behind a name is passed over. -/
theorem readBehind_gap {c : Char} (hc : isGap c = true) (text : List Char) :
    readBehind (c :: text) = readBehind text := by
  have hpiece : ∀ d ∈ [c], isInPiece d = true := by simpa using isInPiece_of_isGap hc
  exact readBehind_append hpiece text

namespace Name

variable (n : Name)

/-- A name is made of what belongs to a piece. -/
theorem isInPiece_chars : ∀ c ∈ n.chars, isInPiece c = true := fun c hc =>
  isInPiece_of_isWordChar (n.isWord c hc)

/-- A name is the first word where it stands, if it ends there. -/
theorem firstWord?_append {rest : List Char} (hrest : ∀ c ∈ rest.head?, isBlank c = true) :
    firstWord? (n.chars ++ rest) = some n.chars := by
  have hword : ∀ c ∈ n.chars, (!isBlank c) = true := by
    intro c hc
    by_contra hblank
    have := isWordChar_eq_false_of_isBlank (by simpa using hblank)
    rw [n.isWord c hc] at this
    exact absurd this (by decide)
  obtain ⟨c, chars, hc⟩ := List.exists_cons_of_ne_nil n.ne_nil
  have htrim : trimStart (n.chars ++ rest) = n.chars ++ rest := by
    rw [hc] at hword ⊢
    exact List.dropWhile_cons_of_neg (by simpa using hword c List.mem_cons_self)
  have htake : (n.chars ++ rest).takeWhile (!isBlank ·) = n.chars :=
    takeWhile_append_exact hword fun c hc => by simp [hrest c hc]
  rw [firstWord?, htrim, htake, if_neg (by simpa using n.ne_nil)]

/-- A name is read, and then what stands behind the next comma. -/
theorem readNames_append {rest : List Char} (hrest : Ends rest) :
    readNames (n.chars ++ rest) = n.part :: readBehind rest := by
  obtain ⟨piece, more, rfl, hpiece, hmore⟩ := exists_piece rest
  have hblank : ∀ c ∈ piece.head?, isBlank c = true := by
    intro c hc
    obtain ⟨piece, rfl⟩ := List.head?_eq_some_iff.mp hc
    have hlisted := isInPiece_iff.mp (hpiece c List.mem_cons_self)
    have hgap : isGap c = true := by simpa [isListed, hrest c rfl, hlisted.2] using hlisted.1
    rcases isGap_iff.mp hgap with rfl | rfl <;> decide
  have hall : ∀ c ∈ n.chars ++ piece, isInPiece c = true :=
    List.forall_mem_append.mpr ⟨n.isInPiece_chars, hpiece⟩
  rw [← List.append_assoc, Python.readNames_append hall hmore, n.firstWord?_append hblank,
    readBehind_append hpiece]
  rfl

theorem readBehind_append (rest : List Char) : readBehind (n.chars ++ rest) = readBehind rest :=
  Python.readBehind_append n.isInPiece_chars rest

end Name

/-! ## What is read of the lists of the grammar

The space between two words of a list is passed over if it is on one line (`Space.isFlat`), and else ends what is
read: it goes on with a backslash, a comment or a line end, of which none is listed. So an item is read if all that
stands before it is flat, and by induction over the items, so are those up to the first line end
(`readNames_items`).
-/

variable {enclosed : Bool}

/-- A space has only gaps, or the pattern stops in it, behind the gaps that it starts with. -/
theorem IsSpace.gaps_or {text : List Char} (h : IsSpace enclosed text) :
    (∀ c ∈ text, isGap c = true) ∨
      ∃ gaps c rest, text = gaps ++ c :: rest ∧ (∀ x ∈ gaps, isGap x = true) ∧
        isListed c = false ∧ c ≠ '(' := by
  have hstop : ∀ {stop rest : List Char}, stop ∈ lineEnds →
      ∃ gaps c more, stop ++ rest = gaps ++ c :: more ∧ (∀ x ∈ gaps, isGap x = true) ∧
        isListed c = false ∧ c ≠ '(' := by
    intro stop rest hstop
    rcases mem_lineEnds_iff.mp hstop with rfl | rfl | rfl <;>
      exact ⟨[], _, _, rfl, by simp, by decide, by decide⟩
  induction h with
  | nil => exact .inl (by simp)
  | @blank c text hc _ ih =>
    rcases mem_spaceChars_iff.mp hc with hgap | rfl
    · rcases ih with hgaps | ⟨gaps, d, rest, rfl, hgaps, hd⟩
      · exact .inl (List.forall_mem_cons.mpr ⟨hgap, hgaps⟩)
      · exact .inr ⟨c :: gaps, d, rest, rfl, List.forall_mem_cons.mpr ⟨hgap, hgaps⟩, hd⟩
    · exact .inr ⟨[], _, _, rfl, by simp, by decide, by decide⟩
  | joined _ _ _ => exact .inr ⟨[], _, _, rfl, by simp, by decide, by decide⟩
  | lineEnd _ hend _ _ => exact .inr (hstop hend)
  | comment _ _ _ _ _ => exact .inr ⟨[], _, _, rfl, by simp, by decide, by decide⟩

theorem isGap_eq_false_of_isListed_eq_false {c : Char} (h : isListed c = false) : isGap c = false := by
  by_contra hgap
  rw [isListed_of_isGap (by simpa using hgap)] at h
  exact absurd h (by decide)

namespace Space

variable (s : Space enclosed)

/-- A space is flat if it is made of gaps. -/
theorem isFlat_iff : s.isFlat = true ↔ ∀ c ∈ s.text, isGap c = true := List.all_eq_true

/-- What passes over gaps and stops at what is not listed passes over a space or stops in it. -/
theorem read {read : List Char → List String}
    (hgap : ∀ {c : Char}, isGap c = true → ∀ text, read (c :: text) = read text)
    (hstop : ∀ {text : List Char}, (∀ c ∈ text.head?, isListed c = false) → read text = [])
    (rest : List Char) : read (s.text ++ rest) = if s.isFlat then read rest else [] := by
  have hgaps : ∀ {gaps : List Char}, (∀ c ∈ gaps, isGap c = true) →
      ∀ text, read (gaps ++ text) = read text := by
    intro gaps hgaps text
    induction gaps with
    | nil => rfl
    | cons c gaps ih =>
      rw [List.forall_mem_cons] at hgaps
      rw [List.cons_append, hgap hgaps.1, ih hgaps.2]
  rcases s.isSpace.gaps_or with hflat | ⟨gaps, c, more, htext, hall, hc, -⟩
  · rw [if_pos (s.isFlat_iff.mpr hflat), hgaps hflat]
  · rw [if_neg fun hflat => ?_, htext, List.append_assoc, hgaps hall, hstop (by simpa using hc)]
    have := s.isFlat_iff.mp hflat c (by simp [htext])
    rw [isGap_eq_false_of_isListed_eq_false hc] at this
    exact absurd this (by decide)

theorem readNames_append (rest : List Char) :
    readNames (s.text ++ rest) = if s.isFlat then readNames rest else [] :=
  s.read readNames_gap readNames_of_head? rest

theorem readBehind_append (rest : List Char) :
    readBehind (s.text ++ rest) = if s.isFlat then readBehind rest else [] :=
  s.read readBehind_gap readBehind_of_head? rest

end Space

theorem OtherName.readBehind_append (o : OtherName enclosed) (rest : List Char) :
    readBehind (o.text ++ rest) = if o.isFlat then readBehind rest else [] := by
  rw [OtherName.text, List.append_assoc, List.append_assoc, List.append_assoc,
    Space.readBehind_append, Name.readBehind_append, Space.readBehind_append,
    Name.readBehind_append, OtherName.isFlat]
  cases o.before.isFlat <;> rfl

namespace Item

variable (i : Item enclosed)

theorem readBehind_tail (rest : List Char) :
    readBehind (i.tail ++ rest) = if i.isFlat then readBehind rest else [] := by
  rw [tail, isFlat, List.append_assoc]
  cases i.other with
  | none => exact i.back.readBehind_append rest
  | some o =>
    have hother := o.readBehind_append (i.back.text ++ rest)
    rw [i.back.readBehind_append] at hother
    rw [Option.map_some, Option.getD_some, hother, Option.all_some]
    cases o.isFlat <;> rfl

theorem readNames_append {rest : List Char} (hrest : Ends rest) :
    readNames (i.text ++ rest) =
      if i.front.isFlat then i.name.part :: (if i.isFlat then readBehind rest else []) else [] := by
  rw [text, List.append_assoc, List.append_assoc, i.front.readNames_append,
    i.name.readNames_append (i.ends_tail hrest), i.readBehind_tail]

end Item

/-- What follows the first item of a list does not go on with its word. -/
theorem ends_moreText (more : List (Item enclosed)) {rest : List Char} (hrest : Ends rest) :
    Ends (moreText more ++ rest) := by
  cases more with
  | nil => exact hrest
  | cons i more => exact (closes_cons (by decide) (by decide) _).ends

/-- The names read of some items are those that stand on one line with all that is before them. -/
theorem readNames_items (first : Item enclosed) (more : List (Item enclosed)) {rest : List Char}
    (hends : Ends rest) (hrest : readBehind rest = []) :
    readNames (first.text ++ (moreText more ++ rest)) = (flatNames (first :: more)).map (·.part) := by
  have hbehind : readBehind (moreText more ++ rest) = (flatNames more).map (·.part) := by
    -- Induction on the items; each is read behind its comma.
    induction more with
    | nil => exact hrest
    | cons i more ih =>
      have htext : moreText (i :: more) ++ rest = ',' :: (i.text ++ (moreText more ++ rest)) := by
        simp [moreText]
      rw [htext, readBehind_comma, i.readNames_append (ends_moreText more hends), ih, flatNames]
      cases i.front.isFlat <;> cases i.isFlat <;> rfl
  rw [first.readNames_append (ends_moreText more hends), hbehind, flatNames]
  cases first.front.isFlat <;> cases first.isFlat <;> rfl

/-- Behind the last comma of a list nothing is read. -/
theorem readBehind_commaText (comma : Option (Space true)) {rest : List Char}
    (hrest : ∀ c ∈ rest.head?, isListed c = false) : readBehind (commaText comma ++ rest) = [] := by
  cases comma with
  | none => exact readBehind_of_head? hrest
  | some space =>
    rw [commaText, List.cons_append, readBehind_comma, space.readNames_append,
      readNames_of_head? hrest, ite_self]

/-! ## Where the pattern finds a list

Before it reads any name, the pattern has to find the list: there must be a gap behind `import` and a character
that is listed, perhaps behind a parenthesis. Which lists of the grammar have this is told by
`ImportList.opensOnLine`.
-/

/-- What stands behind a parenthesis, or the text itself if it starts with none. -/
def listStart : List Char → List Char
  | '(' :: text => text
  | text => text

/--
Whether the pattern finds a list in the text behind `import`. It needs a gap and, perhaps behind a parenthesis,
a listed character, which may be a second gap.
-/
def opensList (text : List Char) : Bool :=
  match text.takeWhile isGap with
  | [] => false
  | [_] => (listStart (text.dropWhile isGap)).head?.any isListed
  | _ :: _ :: _ => true

/-- The names that are read of the text behind `import`. -/
def readList (text : List Char) : List String := readNames (listStart (text.dropWhile isGap))

/-- Whether the pattern finds a list behind a space, where `follows` says whether a listed character comes then. -/
def Space.opens (s : Space enclosed) (follows : Bool) : Bool :=
  match s.text.takeWhile isGap with
  | [] => false
  | [_] => s.isFlat && follows
  | _ :: _ :: _ => true

/-- Whether the pattern finds a list on the line of `import`. -/
def ImportList.opensOnLine : ImportList → Bool
  | star front _ => front.opens false
  | bare first _ _ => first.front.opens true
  | inParens front first _ _ _ => front.opens (first.text.head?.any isListed)

/-- A text that starts with no parenthesis is its own list. -/
theorem listStart_of_ne {c : Char} (hc : c ≠ '(') (text : List Char) :
    listStart (c :: text) = c :: text := by
  unfold listStart
  split
  · next heq => exact absurd (List.cons.inj heq).1 hc
  · rfl

namespace Name

variable (n : Name) (rest : List Char)

/-- A name starts with no parenthesis. -/
theorem listStart_append : listStart (n.chars ++ rest) = n.chars ++ rest := by
  obtain ⟨c, more, happend, hc⟩ := n.exists_append rest
  rw [happend]
  exact listStart_of_ne (fun heq => absurd (heq ▸ hc) (by decide)) more

/-- A name starts with what is listed. -/
theorem any_isListed_head?_append : (n.chars ++ rest).head?.any isListed = true := by
  obtain ⟨c, more, happend, hc⟩ := n.exists_append rest
  rw [happend]
  exact isListed_of_isWordChar hc

end Name

section

variable (s : Space enclosed) {rest : List Char} (hrest : ∀ c ∈ rest.head?, isGap c = false)

include hrest

/-- Behind its gaps, a space is at its end or goes on with what the pattern does not read. -/
theorem Space.behind_gaps :
    (s.text ++ rest).takeWhile isGap = s.text.takeWhile isGap ∧
      (s.isFlat = true ∧ (s.text ++ rest).dropWhile isGap = rest ∨
        s.isFlat = false ∧ ∃ c more, (s.text ++ rest).dropWhile isGap = c :: more ∧
          isListed c = false ∧ c ≠ '(') := by
  rcases s.isSpace.gaps_or with hflat | ⟨gaps, c, more, htext, hgaps, hc, hparen⟩
  · rw [takeWhile_append_exact hflat hrest, dropWhile_append_exact hflat hrest,
      List.takeWhile_eq_self_iff.mpr hflat]
    exact ⟨rfl, .inl ⟨s.isFlat_iff.mpr hflat, rfl⟩⟩
  · have hgap := isGap_eq_false_of_isListed_eq_false hc
    have hmixed : s.isFlat = false := by
      rw [Space.isFlat, htext, List.all_append, List.all_cons, hgap, Bool.false_and, Bool.and_false]
    have hhead : ∀ more, ∀ x ∈ (c :: more).head?, isGap x = false := forall_head?_cons hgap
    rw [htext, List.append_assoc, List.cons_append, takeWhile_append_exact hgaps (hhead _),
      takeWhile_append_exact hgaps (hhead _), dropWhile_append_exact hgaps (hhead _)]
    exact ⟨rfl, .inr ⟨hmixed, c, more ++ rest, rfl, hc, hparen⟩⟩

/-- Whether the pattern finds a list behind a space depends on the space and on what comes next. -/
theorem Space.opensList_append :
    opensList (s.text ++ rest) = s.opens ((listStart rest).head?.any isListed) := by
  obtain ⟨hgaps, ⟨hflat, hdrop⟩ | ⟨hmixed, c, more, hdrop, hc, hparen⟩⟩ := s.behind_gaps hrest
  · rw [opensList, hgaps, hdrop, Space.opens, hflat]
    rfl
  · rw [opensList, hgaps, hdrop, Space.opens, hmixed, listStart_of_ne hparen, List.head?_cons,
      Option.any_some, hc]
    rfl

/-- Names are read behind a space only if it is flat. -/
theorem Space.readList_append :
    readList (s.text ++ rest) = if s.isFlat then readNames (listStart rest) else [] := by
  obtain ⟨-, ⟨hflat, hdrop⟩ | ⟨hmixed, c, more, hdrop, hc, hparen⟩⟩ := s.behind_gaps hrest
  · rw [readList, hdrop, hflat, if_pos rfl]
  · rw [readList, hdrop, hmixed, listStart_of_ne hparen, readNames_of_head? (by simpa using hc)]
    rfl

end

/-- Whether a statement ends before this text. -/
def EndsStatement (after : List Char) : Prop := ∀ c ∈ after.head?, c ∈ ['\n', '\r', '#', ';']

/-- What ends a statement is neither a gap nor listed. -/
theorem EndsStatement.head {after : List Char} (h : EndsStatement after) :
    ∀ c ∈ after.head?, isGap c = false ∧ isListed c = false := by
  intro c hc
  have hmem := h c hc
  simp only [List.mem_cons, List.not_mem_nil, or_false] at hmem
  rcases hmem with rfl | rfl | rfl | rfl <;> decide

theorem EndsStatement.closes {after : List Char} (h : EndsStatement after) : Closes after := by
  intro c hc
  have hlisted := (h.head c hc).2
  rw [isListed, Bool.or_eq_false_iff, Bool.or_eq_false_iff] at hlisted
  exact ⟨(h.head c hc).1, hlisted.1.1⟩

theorem EndsStatement.readBehind_eq {after : List Char} (h : EndsStatement after) :
    readBehind after = [] :=
  readBehind_of_head? fun c hc => (h.head c hc).2

namespace ImportList

variable (l : ImportList) (after : List Char)

/-- Whether the pattern finds a list can be told from the list alone. -/
theorem opensList_append : opensList (l.text ++ after) = l.opensOnLine := by
  cases l with
  | star front back =>
    rw [text, List.append_assoc, List.cons_append,
      front.opensList_append (forall_head?_cons (by decide) _)]
    rfl
  | bare first more hfront =>
    simp only [text, Item.text, List.append_assoc]
    rw [first.front.opensList_append (first.name.isGap_head?_append _), first.name.listStart_append,
      first.name.any_isListed_head?_append]
    rfl
  | inParens front first more comma back =>
    have hne : first.text ≠ [] := by simp [Item.text, first.name.ne_nil]
    rw [text, List.append_assoc, List.cons_append,
      front.opensList_append (forall_head?_cons (by decide) _), listStart, List.append_assoc,
      List.head?_append_of_ne_nil _ hne]
    rfl

/-- What is read of a list are its names on the line of `import`. -/
theorem readList_append (hafter : EndsStatement after) :
    readList (l.text ++ after) = l.namesOnLine.map (·.part) := by
  cases l with
  | star front back =>
    rw [text, List.append_assoc, List.cons_append,
      front.readList_append (forall_head?_cons (by decide) _), listStart_of_ne (by decide),
      readNames_of_head? (forall_head?_cons (by decide) _), ite_self]
    rfl
  | bare first more hfront =>
    have hitems := readNames_items first more hafter.closes.ends hafter.readBehind_eq
    simp only [text, Item.text, List.append_assoc] at hitems ⊢
    rw [first.front.readNames_append] at hitems
    rw [first.front.readList_append (first.name.isGap_head?_append _), first.name.listStart_append,
      hitems]
    rfl
  | inParens front first more comma back =>
    have hclose : Closes (')' :: (back.text ++ after)) := closes_cons (by decide) (by decide) _
    have hitems := readNames_items first more (closes_commaText comma hclose).ends
      (readBehind_commaText comma (forall_head?_cons (by decide) _))
    simp only [text, List.append_assoc, List.cons_append]
    rw [front.readList_append (forall_head?_cons (by decide) _), listStart, hitems, namesOnLine]
    cases front.isFlat <;> rfl

end ImportList

end RepoScope.Import.Python
