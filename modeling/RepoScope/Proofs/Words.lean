import Mathlib.Data.List.Chain
import RepoScope.GuardRail
import RepoScope.Proofs.LowerCase

/-!
# Words of a path

A path is cut into words between two neighbouring characters if one of them is no letter or digit, or if a hump lies
between them (`IsCut`). What stands on one side of a cut has no part in the words on the other side
(`words_append_of_isCut`), and where there is no cut the two sides share a word, the last one of the front and the
first one of the back (`exists_words_append`). So no character is lost, none comes twice, and a word is a stretch of
letters and digits between two cuts without a cut inside (`mem_words_iff`).

All of this rests on what one more character in front does to the words (`words_cons_cases`).
-/

namespace RepoScope

namespace GuardRail

open Text

/-- The words of a path as they stand in it. -/
def words (path : List Char) : List (List Char) :=
  (piecesBy (!isAlphanumeric ·) path).flatMap humps

theorem pathWords_eq (path : List Char) : pathWords path = (words path).map lowerCase := rfl

/-- Whether words end between two parts of a text, because one side has no character of a word there or for a hump. -/
def IsCut (front back : List Char) : Prop :=
  ∀ a ∈ front.getLast?, ∀ b ∈ back.head?, isAlphanumeric a = true → isAlphanumeric b = true → isHump a b = true

theorem isCut_nil_left (back : List Char) : IsCut [] back := by
  intro a ha
  cases ha

theorem isCut_nil_right (front : List Char) : IsCut front [] := by
  intro a _ b hb
  cases hb

/-- Only the two characters side by side decide. -/
theorem isCut_congr {front front' back back' : List Char} (hfront : front.getLast? = front'.getLast?)
    (hback : back.head? = back'.head?) : IsCut front back ↔ IsCut front' back' := by
  unfold IsCut
  rw [hfront, hback]

theorem isCut_concat_cons {front back : List Char} {a b : Char} :
    IsCut (front ++ [a]) (b :: back) ↔ (isAlphanumeric a = true → isAlphanumeric b = true → isHump a b = true) := by
  unfold IsCut
  simp

theorem isCut_singleton_of_separator {c : Char} (h : isAlphanumeric c = false) (back : List Char) :
    IsCut [c] back := by
  intro a ha b _ hletter
  rw [List.getLast?_singleton, Option.mem_some_iff] at ha
  rw [← ha, h] at hletter
  cases hletter

/-! ## One more character in front

The words are built from the last character to the first: a letter or digit begins a word of its own before a cut,
and joins the first word otherwise. Everything below is proved by induction along this lemma, without a look at how
humps are found.
-/

theorem humps_ne_nil {cs : List Char} (h : cs ≠ []) : humps cs ≠ [] := by
  cases cs with
  | nil => exact absurd rfl h
  | cons c rest =>
    unfold humps addToWords
    split
    · exact List.cons_ne_nil _ _
    · split <;> exact List.cons_ne_nil _ _

theorem words_cons_of_separator {c : Char} (h : isAlphanumeric c = false) (rest : List Char) :
    words (c :: rest) = words rest := by
  unfold words
  rw [piecesBy_cons_sep _ _ _ (by rw [h]; rfl), List.flatMap_cons]
  rfl

/-- A letter or digit before a cut is a word. -/
theorem words_cons_of_isCut {c : Char} (h : isAlphanumeric c = true) {rest : List Char} (hcut : IsCut [c] rest) :
    words (c :: rest) = [c] :: words rest := by
  have hletter : (!isAlphanumeric c) = false := by rw [h]; rfl
  obtain ⟨piece, pieces, hpieces⟩ := List.exists_cons_of_ne_nil (piecesBy_ne_nil (!isAlphanumeric ·) rest)
  have hhumps : humps (c :: piece) = [c] :: humps piece := by
    cases piece with
    | nil => rfl
    | cons d piece =>
      -- The piece goes on with the next character of the text, which is a letter or digit.
      have hnext : rest.head? = some d ∧ isAlphanumeric d = true := by
        cases rest with
        | nil => cases hpieces
        | cons e rest =>
          cases he : isAlphanumeric e with
          | false =>
            rw [piecesBy_cons_sep _ _ _ (by rw [he]; rfl)] at hpieces
            cases hpieces
          | true =>
            obtain ⟨first, more, hrest⟩ := List.exists_cons_of_ne_nil (piecesBy_ne_nil (!isAlphanumeric ·) rest)
            rw [piecesBy_cons_other _ _ _ _ _ (by rw [he]; rfl) hrest] at hpieces
            cases hpieces
            exact ⟨rfl, he⟩
      have hhump : isHump c d = true := hcut c rfl d hnext.1 h hnext.2
      obtain ⟨word, more, hmore⟩ := List.exists_cons_of_ne_nil (humps_ne_nil (List.cons_ne_nil d piece))
      rw [humps, hmore]
      show (if (some d).any (isHump c) then [c] :: word :: more else (c :: word) :: more) = [c] :: word :: more
      rw [Option.any_some, hhump, if_pos rfl]
  unfold words
  rw [piecesBy_cons_other _ _ _ _ _ hletter hpieces, hpieces, List.flatMap_cons, List.flatMap_cons, hhumps]
  rfl

/-- A letter or digit before no cut belongs to the first word of the rest. -/
theorem words_cons_of_not_isCut {c : Char} {rest : List Char} (hcut : ¬IsCut [c] rest) :
    ∃ word more, words rest = word :: more ∧ words (c :: rest) = (c :: word) :: more := by
  cases rest with
  | nil => exact absurd (isCut_nil_right [c]) hcut
  | cons d rest =>
    have hjoint : isAlphanumeric c = true ∧ isAlphanumeric d = true ∧ isHump c d = false := by
      rw [← List.nil_append [c], isCut_concat_cons] at hcut
      simpa using hcut
    obtain ⟨hc, hd, hhump⟩ := hjoint
    obtain ⟨piece, pieces, hpieces⟩ := List.exists_cons_of_ne_nil (piecesBy_ne_nil (!isAlphanumeric ·) rest)
    have hrest := piecesBy_cons_other (!isAlphanumeric ·) d rest piece pieces (by rw [hd]; rfl) hpieces
    have hwhole := piecesBy_cons_other (!isAlphanumeric ·) c _ _ pieces (by rw [hc]; rfl) hrest
    obtain ⟨word, more, hmore⟩ := List.exists_cons_of_ne_nil (humps_ne_nil (List.cons_ne_nil d piece))
    refine ⟨word, more ++ pieces.flatMap humps, ?_, ?_⟩
    · unfold words
      rw [hrest, List.flatMap_cons, hmore]
      rfl
    · have hhumps : humps (c :: d :: piece) = (c :: word) :: more := by
        rw [humps, hmore]
        show (if (some d).any (isHump c) then [c] :: word :: more else (c :: word) :: more) = (c :: word) :: more
        rw [Option.any_some, hhump, if_neg Bool.false_ne_true]
      unfold words
      rw [hwhole, List.flatMap_cons, hhumps]
      rfl

/-- What one more character in front does to the words of a text. -/
theorem words_cons_cases (c : Char) (rest : List Char) :
    (isAlphanumeric c = false ∧ words (c :: rest) = words rest) ∨
    (isAlphanumeric c = true ∧ IsCut [c] rest ∧ words (c :: rest) = [c] :: words rest) ∨
    (isAlphanumeric c = true ∧ ¬IsCut [c] rest ∧
      ∃ word more, words rest = word :: more ∧ words (c :: rest) = (c :: word) :: more) := by
  cases hc : isAlphanumeric c with
  | false => exact .inl ⟨rfl, words_cons_of_separator hc rest⟩
  | true =>
    by_cases hcut : IsCut [c] rest
    · exact .inr (.inl ⟨rfl, hcut, words_cons_of_isCut hc hcut⟩)
    · exact .inr (.inr ⟨rfl, hcut, words_cons_of_not_isCut hcut⟩)

/-! ## Nothing is lost

The words are the letters and digits of the path, parted.
-/

/-- Words have all letters and digits of the path, in their order. -/
theorem flatten_words (path : List Char) : (words path).flatten = path.filter isAlphanumeric := by
  induction path with
  | nil => rfl
  | cons c rest ih =>
    rcases words_cons_cases c rest with ⟨hc, hwords⟩ | ⟨hc, -, hwords⟩ | ⟨hc, -, word, more, hrest, hwords⟩
    · rw [hwords, ih, List.filter_cons_of_neg (by rw [hc]; decide)]
    · rw [hwords, List.flatten_cons, ih, List.filter_cons_of_pos hc]
      rfl
    · rw [hrest, List.flatten_cons] at ih
      rw [hwords, List.flatten_cons, List.filter_cons_of_pos hc, ← ih]
      rfl

theorem ne_nil_of_mem_words {path word : List Char} (h : word ∈ words path) : word ≠ [] := by
  induction path generalizing word with
  | nil => cases h
  | cons c rest ih =>
    rcases words_cons_cases c rest with ⟨-, hwords⟩ | ⟨-, -, hwords⟩ | ⟨-, -, first, more, hrest, hwords⟩
    · rw [hwords] at h
      exact ih h
    · rw [hwords] at h
      rcases List.mem_cons.mp h with rfl | h
      · exact List.cons_ne_nil _ _
      · exact ih h
    · rw [hwords] at h
      rcases List.mem_cons.mp h with rfl | h
      · exact List.cons_ne_nil _ _
      · exact ih (hrest ▸ List.mem_cons_of_mem _ h)

/-! ## Two parts of a text

The two lemmas say for every place of a text what becomes of the words there, and exclude each other.
-/

/-- On the two sides of a cut, there are the words of each side. -/
theorem words_append_of_isCut {front back : List Char} (h : IsCut front back) :
    words (front ++ back) = words front ++ words back := by
  induction front with
  | nil => rfl
  | cons c front ih =>
    cases front with
    | nil =>
      cases hc : isAlphanumeric c with
      | false => rw [List.singleton_append, words_cons_of_separator hc, words_cons_of_separator hc]; rfl
      | true =>
        rw [List.singleton_append, words_cons_of_isCut hc h, words_cons_of_isCut hc (isCut_nil_right _)]
        rfl
    | cons d front =>
      have hsame : ∀ {cs : List Char}, IsCut cs (d :: front ++ back) ↔ IsCut cs (d :: front) :=
        isCut_congr rfl rfl
      -- What the new character does to the words behind it does not depend on the back, as a character stands
      -- between.
      have ih := ih ((isCut_congr (List.getLast?_cons_cons) rfl).mp h)
      rw [List.cons_append]
      rcases words_cons_cases c (d :: front) with ⟨hc, hwords⟩ | ⟨hc, hcut, hwords⟩ | ⟨hc, hcut, word, more, hrest, hwords⟩
      · rw [words_cons_of_separator hc, ih, hwords]
      · rw [words_cons_of_isCut hc (hsame.mpr hcut), ih, hwords, List.cons_append]
      · obtain ⟨word', more', hrest', hwords'⟩ := words_cons_of_not_isCut (mt hsame.mp hcut)
        rw [hwords', hwords]
        rw [ih, hrest, List.cons_append] at hrest'
        cases hrest'
        rfl

/-- On the two sides of no cut, the last word of the front and the first word of the back are one. -/
theorem exists_words_append {front back : List Char} (h : ¬IsCut front back) :
    ∃ before u v behind, words front = before ++ [u] ∧ words back = v :: behind ∧
      words (front ++ back) = before ++ (u ++ v) :: behind := by
  induction front with
  | nil => exact absurd (isCut_nil_left back) h
  | cons c front ih =>
    cases front with
    | nil =>
      obtain ⟨v, behind, hback, hwords⟩ := words_cons_of_not_isCut h
      have hc : isAlphanumeric c = true := by
        by_contra hc
        exact h (isCut_singleton_of_separator (by simpa using hc) back)
      exact ⟨[], [c], v, behind, words_cons_of_isCut hc (isCut_nil_right _), hback, hwords⟩
    | cons d front =>
      have hsame : ∀ {cs : List Char}, IsCut cs (d :: front ++ back) ↔ IsCut cs (d :: front) :=
        isCut_congr rfl rfl
      -- The word over the two sides is that of the shorter front, unless this front has no other word and the
      -- new character belongs to it.
      obtain ⟨before, u, v, behind, hfront, hback, hwhole⟩ := ih (mt (isCut_congr List.getLast?_cons_cons rfl).mpr h)
      rw [List.cons_append]
      rcases words_cons_cases c (d :: front) with ⟨hc, hwords⟩ | ⟨hc, hcut, hwords⟩ | ⟨hc, hcut, word, more, hrest, hwords⟩
      · exact ⟨before, u, v, behind, hwords.trans hfront, hback, (words_cons_of_separator hc _).trans hwhole⟩
      · refine ⟨[c] :: before, u, v, behind, ?_, hback, ?_⟩
        · rw [hwords, hfront, List.cons_append]
        · rw [words_cons_of_isCut hc (hsame.mpr hcut), hwhole, List.cons_append]
      · obtain ⟨word', more', hrest', hwords'⟩ := words_cons_of_not_isCut (mt hsame.mp hcut)
        rw [hfront] at hrest
        rw [hwhole] at hrest'
        cases before with
        | nil =>
          cases hrest
          cases hrest'
          exact ⟨[], c :: u, v, behind, hwords, hback, hwords'⟩
        | cons first before =>
          cases hrest
          cases hrest'
          exact ⟨(c :: word) :: before, u, v, behind, hwords, hback, hwords'⟩

/-! ## Words as stretches of the text

A word is more than a part of the text: it stands somewhere, between two cuts. Stretches are followed while
characters come in front of the text, where only the first word can grow (`IsWord.extend`), and all others stay
where they are (`IsWord.cons`).
-/

/-- A stretch of letters and digits between two cuts, with no hump inside. -/
structure IsWord (before word behind : List Char) : Prop where
  ne_nil : word ≠ []
  alphanumeric : ∀ c ∈ word, isAlphanumeric c = true
  unbroken : word.IsChain fun a b => isHump a b = false
  starts : IsCut before word
  ends : IsCut word behind

theorem words_of_isChain {word : List Char} (hne : word ≠ []) (hletters : ∀ c ∈ word, isAlphanumeric c = true)
    (hchain : word.IsChain fun a b => isHump a b = false) : words word = [word] := by
  induction word with
  | nil => exact absurd rfl hne
  | cons c rest ih =>
    obtain ⟨hc, hrest⟩ := List.forall_mem_cons.mp hletters
    cases rest with
    | nil => rw [words_cons_of_isCut hc (isCut_nil_right _)]; rfl
    | cons d rest =>
      rw [List.isChain_cons_cons] at hchain
      have hcut : ¬IsCut [c] (d :: rest) := by
        rw [← List.nil_append [c], isCut_concat_cons, hchain.1]
        exact fun h => Bool.false_ne_true (h hc (hrest d List.mem_cons_self))
      obtain ⟨word, more, hmore, hwords⟩ := words_cons_of_not_isCut hcut
      rw [ih (List.cons_ne_nil _ _) hrest hchain.2] at hmore
      cases hmore
      exact hwords

/-- A stretch between two cuts is a word, between the words before it and those behind it. -/
theorem IsWord.words_eq {before word behind : List Char} (h : IsWord before word behind) :
    words (before ++ word ++ behind) = words before ++ word :: words behind := by
  have hstarts : IsCut before (word ++ behind) :=
    (isCut_congr rfl (List.head?_append_of_ne_nil word h.ne_nil)).mpr h.starts
  rw [List.append_assoc, words_append_of_isCut hstarts, words_append_of_isCut h.ends,
    words_of_isChain h.ne_nil h.alphanumeric h.unbroken]
  rfl

theorem IsCut.cons {c : Char} {front back : List Char} (hc : front = [] → IsCut [c] back) (h : IsCut front back) :
    IsCut (c :: front) back := by
  cases front with
  | nil => exact hc rfl
  | cons d front => exact (isCut_congr List.getLast?_cons_cons rfl).mpr h

theorem IsCut.left {front back more : List Char} (h : IsCut front (back ++ more)) : IsCut front back := by
  cases back with
  | nil => exact isCut_nil_right front
  | cons b back => exact h

/-- One more character in front of a text leaves a word of it a word, unless the two belong together. -/
theorem IsWord.cons {c : Char} {before word behind : List Char} (h : IsWord before word behind)
    (hc : before = [] → IsCut [c] word) : IsWord (c :: before) word behind :=
  { h with starts := h.starts.cons hc }

/-- A character in front of the first word, with no cut between them, belongs to it. -/
theorem IsWord.extend {c : Char} {word behind : List Char} (h : IsWord [] word behind)
    (hc : isAlphanumeric c = true) (hcut : ¬IsCut [c] (word ++ behind)) : IsWord [] (c :: word) behind := by
  obtain ⟨d, rest, rfl⟩ := List.exists_cons_of_ne_nil h.ne_nil
  have hhump : isHump c d = false := by
    have hjoint : ¬IsCut ([] ++ [c]) (d :: (rest ++ behind)) := hcut
    rw [isCut_concat_cons] at hjoint
    simpa [hc, h.alphanumeric d List.mem_cons_self] using hjoint
  refine ⟨List.cons_ne_nil _ _, ?_, ?_, isCut_nil_left _, ?_⟩
  · exact List.forall_mem_cons.mpr ⟨hc, h.alphanumeric⟩
  · exact List.isChain_cons_cons.mpr ⟨hhump, h.unbroken⟩
  · exact h.ends.cons fun hnil => absurd hnil (List.cons_ne_nil _ _)

/-- Every word of a text is a stretch of it between two cuts, behind the stretches of the words before it. -/
theorem exists_isWord {path word : List Char} {passed rest : List (List Char)}
    (h : words path = passed ++ word :: rest) :
    ∃ before behind, path = before ++ word ++ behind ∧ IsWord before word behind ∧
      words before = passed ∧ words behind = rest := by
  induction path generalizing passed word with
  | nil =>
    have hnil : passed ++ word :: rest = [] := h.symm
    exact absurd hnil (by simp)
  | cons c path ih =>
    rcases words_cons_cases c path with ⟨hc, hwords⟩ | ⟨hc, hcut, hwords⟩ | ⟨hc, hcut, first, more, hpath, hwords⟩
    · obtain ⟨before, behind, rfl, hword, hpassed, hrest⟩ := ih (hwords ▸ h)
      refine ⟨c :: before, behind, rfl, hword.cons fun _ => isCut_singleton_of_separator hc word, ?_, hrest⟩
      rw [words_cons_of_separator hc, hpassed]
    · rw [hwords] at h
      cases passed with
      | nil =>
        cases h
        have hletters : ∀ d ∈ [c], isAlphanumeric d = true := List.forall_mem_singleton.mpr hc
        exact ⟨[], path, rfl, ⟨List.cons_ne_nil _ _, hletters, .singleton c, isCut_nil_left _, hcut⟩, rfl, rfl⟩
      | cons w passed =>
        obtain ⟨rfl, hmore⟩ := List.cons.inj h
        obtain ⟨before, behind, rfl, hword, hpassed, hrest⟩ := ih hmore
        rw [List.append_assoc] at hcut
        refine ⟨c :: before, behind, rfl, hword.cons fun hnil => ?_, ?_, hrest⟩
        · rw [hnil, List.nil_append] at hcut
          exact hcut.left
        · rw [words_cons_of_isCut hc hcut.left, hpassed]
    · rw [hwords] at h
      -- The character belongs to the first word of the rest, which is the one asked for or one before it.
      have hbefore : ∀ e before, ¬IsCut [c] (e :: before) →
          ∃ u us, words (e :: before) = u :: us ∧ words (c :: e :: before) = (c :: u) :: us :=
        fun e before => words_cons_of_not_isCut
      cases passed with
      | nil =>
        cases h
        have hfirst : words path = [] ++ first :: rest := hpath
        obtain ⟨before, behind, rfl, hword, hpassed, hrest⟩ := ih hfirst
        cases before with
        | nil => exact ⟨[], behind, rfl, hword.extend hc hcut, rfl, hrest⟩
        | cons e before =>
          obtain ⟨_, _, hsome, -⟩ := hbefore e before hcut
          rw [hpassed] at hsome
          cases hsome
      | cons w passed =>
        obtain ⟨rfl, hmore⟩ := List.cons.inj h
        have hlater : words path = (first :: passed) ++ word :: rest := hpath.trans (congrArg (first :: ·) hmore)
        obtain ⟨before, behind, rfl, hword, hpassed, hrest⟩ := ih hlater
        cases before with
        | nil => cases hpassed
        | cons e before =>
          obtain ⟨_, _, hsome, hfront⟩ := hbefore e before hcut
          rw [hpassed] at hsome
          cases hsome
          exact ⟨c :: e :: before, behind, rfl, hword.cons fun hnil => absurd hnil (List.cons_ne_nil _ _), hfront, hrest⟩

/-- The words of a text are its stretches of letters and digits between two cuts without a cut inside. -/
theorem mem_words_iff {path word : List Char} :
    word ∈ words path ↔ ∃ before behind, path = before ++ word ++ behind ∧ IsWord before word behind := by
  constructor
  · intro h
    obtain ⟨passed, rest, hwords⟩ := List.append_of_mem h
    obtain ⟨before, behind, hpath, hword, -, -⟩ := exists_isWord hwords
    exact ⟨before, behind, hpath, hword⟩
  · rintro ⟨before, behind, rfl, hword⟩
    rw [hword.words_eq]
    exact List.mem_append_right _ List.mem_cons_self

/-! ## Cuts in the list of words

The list that is compared has the words in lower case, in which a character may become several. A part of the list
still determines a part of the text, since no character becomes none.
-/

/-- Whether a list of words can be parted so that its front has what a part of the text has in lower case. -/
def Divides (front : List Char) (parts : List (List Char)) : Prop :=
  ∃ first rest, parts = first ++ rest ∧ first.flatten = lowerCase (front.filter isAlphanumeric)

/-- The parts of the list are those of the text, before they are in lower case. -/
theorem exists_of_divides {front back : List Char} (h : Divides front (pathWords (front ++ back))) :
    ∃ first rest, words (front ++ back) = first ++ rest ∧ first.flatten = front.filter isAlphanumeric := by
  obtain ⟨first', rest', hparts, hflat⟩ := h
  rw [pathWords_eq, List.map_eq_append_iff] at hparts
  obtain ⟨first, rest, hwords, rfl, rfl⟩ := hparts
  rw [← lowerCase_flatten] at hflat
  refine ⟨first, rest, hwords, ?_⟩
  -- Both are prefixes of what the text has, and no character goes away in lower case.
  have hall : first.flatten ++ rest.flatten = front.filter isAlphanumeric ++ back.filter isAlphanumeric := by
    rw [← List.filter_append, ← flatten_words, hwords, List.flatten_append]
  rcases List.prefix_or_prefix_of_prefix ⟨_, hall⟩ (List.prefix_append _ _) with hstarts | hstarts
  · exact eq_of_prefix_of_lowerCase_eq hstarts hflat
  · exact (eq_of_prefix_of_lowerCase_eq hstarts hflat.symm).symm

/-- Words end between two parts of a text if and only if there is a cut. -/
theorem divides_iff_isCut {front back : List Char} : Divides front (pathWords (front ++ back)) ↔ IsCut front back := by
  constructor
  · intro h
    by_contra hcut
    -- Without a cut, one word reaches over both parts. The front of the list either has it, and with it a
    -- character too many, or lacks it, and with it one that belongs to the front of the text.
    obtain ⟨first, rest, hwords, hflat⟩ := exists_of_divides h
    obtain ⟨before, u, v, behind, hfront, hback, hwhole⟩ := exists_words_append hcut
    have hu : u ≠ [] := ne_nil_of_mem_words (hfront ▸ List.mem_append_right _ List.mem_cons_self)
    have hv : v ≠ [] := ne_nil_of_mem_words (hback ▸ List.mem_cons_self)
    have hu := List.length_pos_of_ne_nil hu
    have hv := List.length_pos_of_ne_nil hv
    have hlength := congrArg List.length (hflat.trans (hfront ▸ flatten_words front).symm)
    rw [List.flatten_append, List.flatten_singleton, List.length_append] at hlength
    rw [hwhole, List.append_eq_append_iff] at hwords
    rcases hwords with ⟨more, rfl, hmore⟩ | ⟨more, rfl, -⟩
    · rw [List.flatten_append, List.length_append] at hlength
      cases more with
      | nil =>
        rw [List.flatten_nil, List.length_nil] at hlength
        omega
      | cons word more =>
        obtain ⟨rfl, -⟩ := List.cons.inj hmore
        rw [List.flatten_cons, List.length_append, List.length_append] at hlength
        omega
    · rw [List.flatten_append, List.length_append] at hlength
      omega
  · intro hcut
    refine ⟨(words front).map lowerCase, (words back).map lowerCase, ?_, ?_⟩
    · rw [pathWords_eq, words_append_of_isCut hcut, List.map_append]
    · rw [← lowerCase_flatten, flatten_words]

end GuardRail

end RepoScope
