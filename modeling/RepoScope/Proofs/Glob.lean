import RepoScope.Glob
import RepoScope.Proofs.Components

/-!
# What globs match

A glob that tells upper from lower case matches a text if its tokens can be laid over it one behind the other
(`Glob.Fits`): a question mark and a class over a character that is no slash, a star over a block without slashes, two
stars over whole components, of which there is at least one if no token stands behind them. Matching by remainders
finds such a layout if there is one (**`isMatch_iff_fits`**). The one step that needs an argument is the remainder that
two stars leave at the very end of the text: what fits there consists of stars alone, so it fits the last component as
well (`Fits.of_nil`).

Two stars at the start let the rest of a glob match any end of the text made of whole components
(`matches_stars_iff`). If the rest has no slash, the last component alone decides (`matches_stars_iff_of_notMem`), since
its tokens cannot reach over a slash, or are two stars and no more (`isPlain_of_parse?`).
-/

namespace RepoScope.Glob

open Text

/-! ## Layouts

A layout cuts the text into one block for each token. The relation has a rule for each way in which a token can be
laid; two stars have two, as they take whole components each with the slash behind it, and at the end of a glob all
that is left.
-/

/-- Whether a character is a member of a class. -/
def ClassItem.Has (c : Char) : ClassItem → Prop
  | .single d => c = d
  | .range first last => first ≤ c ∧ c ≤ last

/-- Whether the tokens of a glob can be laid over the whole of a text. -/
inductive Fits : List Token → List Char → Prop
  | nil : Fits [] []
  | char {c : Char} {tokens : List Token} {cs : List Char} (h : Fits tokens cs) :
      Fits (.char c :: tokens) (c :: cs)
  | anyChar {c : Char} {tokens : List Token} {cs : List Char} (hc : c ≠ '/') (h : Fits tokens cs) :
      Fits (.anyChar :: tokens) (c :: cs)
  | within {items : List ClassItem} {c : Char} {tokens : List Token} {cs : List Char} (hc : c ≠ '/')
      (hitem : ∃ item ∈ items, item.Has c) (h : Fits tokens cs) : Fits (.within items :: tokens) (c :: cs)
  | without {items : List ClassItem} {c : Char} {tokens : List Token} {cs : List Char} (hc : c ≠ '/')
      (hitem : ∀ item ∈ items, ¬item.Has c) (h : Fits tokens cs) : Fits (.without items :: tokens) (c :: cs)
  | anyRun {block : List Char} {tokens : List Token} {cs : List Char} (hblock : '/' ∉ block)
      (h : Fits tokens cs) : Fits (.anyRun :: tokens) (block ++ cs)
  | anyPath {components : List (List Char)} {tokens : List Token} {cs : List Char}
      (hcomponents : ∀ component ∈ components, '/' ∉ component) (hne : tokens ≠ []) (h : Fits tokens cs) :
      Fits (.anyPath :: tokens) (components.flatMap (· ++ ['/']) ++ cs)
  | anyPathEnd {components : List (List Char)} (hne : components ≠ [])
      (hcomponents : ∀ component ∈ components, '/' ∉ component) :
      Fits [.anyPath] (List.intercalate ['/'] components)

/-- Two stars at the end of a glob fit every text, since it has a component. -/
theorem fits_anyPath_end (cs : List Char) : Fits [.anyPath] cs := by
  have h := Fits.anyPathEnd (piecesBy_ne_nil (· == '/') cs) fun component hcomponent hslash => by
    simpa using eq_false_of_mem_piecesBy hcomponent '/' hslash
  rwa [← pieces, intercalate_pieces] at h

/-- What fits the empty text consists of stars, so it fits every name. -/
theorem Fits.of_nil {tokens : List Token} (h : Fits tokens []) (hne : tokens ≠ []) {name : List Char}
    (hname : '/' ∉ name) : Fits tokens name := by
  generalize hcs : ([] : List Char) = cs at h
  induction h with
  | nil => exact absurd rfl hne
  | char | anyChar | within | without => cases hcs
  | anyRun _ h _ =>
    obtain ⟨rfl, rfl⟩ := List.nil_eq_append_iff.mp hcs
    simpa using Fits.anyRun hname h
  | anyPath _ hmore _ ih =>
    obtain ⟨-, rfl⟩ := List.nil_eq_append_iff.mp hcs
    simpa using @Fits.anyPath [] _ _ (by simp) hmore (ih hmore rfl)
  | anyPathEnd => exact fits_anyPath_end name

/-! ## Remainders

A matcher that tries what a token leaves over gives lists of ends of the text. Both lists are said by what was cut
off in front.
-/

theorem mem_runRemainders_iff {cs rest : List Char} :
    rest ∈ runRemainders cs ↔ ∃ block, '/' ∉ block ∧ cs = block ++ rest := by
  induction cs with
  | nil =>
    rw [runRemainders, List.mem_singleton]
    constructor
    · rintro rfl
      exact ⟨[], by simp, rfl⟩
    · rintro ⟨block, -, heq⟩
      exact (List.nil_eq_append_iff.mp heq).2
  | cons c cs ih =>
    have hlonger : (∃ block, '/' ∉ block ∧ c :: cs = block ++ rest) ↔
        rest = c :: cs ∨ c ≠ '/' ∧ ∃ block, '/' ∉ block ∧ cs = block ++ rest := by
      constructor
      · rintro ⟨block, hblock, heq⟩
        obtain ⟨rfl, rfl⟩ | ⟨block, rfl, rfl⟩ := List.cons_eq_append_iff.mp heq
        · exact .inl rfl
        · rw [List.mem_cons, not_or] at hblock
          exact .inr ⟨Ne.symm hblock.1, block, hblock.2, rfl⟩
      · rintro (rfl | ⟨hc, block, hblock, rfl⟩)
        · exact ⟨[], by simp, rfl⟩
        · exact ⟨c :: block, by simp [hblock, Ne.symm hc], rfl⟩
    rw [hlonger, runRemainders, List.mem_cons]
    by_cases hc : c = '/'
    · simp [hc]
    · rw [if_neg hc, ih, and_iff_right hc]

theorem mem_behindSlashes_iff {cs rest : List Char} :
    rest ∈ behindSlashes cs ↔ ∃ front, cs = front ++ '/' :: rest := by
  induction cs with
  | nil => simp [behindSlashes]
  | cons c cs ih =>
    have hlonger : (∃ front, c :: cs = front ++ '/' :: rest) ↔
        (c = '/' ∧ rest = cs) ∨ ∃ front, cs = front ++ '/' :: rest := by
      constructor
      · rintro ⟨front, heq⟩
        cases front with
        | nil => exact .inl ⟨(List.cons.inj heq).1, (List.cons.inj heq).2.symm⟩
        | cons d front => exact .inr ⟨front, (List.cons.inj heq).2⟩
      · rintro (⟨rfl, rfl⟩ | ⟨front, rfl⟩)
        · exact ⟨[], rfl⟩
        · exact ⟨c :: front, rfl⟩
    rw [hlonger, behindSlashes]
    split
    · next hc => rw [List.mem_cons, ih, and_iff_right hc]
    · next hc => rw [ih, or_iff_right fun h => hc h.1]

/-! ## Components

Two stars take some whole components, which is to say that what they leave starts behind a slash, or is all of the
text.
-/

/-- What stands before a slash are whole components, each with a slash behind it. -/
theorem exists_components (front : List Char) :
    ∃ components : List (List Char), (∀ component ∈ components, '/' ∉ component) ∧
      front ++ ['/'] = components.flatMap (· ++ ['/']) := by
  refine ⟨pieces '/' front, fun component hcomponent hslash => ?_, ?_⟩
  · simpa using eq_false_of_mem_piecesBy hcomponent '/' hslash
  · have hjoin : ∀ parts : List (List Char), parts ≠ [] →
        List.intercalate ['/'] parts ++ ['/'] = parts.flatMap (· ++ ['/']) := by
      intro parts hne
      induction parts with
      | nil => exact absurd rfl hne
      | cons part rest ih =>
        cases rest with
        | nil => simp
        | cons next rest =>
          rw [List.intercalate_cons_cons, List.append_assoc, ih (by simp)]
          rfl
    rw [← hjoin (pieces '/' front) (piecesBy_ne_nil _ _), intercalate_pieces]

/-- An end of a text that is made of whole components. -/
def IsTail (tail cs : List Char) : Prop :=
  ∃ above below, below ≠ [] ∧ pieces '/' cs = above ++ below ∧ tail = List.intercalate ['/'] below

/-- The ends made of whole components are the text and what stands behind its slashes. -/
theorem isTail_iff {tail cs : List Char} : IsTail tail cs ↔ tail = cs ∨ tail ∈ behindSlashes cs := by
  rw [mem_behindSlashes_iff]
  constructor
  · rintro ⟨above, below, hne, hpieces, rfl⟩
    have hcs := intercalate_pieces '/' cs
    rw [hpieces] at hcs
    by_cases habove : above = []
    · rw [habove, List.nil_append] at hcs
      exact .inl hcs
    · refine .inr ⟨List.intercalate ['/'] above, ?_⟩
      rw [← hcs, intercalate_append habove hne]
  · rintro (rfl | ⟨front, rfl⟩)
    · exact ⟨[], _, piecesBy_ne_nil _ _, rfl, (intercalate_pieces '/' _).symm⟩
    · exact ⟨_, _, piecesBy_ne_nil _ _, pieces_append_sep '/' front tail, (intercalate_pieces '/' _).symm⟩

/-! ## Matching

From matching to layouts the induction is over the tokens, each with its remainders. In the other direction each
rule of a layout names the remainder to take. Two stars also leave the empty text as a remainder: this is where a
match could be found without a layout, and `Fits.of_nil` shows that there is one.
-/

theorem ClassItem.contains_eq_true_iff {c : Char} {item : ClassItem} :
    item.contains .sensitive c = true ↔ item.Has c := by
  cases item <;> simp [ClassItem.contains, ClassItem.Has, CaseRule.same]

/-- A glob matches by one of the remainders of its first token. -/
theorem isMatch_cons_iff {rule : CaseRule} {token : Token} {tokens : List Token} {cs : List Char} :
    isMatch rule (token :: tokens) cs = true ↔
      ∃ rest ∈ token.remainders rule cs, isMatch rule tokens rest = true := by
  rw [isMatch_cons, List.any_eq_true]

/-- A token that stands for one character leaves what is behind such a character. -/
theorem mem_remainders_iff {token : Token} (hrun : token ≠ .anyRun) (hpath : token ≠ .anyPath)
    {cs rest : List Char} :
    rest ∈ token.remainders .sensitive cs ↔ ∃ c, token.accepts .sensitive c = true ∧ cs = c :: rest := by
  have hone : token.remainders .sensitive cs =
      cs.head?.elim [] fun c => if token.accepts .sensitive c then [cs.tail] else [] := by
    cases token with
    | anyRun => exact absurd rfl hrun
    | anyPath => exact absurd rfl hpath
    | _ => cases cs <;> rfl
  rw [hone]
  cases cs with
  | nil => simp
  | cons d cs =>
    rw [List.head?_cons, Option.elim_some, List.mem_ite_nil_right, List.mem_singleton]
    constructor
    · rintro ⟨hd, rfl⟩
      exact ⟨d, hd, rfl⟩
    · rintro ⟨c, hc, heq⟩
      obtain ⟨rfl, rfl⟩ := List.cons.inj heq
      exact ⟨hc, rfl⟩

theorem mem_remainders_anyPath_iff {cs rest : List Char} :
    rest ∈ Token.anyPath.remainders .sensitive cs ↔ IsTail rest cs ∨ rest = [] := by
  rw [isTail_iff]
  simp [Token.remainders, or_assoc]

/-- What tokens can be laid over, they match. -/
theorem isMatch_of_fits {tokens : List Token} {cs : List Char} (h : Fits tokens cs) :
    isMatch .sensitive tokens cs = true := by
  induction h with
  | nil => rfl
  | char _ ih =>
    refine isMatch_cons_iff.mpr ⟨_, (mem_remainders_iff (by simp) (by simp)).mpr ⟨_, ?_, rfl⟩, ih⟩
    simp [Token.accepts, CaseRule.same]
  | anyChar hc _ ih =>
    refine isMatch_cons_iff.mpr ⟨_, (mem_remainders_iff (by simp) (by simp)).mpr ⟨_, ?_, rfl⟩, ih⟩
    simp [Token.accepts, hc]
  | within hc hitem _ ih =>
    refine isMatch_cons_iff.mpr ⟨_, (mem_remainders_iff (by simp) (by simp)).mpr ⟨_, ?_, rfl⟩, ih⟩
    simpa [Token.accepts, hc, ClassItem.contains_eq_true_iff] using hitem
  | without hc hitem _ ih =>
    refine isMatch_cons_iff.mpr ⟨_, (mem_remainders_iff (by simp) (by simp)).mpr ⟨_, ?_, rfl⟩, ih⟩
    simpa [Token.accepts, hc, ← ClassItem.contains_eq_true_iff] using hitem
  | anyRun hblock _ ih => exact isMatch_cons_iff.mpr ⟨_, mem_runRemainders_iff.mpr ⟨_, hblock, rfl⟩, ih⟩
  | @anyPath components tokens cs hcomponents hne _ ih =>
    refine isMatch_cons_iff.mpr ⟨cs, mem_remainders_anyPath_iff.mpr (.inl (isTail_iff.mpr ?_)), ih⟩
    rw [mem_behindSlashes_iff]
    -- Either there is no component, or a slash stands behind the last one.
    rcases List.eq_nil_or_concat components with rfl | ⟨front, last, rfl⟩
    · exact .inl rfl
    · exact .inr ⟨front.flatMap (· ++ ['/']) ++ last, by simp⟩
  | anyPathEnd => exact isMatch_cons_iff.mpr ⟨[], mem_remainders_anyPath_iff.mpr (.inr rfl), rfl⟩

/-- Two stars take the components before an end that the rest fits. -/
theorem Fits.of_isTail {tokens : List Token} {tail cs : List Char} (hne : tokens ≠ [])
    (h : Fits tokens tail) (htail : IsTail tail cs) : Fits (.anyPath :: tokens) cs := by
  rw [isTail_iff, mem_behindSlashes_iff] at htail
  rcases htail with rfl | ⟨front, rfl⟩
  · simpa using @Fits.anyPath [] _ _ (by simp) hne h
  · obtain ⟨components, hcomponents, hfront⟩ := exists_components front
    rw [List.append_cons, hfront]
    exact .anyPath hcomponents hne h

/-- The last component of a path. -/
def lastComponent (cs : List Char) : List Char :=
  (pieces '/' cs).getLast (piecesBy_ne_nil _ _)

theorem slash_notMem_lastComponent (cs : List Char) : '/' ∉ lastComponent cs := fun hslash => by
  simpa using eq_false_of_mem_piecesBy (List.getLast_mem _) '/' hslash

/-- The last component starts behind a slash or with the text. -/
theorem isTail_lastComponent (cs : List Char) : IsTail (lastComponent cs) cs :=
  ⟨_, [lastComponent cs], by simp, (List.dropLast_concat_getLast _).symm, by simp⟩

/-- A glob matches what its tokens can be laid over. -/
theorem isMatch_iff_fits {tokens : List Token} {cs : List Char} :
    isMatch .sensitive tokens cs = true ↔ Fits tokens cs := by
  refine ⟨fun h => ?_, isMatch_of_fits⟩
  induction tokens generalizing cs with
  | nil =>
    obtain rfl : cs = [] := by simpa using h
    exact .nil
  | cons token tokens ih =>
    obtain ⟨rest, hrest, hmatch⟩ := isMatch_cons_iff.mp h
    have hfits := ih hmatch
    cases token with
    | char d =>
      obtain ⟨c, hc, rfl⟩ := (mem_remainders_iff (by simp) (by simp)).mp hrest
      obtain rfl : c = d := by simpa [Token.accepts, CaseRule.same] using hc
      exact .char hfits
    | anyChar =>
      obtain ⟨c, hc, rfl⟩ := (mem_remainders_iff (by simp) (by simp)).mp hrest
      exact .anyChar (by simpa [Token.accepts] using hc) hfits
    | within items =>
      obtain ⟨c, hc, rfl⟩ := (mem_remainders_iff (by simp) (by simp)).mp hrest
      simp only [Token.accepts, Bool.and_eq_true, decide_eq_true_eq, List.any_eq_true,
        ClassItem.contains_eq_true_iff] at hc
      exact .within hc.1 hc.2 hfits
    | without items =>
      obtain ⟨c, hc, rfl⟩ := (mem_remainders_iff (by simp) (by simp)).mp hrest
      simp only [Token.accepts, Bool.and_eq_true, decide_eq_true_eq, Bool.not_eq_true', List.any_eq_false,
        ClassItem.contains_eq_true_iff] at hc
      exact .without hc.1 hc.2 hfits
    | anyRun =>
      obtain ⟨block, hblock, rfl⟩ := mem_runRemainders_iff.mp hrest
      exact .anyRun hblock hfits
    | anyPath =>
      by_cases hne : tokens = []
      · subst hne
        exact fits_anyPath_end cs
      · rcases mem_remainders_anyPath_iff.mp hrest with htail | rfl
        · exact hfits.of_isTail hne htail
        -- Two stars may leave nothing at all; then the rest also fits the last component.
        · exact (hfits.of_nil hne (slash_notMem_lastComponent cs)).of_isTail hne (isTail_lastComponent cs)

/-! ## Two stars at the start

This is the form in which lines of ignore files are matched that ask for a name at any depth. All ends made of
whole components are tried, but a glob without slashes can only fit the last of them.
-/

/-- Behind two stars at its start, a glob fits some end of the text that is made of whole components. -/
theorem fits_anyPath_cons_iff {tokens : List Token} (hne : tokens ≠ []) {cs : List Char} :
    Fits (.anyPath :: tokens) cs ↔ ∃ tail, IsTail tail cs ∧ Fits tokens tail := by
  constructor
  · intro h
    obtain ⟨rest, hrest, hmatch⟩ := isMatch_cons_iff.mp (isMatch_of_fits h)
    have hfits := isMatch_iff_fits.mp hmatch
    rcases mem_remainders_anyPath_iff.mp hrest with htail | rfl
    · exact ⟨rest, htail, hfits⟩
    · exact ⟨_, isTail_lastComponent cs, hfits.of_nil hne (slash_notMem_lastComponent cs)⟩
  · rintro ⟨tail, htail, hfits⟩
    exact hfits.of_isTail hne htail

/-- Whether a token stays within a component: it is neither a slash nor two stars. -/
def Token.IsPlain (token : Token) : Prop := token ≠ .char '/' ∧ token ≠ .anyPath

/-- Tokens that stay within a component fit texts without slashes only. -/
theorem Fits.slash_notMem {tokens : List Token} {cs : List Char} (h : Fits tokens cs)
    (hplain : ∀ token ∈ tokens, token.IsPlain) : '/' ∉ cs := by
  induction h with
  | nil => simp
  | @char c _ _ _ ih =>
    obtain ⟨hc, hrest⟩ := List.forall_mem_cons.mp hplain
    exact List.not_mem_cons_of_ne_of_not_mem (fun heq => hc.1 (by rw [heq])) (ih hrest)
  | anyChar hc _ ih | within hc _ _ ih | without hc _ _ ih =>
    exact List.not_mem_cons_of_ne_of_not_mem (Ne.symm hc) (ih (List.forall_mem_cons.mp hplain).2)
  | anyRun hblock _ ih =>
    rw [List.mem_append, not_or]
    exact ⟨hblock, ih (List.forall_mem_cons.mp hplain).2⟩
  | anyPath | anyPathEnd => exact absurd rfl (List.forall_mem_cons.mp hplain).1.2

/-- Without a slash, an end made of whole components is the last one. -/
theorem eq_lastComponent_of_isTail {tail cs : List Char} (h : IsTail tail cs) (hslash : '/' ∉ tail) :
    tail = lastComponent cs := by
  have hpieces := pieces_of_notMem hslash
  rcases isTail_iff.mp h with rfl | hbehind
  · simp only [lastComponent, hpieces, List.getLast_singleton]
  · obtain ⟨front, rfl⟩ := mem_behindSlashes_iff.mp hbehind
    simp [lastComponent, pieces_append_sep, hpieces]

theorem toList_baseName (path : String) : (Path.baseName path).toList = lastComponent path.toList := by
  by_cases hslash : '/' ∈ path.toList
  · obtain ⟨dir, name, rfl, hname⟩ := Path.exists_eq_append hslash
    rw [Path.baseName_append, Path.baseName_of_notMem hname]
    have hbehind : name.toList ∈ behindSlashes (dir ++ "/" ++ name).toList :=
      mem_behindSlashes_iff.mpr ⟨dir.toList, by simp [show "/".toList = ['/'] from rfl]⟩
    exact eq_lastComponent_of_isTail (isTail_iff.mpr (.inr hbehind)) hname
  · rw [Path.baseName_of_notMem hslash]
    exact eq_lastComponent_of_isTail (isTail_iff.mpr (.inl rfl)) hslash

/-! ## Reading

What tokens a glob has is told from its text as far as it is needed: what is read behind a slash does not depend on
what stands before it, and without a slash no token reaches over one.
-/

/-- Behind a slash a glob is read as at its start. -/
theorem parseFrom?_slash (cs : List Char) : parseFrom? (some '/') cs = parseFrom? none cs := by
  rw [parseFrom?.eq_def, parseFrom?.eq_def]
  rfl

theorem parse?_slash_cons (cs : List Char) : parse? ('/' :: cs) = (parse? cs).map (.char '/' :: ·) := by
  rw [parse?, parseFrom?, parseFrom?_slash, parse?] <;> simp

theorem parse?_stars_cons (cs : List Char) :
    parse? ('*' :: '*' :: '/' :: cs) = (parse? cs).map (.anyPath :: ·) := by
  rw [parse?, parseFrom?, parseFrom?_slash, parse?]
  simp

theorem isPlain_of_class? {cs rest : List Char} {token : Token} (h : class? cs = some (token, rest)) :
    token.IsPlain ∧ rest ⊆ cs := by
  have hclose : ∀ make first (r : List Char), (∀ items, Token.IsPlain (make items)) →
      class?.close make first r = some (token, rest) → token.IsPlain ∧ rest ⊆ r := by
    intro make first r hmake hr
    unfold class?.close at hr
    split at hr
    · obtain ⟨rfl, rfl⟩ := Prod.mk.inj (Option.some.inj hr)
      exact ⟨hmake _, fun c hc => (List.dropWhile_suffix _).subset (List.mem_of_mem_drop hc)⟩
    · cases hr
  have hwithin : ∀ items, (Token.within items).IsPlain := fun _ => ⟨by simp, by simp⟩
  have hwithout : ∀ items, (Token.without items).IsPlain := fun _ => ⟨by simp, by simp⟩
  unfold class? at h
  split at h
  · obtain ⟨hplain, hsubset⟩ := hclose _ _ _ hwithout h
    exact ⟨hplain, fun c hc => List.mem_cons_of_mem _ (List.mem_cons_of_mem _ (hsubset hc))⟩
  · cases h
  · obtain ⟨hplain, hsubset⟩ := hclose _ _ _ hwithin h
    exact ⟨hplain, fun c hc => List.mem_cons_of_mem _ (hsubset hc)⟩
  · cases h

/--
By induction on the reading: without a slash, the tokens are two stars that take up a whole glob, or each stays
within a component.
-/
theorem isPlain_of_parseFrom? {before : Option Char} {cs : List Char} {tokens : List Token}
    (h : parseFrom? before cs = some tokens) (hslash : '/' ∉ cs) :
    before.all (· == '/') = true ∧ tokens = [.anyPath] ∨ ∀ token ∈ tokens, token.IsPlain := by
  -- Behind the first token stands a character that is no slash, so two stars cannot follow there.
  have hbehind : ∀ {c : Char} {token : Token} {rest : List Char}, c ≠ '/' → token.IsPlain →
      (∀ {more}, parseFrom? (some c) rest = some more → (some c).all (· == '/') = true ∧ more = [.anyPath] ∨
        ∀ token ∈ more, token.IsPlain) →
      ∀ {tokens}, (parseFrom? (some c) rest).map (token :: ·) = some tokens →
        ∀ token ∈ tokens, token.IsPlain := by
    intro c token rest hc htoken ih tokens hmap
    obtain ⟨more, hmore, rfl⟩ := Option.map_eq_some_iff.mp hmap
    rcases ih hmore with ⟨hall, -⟩ | hplain
    · exact absurd (by simpa using hall) hc
    · exact List.forall_mem_cons.mpr ⟨htoken, hplain⟩
  fun_induction parseFrom? before cs generalizing tokens with
  | case1 =>
    obtain rfl := Option.some.inj h
    exact .inr (by simp)
  | case2 before rest ih =>
    have hrest := List.not_mem_of_not_mem_cons hslash
    exact .inr (hbehind (by decide) ⟨by simp, by simp⟩ (fun h => ih h hrest) h)
  | case3 before hbefore => exact .inl ⟨hbefore, (Option.some.inj h).symm⟩
  | case4 => exact absurd (by simp) hslash
  | case5 | case6 | case9 => cases h
  | case7 before rest _ ih =>
    have hrest := List.not_mem_of_not_mem_cons hslash
    exact .inr (hbehind (by decide) ⟨by simp, by simp⟩ (fun h => ih h hrest) h)
  | case8 before rest token rest' hclass _ ih =>
    obtain ⟨htoken, hsubset⟩ := isPlain_of_class? hclass
    have hrest : '/' ∉ rest' := fun hmem => List.not_mem_of_not_mem_cons hslash (hsubset hmem)
    exact .inr (hbehind (by decide) htoken (fun h => ih h hrest) h)
  | case10 before c rest _ _ _ _ ih =>
    have hrest := List.not_mem_of_not_mem_cons hslash
    have hc : c ≠ '/' := fun heq => hslash (heq ▸ List.mem_cons_self)
    exact .inr (hbehind hc ⟨by simpa using hc, by simp⟩ (fun h => ih h hrest) h)

/-- The tokens of a glob without slashes stay within a component, unless they are two stars and no more. -/
theorem isPlain_of_parse? {cs : List Char} {tokens : List Token} (h : parse? cs = some tokens)
    (hslash : '/' ∉ cs) : tokens = [.anyPath] ∨ ∀ token ∈ tokens, token.IsPlain :=
  (isPlain_of_parseFrom? h hslash).imp_left And.right

theorem ne_nil_of_parse? {cs : List Char} {tokens : List Token} (h : parse? cs = some tokens)
    (hne : cs ≠ []) : tokens ≠ [] := by
  rintro rfl
  unfold parse? parseFrom? at h
  split at h
  · exact hne rfl
  all_goals grind only [Option.map_eq_some_iff]

/-- Whether a text is a well-formed glob whose tokens can be laid over another text. -/
def Matches (glob text : List Char) : Prop :=
  ∃ tokens, parse? glob = some tokens ∧ Fits tokens text

/-- Two stars and a slash before a glob let it match every end made of whole components. -/
theorem matches_stars_iff {glob text : List Char} (hne : glob ≠ []) :
    Matches ('*' :: '*' :: '/' :: glob) text ↔ ∃ tail, IsTail tail text ∧ Matches glob tail := by
  unfold Matches
  simp only [parse?_stars_cons, Option.map_eq_some_iff, exists_exists_and_eq_and]
  constructor
  · rintro ⟨tokens, hparse, hfits⟩
    obtain ⟨tail, htail, hfits⟩ := (fits_anyPath_cons_iff (ne_nil_of_parse? hparse hne)).mp hfits
    exact ⟨tail, htail, tokens, hparse, hfits⟩
  · rintro ⟨tail, htail, tokens, hparse, hfits⟩
    exact ⟨tokens, hparse, hfits.of_isTail (ne_nil_of_parse? hparse hne) htail⟩

/-- Behind two stars, a glob without slashes matches the last component. -/
theorem matches_stars_iff_of_notMem {glob text : List Char} (hne : glob ≠ []) (hslash : '/' ∉ glob) :
    Matches ('*' :: '*' :: '/' :: glob) text ↔ Matches glob (lastComponent text) := by
  rw [matches_stars_iff hne]
  constructor
  · rintro ⟨tail, htail, tokens, hparse, hfits⟩
    refine ⟨tokens, hparse, ?_⟩
    rcases isPlain_of_parse? hparse hslash with rfl | hplain
    · exact fits_anyPath_end _
    · rwa [← eq_lastComponent_of_isTail htail (hfits.slash_notMem hplain)]
  · exact fun hmatches => ⟨_, isTail_lastComponent text, hmatches⟩

end RepoScope.Glob
