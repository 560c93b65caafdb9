import RepoScope.Proofs.Outline.Balance
import RepoScope.Proofs.Outline.Tokens

/-!
# What literals and comments contain

A string is one token whatever stands between its quotes (`nextToken_of_content`), a comment goes to the end of its line
(`scanLine_of_comment`), and a line inside a comment or literal that does not close it has one token for each character
(`scanLine_of_isInner`). What stands before a string or comment is read for itself. So none of them tells the scanner
what it contains (`scanLine_ignores_contents`).
-/

namespace RepoScope.Outline

/-! ## Places in bytes

The program counts the columns of brackets in bytes, and the scanner here counts them in characters. Where a
bracket stands in bytes is the length of what is before it in the encoding, so it moves by the difference of the
lengths in bytes when something before it is replaced.
-/

/-- How many bytes a text has in its encoding. -/
def byteLength : List Char → Nat
  | [] => 0
  | c :: rest => c.utf8Size + byteLength rest

/-- Brackets of a line with the number of bytes before each. -/
def places (line : List Char) (bs : List Bracket) : List (Nat × Char) :=
  bs.map fun b => (byteLength (line.take b.column), b.char)

theorem byteLength_append (front back : List Char) : byteLength (front ++ back) = byteLength front + byteLength back := by
  induction front with
  | nil => rw [List.nil_append, byteLength, Nat.zero_add]
  | cons c rest ih => rw [List.cons_append, byteLength, byteLength, ih, Nat.add_assoc]

theorem places_append (line : List Char) (bs more : List Bracket) :
    places line (bs ++ more) = places line bs ++ places line more := List.map_append

/-- Brackets in the front of a line stand where they stand in the front alone. -/
theorem places_front {lexis : Lexis} {inside : Inside} (front back : List Char) :
    places (front ++ back) (scanLine lexis inside front).1 = places front (scanLine lexis inside front).1 := by
  refine List.map_congr_left fun b hb => ?_
  have hlt := (List.getElem?_eq_some_iff.mp (getElem?_of_mem_scanLine hb)).1
  rw [List.take_append_of_le_length (Nat.le_of_lt hlt)]

/-- Brackets behind the front of a line stand as many bytes further on as the front has. -/
theorem places_shift (front back : List Char) (bs : List Bracket) :
    places (front ++ back) (bs.map (Bracket.shift front.length)) =
      (places back bs).map fun place => (byteLength front + place.1, place.2) := by
  unfold places
  rw [List.map_map, List.map_map]
  refine List.map_congr_left fun b _ => ?_
  show (byteLength ((front ++ back).take (front.length + b.column)), b.char) = _
  rw [List.take_length_add_append, byteLength_append]
  rfl

/-! ## Strings and comments

A string whose content has neither its quote nor a backslash in it is one token up to its closing quote, so the
scanner goes on behind it as if the line began there. A comment is one token up to the end of the line. For what
stands before them, `Reaches` says that the scanner comes to the quote or the marker between two tokens; then the
line can be scanned in two parts.
-/

/-- Whether a quote opens a string that ends with its line. -/
def Lexis.OpensString (lexis : Lexis) (quote : Char) : Prop :=
  quote = '\x22' ∨ quote = '\x27' ∧ lexis.singleQuotes = true

/-- A text in quotes. -/
def quoted (quote : Char) (cs : List Char) : List Char := quote :: (cs ++ [quote])

/-- Whether what stands between two quotes leaves the second one to close the string, and there is something. -/
def IsContent (quote : Char) (cs : List Char) : Prop := cs ≠ [] ∧ quote ∉ cs ∧ '\\' ∉ cs

/-- Whether a marker turns the rest of a line into a comment, and starts no literal itself. -/
structure Lexis.MarksComments (lexis : Lexis) : Prop where
  ne_nil : lexis.lineComment ≠ []
  notMem_text : ∀ fence : Fence, ∀ c ∈ fence.text, c ∉ lexis.lineComment

/-- The comment markers of all languages are told from the delimiters of literals. -/
theorem marksComments_of_mem_layouts {lexis : Lexis} (h : lexis ∈ layouts.map (·.1.lexis)) :
    lexis.MarksComments := by
  have hmarkers : ∀ lexis ∈ layouts.map (·.1.lexis), lexis.lineComment ≠ [] ∧
      ∀ fence ∈ [Fence.backtick, .threeDouble, .threeSingle],
        fence.text.all (!lexis.lineComment.contains ·) = true := by
    decide
  obtain ⟨hne, htext⟩ := hmarkers lexis h
  refine ⟨hne, fun fence c hc => ?_⟩
  have hplain := List.all_eq_true.mp (htext fence (by cases fence <;> decide)) c hc
  simpa using hplain

/-- A string without its quote or a backslash in it ends at the next quote. -/
theorem stringWidth_of_content {quote : Char} {cs : List Char} (hslash : quote ≠ '\\') (hquote : quote ∉ cs)
    (hplain : '\\' ∉ cs) (n : Nat) (behind : List Char) :
    stringWidth quote n (cs ++ quote :: behind) = n + cs.length + 1 := by
  induction cs generalizing n with
  | nil => rw [List.nil_append, stringWidth_cons hslash, if_pos rfl, List.length_nil]
  | cons c rest ih =>
    rw [List.mem_cons, not_or] at hquote hplain
    rw [List.cons_append, stringWidth_cons (Ne.symm hplain.1), if_neg (Ne.symm hquote.1), ih hquote.2 hplain.2,
      List.length_cons]
    omega

section

variable {lexis : Lexis}

/-- No comment marker starts with a quote that opens a string. -/
theorem Lexis.MarksComments.not_isPrefixOf (h : lexis.MarksComments) {quote : Char} (hopens : lexis.OpensString quote)
    (rest : List Char) : ¬lexis.lineComment.isPrefixOf (quote :: rest) = true := by
  obtain ⟨d, marker, heq⟩ := List.exists_cons_of_ne_nil h.ne_nil
  intro hstarts
  rw [heq, List.isPrefixOf_iff_prefix, List.cons_prefix_cons] at hstarts
  have hmem : quote ∈ lexis.lineComment := by
    rw [heq, ← hstarts.1]
    exact List.mem_cons_self
  rcases hopens with rfl | ⟨rfl, -⟩
  · exact h.notMem_text .threeDouble _ List.mem_cons_self hmem
  · exact h.notMem_text .threeSingle _ List.mem_cons_self hmem

/-- A string is one token, whatever stands between its quotes. -/
theorem nextToken_of_content (hmarker : lexis.MarksComments) {quote : Char} (hopens : lexis.OpensString quote)
    {cs : List Char} (hcontent : IsContent quote cs) (behind : List Char) :
    nextToken lexis .code quote (cs ++ quote :: behind) = ⟨cs.length + 1, .code, false⟩ := by
  obtain ⟨hne, hquote, hplain⟩ := hcontent
  have hkind : quote = '\x22' ∨ quote = '\x27' := hopens.imp_right And.left
  have hblock : quote ≠ '/' := by
    rcases hkind with rfl | rfl <;> decide
  have hwidth : stringWidth quote 0 (cs ++ quote :: behind) = cs.length + 1 := by
    have hslash : quote ≠ '\\' := by
      rcases hkind with rfl | rfl <;> decide
    rw [stringWidth_of_content hslash hquote hplain, Nat.zero_add]
  -- The string contains something, and not its quote.
  have hthree : ∀ d : Char, ¬[d, d, d].isPrefixOf (quote :: (cs ++ quote :: behind)) = true := by
    intro d h
    obtain ⟨c, rest, rfl⟩ := List.exists_cons_of_ne_nil hne
    rw [List.isPrefixOf_iff_prefix, List.cons_prefix_cons, List.cons_append, List.cons_prefix_cons] at h
    obtain ⟨rfl, rfl, -⟩ := h
    exact hquote List.mem_cons_self
  unfold nextToken
  simp only
  rw [if_neg (hmarker.not_isPrefixOf hopens _), if_neg fun h => hblock h.2.1, if_neg fun h => hthree _ h.2,
    if_neg fun h => hthree _ h.2]
  rcases hopens with rfl | ⟨rfl, hquotes⟩
  · rw [if_pos rfl, hwidth]
  · rw [if_neg (by decide), if_pos rfl, if_pos hquotes, hwidth]

theorem quoted_append (quote : Char) (cs behind : List Char) :
    quoted quote cs ++ behind = quote :: (cs ++ quote :: behind) := by
  unfold quoted
  rw [List.cons_append, List.append_assoc, List.singleton_append]

/-- Behind a string, a line is scanned as if it began there. -/
theorem scanLine_of_content (hmarker : lexis.MarksComments) {quote : Char} (hopens : lexis.OpensString quote)
    {cs : List Char} (hcontent : IsContent quote cs) (behind : List Char) :
    scanLine lexis .code (quoted quote cs ++ behind) =
      ((scanLine lexis .code behind).1.map (Bracket.shift (quoted quote cs).length),
        (scanLine lexis .code behind).2) := by
  have hdrop : (cs ++ quote :: behind).drop (cs.length + 1) = behind := by
    rw [List.drop_append, List.drop_eq_nil_of_le (Nat.le_succ _), Nat.add_sub_cancel_left]
    rfl
  have hlength : (quoted quote cs).length = cs.length + 1 + 1 := by
    rw [quoted, List.length_cons, List.length_append, List.length_singleton]
  rw [quoted_append, scanLine, scanFrom, nextToken_of_content hmarker hopens hcontent, hlength]
  simp only [hdrop, Bool.false_eq_true, if_false]
  rw [scanFrom_eq_shift, Nat.zero_add]

/-- A line with a string has the brackets of what stands before it and those of what stands behind it. -/
theorem scanLine_append_content (hmarker : lexis.MarksComments) {quote : Char} (hopens : lexis.OpensString quote)
    {inside : Inside} {front cs behind : List Char} (hcontent : IsContent quote cs)
    (h : Reaches lexis inside front (quoted quote cs ++ behind) .code) :
    scanLine lexis inside (front ++ quoted quote cs ++ behind) =
      ((scanLine lexis inside front).1 ++
        (scanLine lexis .code behind).1.map (Bracket.shift (front ++ quoted quote cs).length),
        (scanLine lexis .code behind).2) := by
  have hshift : Bracket.shift front.length ∘ Bracket.shift (quoted quote cs).length =
      Bracket.shift (front ++ quoted quote cs).length := by
    funext b
    show Bracket.mk (front.length + ((quoted quote cs).length + b.column)) b.char =
      ⟨(front ++ quoted quote cs).length + b.column, b.char⟩
    rw [List.length_append, Nat.add_assoc]
  have hne : quoted quote cs ++ behind ≠ [] := List.cons_ne_nil _ _
  rw [List.append_assoc, scanLine_append hne h, scanLine_of_content hmarker hopens hcontent, List.map_map, hshift]

/-- A comment goes to the end of its line. -/
theorem scanLine_of_comment (hmarker : lexis.MarksComments) (cs : List Char) :
    scanLine lexis .code (lexis.lineComment ++ cs) = ([], .code) := by
  obtain ⟨d, marker, heq⟩ := List.exists_cons_of_ne_nil hmarker.ne_nil
  have htoken : nextToken lexis .code d (marker ++ cs) = ⟨(marker ++ cs).length, .code, false⟩ := by
    refine if_pos ?_
    rw [List.isPrefixOf_iff_prefix, heq]
    exact List.prefix_append _ _
  rw [scanLine, heq, List.cons_append, scanFrom, htoken]
  simp only [List.drop_length]
  rw [scanFrom]
  rfl

/-- A line with a comment has the brackets of what stands before the comment. -/
theorem scanLine_append_comment (hmarker : lexis.MarksComments) {inside : Inside} {front cs : List Char}
    (h : Reaches lexis inside front (lexis.lineComment ++ cs) .code) :
    scanLine lexis inside (front ++ (lexis.lineComment ++ cs)) = ((scanLine lexis inside front).1, .code) := by
  rw [scanLine_append (List.append_ne_nil_of_left_ne_nil hmarker.ne_nil cs) h, scanLine_of_comment hmarker,
    List.map_nil, List.append_nil]

/-- A delimiter that ends behind the marker of a comment would have the marker in it. -/
theorem Lexis.MarksComments.length_le (h : lexis.MarksComments) {text : List Char} (htext : text ∈ lexis.delimiters)
    {c : Char} {front other : List Char} (hstarts : text <+: c :: (front ++ lexis.lineComment) ++ other) :
    text.length ≤ (c :: (front ++ lexis.lineComment)).length := by
  by_contra hlong
  have hmarker : c :: (front ++ lexis.lineComment) <+: text :=
    List.prefix_of_prefix_length_le (List.prefix_append _ other) hstarts (by omega)
  have hpos := List.length_pos_of_ne_nil h.ne_nil
  rw [List.length_cons, List.length_append] at hlong
  have hfence : ∀ fence : Fence, text ≠ fence.text := by
    rintro fence rfl
    obtain ⟨d, hd⟩ := List.exists_mem_of_ne_nil _ h.ne_nil
    exact h.notMem_text fence d (hmarker.subset (List.mem_cons_of_mem c (List.mem_append_right front hd))) hd
  simp only [Lexis.delimiters, List.mem_cons, List.not_mem_nil, or_false, hfence] at htext
  rcases htext with rfl | rfl | rfl
  · omega
  · rw [show "/*".toList.length = 2 from rfl] at hlong
    omega
  · rw [show "*/".toList.length = 2 from rfl] at hlong
    omega

/-- Two comments behind a text make the same delimiters. -/
theorem Lexis.MarksComments.prefix_of_prefix (h : lexis.MarksComments) {text : List Char}
    (htext : text ∈ lexis.delimiters) {c : Char} {front cs other : List Char}
    (hstarts : text <+: c :: (front ++ (lexis.lineComment ++ other))) :
    text <+: c :: (front ++ (lexis.lineComment ++ cs)) := by
  rw [← List.append_assoc, ← List.cons_append] at hstarts ⊢
  exact (List.prefix_of_prefix_length_le hstarts (List.prefix_append _ other) (h.length_le htext hstarts)).trans
    (List.prefix_append _ cs)

/-- Where single quotes open strings, a comment is reached whatever it says. -/
theorem Reaches.of_comment (hmarker : lexis.MarksComments) (hquotes : lexis.singleQuotes = true)
    {inside after : Inside} {front cs : List Char} (h : Reaches lexis inside front (lexis.lineComment ++ cs) after)
    (other : List Char) : Reaches lexis inside front (lexis.lineComment ++ other) after := by
  generalize hback : lexis.lineComment ++ cs = back at h
  induction h with
  | refl inside back => exact .refl inside _
  | @token inside after c front back hfits hrest ih =>
    subst hback
    have htoken := nextToken_eq_of_fits (lexis.lineComment ++ other)
      (List.append_ne_nil_of_left_ne_nil hmarker.ne_nil cs) hfits (fun text htext => hmarker.prefix_of_prefix htext)
      fun hticks => by rw [hquotes] at hticks; cases hticks
    refine .token ?_ ?_
    · rwa [← htoken]
    · rw [← htoken]
      exact ih rfl

/-- Whether a line inside a comment or literal has nothing in it that could close it or keep it from being closed. -/
def IsInner : Inside → List Char → Prop
  | .code, _ => False
  | .comment, line => ¬"*/".toList <:+: line
  | .literal fence, line => ¬fence.text <:+: line ∧ '\\' ∉ line

/-- What stands behind the first character of such a line does not close it either. -/
theorem IsInner.of_cons {inside : Inside} {c : Char} {rest : List Char} (h : IsInner inside (c :: rest)) :
    IsInner inside rest := by
  cases inside with
  | code => exact h
  | comment => exact fun hwithin => h (hwithin.trans (List.suffix_cons c rest).isInfix)
  | literal fence =>
    exact ⟨fun hwithin => h.1 (hwithin.trans (List.suffix_cons c rest).isInfix),
      fun hslash => h.2 (List.mem_cons_of_mem c hslash)⟩

/-- Each character of such a line is a token for itself. -/
theorem nextToken_of_isInner {inside : Inside} {c : Char} {rest : List Char} (h : IsInner inside (c :: rest)) :
    nextToken lexis inside c rest = ⟨0, inside, false⟩ := by
  cases inside with
  | code => cases h
  | comment =>
    refine if_neg ?_
    rintro ⟨rfl, hhead⟩
    obtain ⟨more, rfl⟩ := List.head?_eq_some_iff.mp hhead
    exact h (List.prefix_append "*/".toList more).isInfix
  | literal fence =>
    refine (if_neg fun hslash => ?_).trans (if_neg fun hstarts => ?_)
    · exact h.2 (hslash ▸ List.mem_cons_self)
    · exact h.1 (List.isPrefixOf_iff_prefix.mp hstarts).isInfix

/-- Such a line has no brackets, and its end is inside of what its start is. -/
theorem scanFrom_of_isInner {inside : Inside} {line : List Char} (h : IsInner inside line) (column : Nat) :
    scanFrom lexis inside column [] line = ([], inside) := by
  induction line generalizing column with
  | nil =>
    rw [scanFrom]
    rfl
  | cons c rest ih =>
    rw [scanFrom, nextToken_of_isInner h]
    exact ih h.of_cons (column + 1)

/-- A line that does not close what it starts inside of has no brackets. -/
theorem scanLine_of_isInner {inside : Inside} {line : List Char} (h : IsInner inside line) :
    scanLine lexis inside line = ([], inside) :=
  scanFrom_of_isInner h 0

/-- The same holds of several such lines. -/
theorem marksFrom_of_isInner {inside : Inside} {lines : List (List Char)} (h : ∀ line ∈ lines, IsInner inside line)
    (row : Nat) : marksFrom lexis inside row lines = [] ∧ insideAfter lexis inside lines = inside := by
  induction lines generalizing row with
  | nil => exact ⟨rfl, rfl⟩
  | cons line rest ih =>
    obtain ⟨hline, hrest⟩ := List.forall_mem_cons.mp h
    have hscan : scanLine lexis inside line = ([], inside) := scanLine_of_isInner hline
    obtain ⟨hmarks, hafter⟩ := ih hrest (row + 1)
    refine ⟨?_, ?_⟩
    · rw [marksFrom, hscan, hmarks]
      rfl
    · show insideAfter lexis (scanLine lexis inside line).2 rest = inside
      rw [hscan, hafter]

end

/-! ## What is not reported

The theorem has one part for each of the three places where the scanner might be confused by contents: a string in
a line, a comment at its end, and a literal or comment over several lines. For strings and comments, both lines are
assumed to be reached as far as the delimiter.
-/

/-- Of two lines that differ in what a string contains, both have the brackets of what stands before the string and then
those of what stands behind it, further on by the length of what is before them, in columns and in bytes, and both end
inside of the same. Two lines that differ in what a comment says have the same brackets. Lines inside a comment or
literal that do not close it have none, and the comment or literal is still open behind them.

For a comment the scanner has to come to the marker on both lines only where a single quote opens a character literal,
since it looks for the end of one behind an escape. -/
theorem scanLine_ignores_contents {lexis : Lexis} (hlexis : lexis ∈ layouts.map (·.1.lexis)) (inside : Inside) :
    (∀ a quote s t b, lexis.OpensString quote → IsContent quote s → IsContent quote t →
      Reaches lexis inside a (quoted quote s ++ b) .code → Reaches lexis inside a (quoted quote t ++ b) .code →
      ∀ u ∈ [s, t],
        scanLine lexis inside (a ++ quoted quote u ++ b) =
          ((scanLine lexis inside a).1 ++
            (scanLine lexis .code b).1.map (Bracket.shift (a ++ quoted quote u).length),
            (scanLine lexis .code b).2) ∧
        places (a ++ quoted quote u ++ b) (scanLine lexis inside (a ++ quoted quote u ++ b)).1 =
          places a (scanLine lexis inside a).1 ++
            (places b (scanLine lexis .code b).1).map fun place =>
              (byteLength (a ++ quoted quote u) + place.1, place.2)) ∧
    (∀ a x y, Reaches lexis inside a (lexis.lineComment ++ x) .code →
      (lexis.singleQuotes = true ∨ Reaches lexis inside a (lexis.lineComment ++ y) .code) →
      ∀ u ∈ [x, y],
        scanLine lexis inside (a ++ (lexis.lineComment ++ u)) = ((scanLine lexis inside a).1, .code) ∧
        places (a ++ (lexis.lineComment ++ u)) (scanLine lexis inside (a ++ (lexis.lineComment ++ u))).1 =
          places a (scanLine lexis inside a).1) ∧
    (∀ row lines, (∀ line ∈ lines, IsInner inside line) →
      (∀ line ∈ lines, scanLine lexis inside line = ([], inside)) ∧
        marksFrom lexis inside row lines = [] ∧ insideAfter lexis inside lines = inside) := by
  have hmarker := marksComments_of_mem_layouts hlexis
  refine ⟨?_, ?_, ?_⟩
  · intro a quote s t b hopens hs ht hreach hreach' u hu
    -- Both contents satisfy the same hypotheses, so it is enough to look at one of them.
    have hcontent : IsContent quote u ∧ Reaches lexis inside a (quoted quote u ++ b) .code := by
      rcases List.mem_pair.mp hu with rfl | rfl
      · exact ⟨hs, hreach⟩
      · exact ⟨ht, hreach'⟩
    have hscan := scanLine_append_content hmarker hopens hcontent.1 hcontent.2
    refine ⟨hscan, ?_⟩
    rw [hscan, places_append, List.append_assoc a, places_front, ← List.append_assoc, places_shift]
  · intro a x y hreach hreach' u hu
    -- Where single quotes open strings, no token before the marker looks past it, and so one comment reaches
    -- the marker if the other one does.
    have hboth : Reaches lexis inside a (lexis.lineComment ++ u) .code := by
      rcases List.mem_pair.mp hu with rfl | rfl
      · exact hreach
      · exact hreach'.elim (fun hquotes => hreach.of_comment hmarker hquotes u) id
    have hscan := scanLine_append_comment hmarker hboth
    exact ⟨hscan, by rw [hscan, places_front]⟩
  · exact fun row lines h => ⟨fun line hline => scanLine_of_isInner (h line hline), marksFrom_of_isInner h row⟩

/--
A brace and a parenthesis in a string, a brace in a comment, and a line of a template, in a language with all
three.
-/
theorem scanLine_ignores_contents_sample :
    scanLine .slashesAndBackticks .code "f(\x22\x7b\x22) \x7b".toList = ([⟨1, '('⟩, ⟨5, ')'⟩, ⟨7, '{'⟩], .code) ∧
    places "f(\x22\u00e9)\x22) \x7b".toList (scanLine .slashesAndBackticks .code "f(\x22\u00e9)\x22) \x7b".toList).1 =
      [(1, '('), (7, ')'), (9, '{')] ∧
    scanLine .slashesAndBackticks .code "f(// \x7d".toList = ([⟨1, '('⟩], .code) ∧
    scanLine .slashesAndBackticks (.literal .backtick) "\x7b // \x7d".toList = ([], .literal .backtick) := by
  have hlexis : Lexis.slashesAndBackticks ∈ layouts.map (·.1.lexis) := by decide
  obtain ⟨hstring, hcomment, -⟩ := scanLine_ignores_contents hlexis .code
  obtain ⟨-, -, hlines⟩ := scanLine_ignores_contents hlexis (.literal .backtick)
  have hfront : scanLine .slashesAndBackticks .code "f(".toList = ([⟨1, '('⟩], .code) := by decide +kernel
  have hback : scanLine .slashesAndBackticks .code ") \x7b".toList = ([⟨0, ')'⟩, ⟨2, '{'⟩], .code) := by decide +kernel
  have hline := hstring "f(".toList '\x22' "\x7b".toList "\u00e9)".toList ") \x7b".toList (.inl rfl)
    ⟨by decide, by decide, by decide⟩ ⟨by decide, by decide, by decide⟩
    (.token (by decide) (.token (by decide) (.refl _ _))) (.token (by decide) (.token (by decide) (.refl _ _)))
  obtain ⟨hscan, -⟩ := hline _ List.mem_cons_self
  obtain ⟨-, hplaces⟩ := hline _ (List.mem_cons_of_mem _ List.mem_cons_self)
  have hreach : Reaches .slashesAndBackticks .code "f(".toList "// \x7d".toList .code :=
    .token (by decide) (.token (by decide) (.refl _ _))
  obtain ⟨hend, -⟩ := hcomment "f(".toList " \x7d".toList [] hreach (.inl rfl) _ List.mem_cons_self
  rw [hfront, hback] at hscan hplaces
  rw [hfront] at hend
  have hinner : ∀ line ∈ ["\x7b // \x7d".toList], IsInner (.literal .backtick) line :=
    List.forall_mem_singleton.mpr ⟨by decide, by decide⟩
  exact ⟨hscan, hplaces.trans (by decide), hend, (hlines 0 _ hinner).1 _ List.mem_cons_self⟩

/--
Where a single quote opens a character literal, it is not enough that the scanner comes to the marker on one of the
lines: behind an escape, what follows the marker on the other may close a literal around it.
-/
theorem scanLine_ne_of_escape :
    Reaches .slashesAndTicks .code "\x27\\".toList ("//".toList ++ []) .code ∧
    scanLine .slashesAndTicks .code ("\x27\\".toList ++ ("//".toList ++ [])) = ([], .code) ∧
    scanLine .slashesAndTicks .code ("\x27\\".toList ++ ("//".toList ++ "\x27\x7b".toList)) =
      ([⟨5, '{'⟩], .code) :=
  ⟨.token (by decide) (.token (by decide) (.refl _ _)), by decide +kernel, by decide +kernel⟩

end RepoScope.Outline
