import RepoScope.Proofs.Outline.Indented.Run
import RepoScope.Proofs.Outline.Tokens

/-!
# The colon that ends a header

The header of a function ends with the first colon that stands in code outside all brackets (`colonFrom`).
The outliner does not ask the scanner for it. On the first line of a header it looks for the colon with a
search of its own (`headerColon?`), which knows strings and brackets but no literals over several lines.
Without three quotes side by side the two agree (`colonFrom_eq_headerColon?`).
-/

namespace RepoScope.Outline.Indented

open Text

/-- The column of the first colon in code outside all brackets, where `depth` brackets are open before. -/
def colonFrom (lexis : Lexis) (inside : Inside) (depth column : Nat) : List Char → Option Nat
  | [] => none
  | c :: rest =>
    if inside = .code ∧ depth = 0 ∧ c = ':' then some column
    else
      let token := nextToken lexis inside c rest
      colonFrom lexis token.after
        (if token.bracket then (deepen? depth ⟨column, c⟩).getD 0 else depth)
        (column + token.more + 1) (rest.drop token.more)
  termination_by cs => cs.length
  decreasing_by simp only [List.length_drop, List.length_cons]; omega

/-! ## Tokens of code

In a language whose comments begin with a hash, a position in code has one of three tokens: a comment, a string, or
a character by itself.
-/

/-- A character that starts neither a comment nor a string is a token of its own. -/
theorem nextToken_of_plain {c : Char} (hash : c ≠ '#') (double : c ≠ '\x22') (single : c ≠ '\x27')
    (rest : List Char) : nextToken .hashes .code c rest = ⟨0, .code, isBracket c⟩ := by
  have hash' : ('#' == c) = false := beq_eq_false_iff_ne.mpr hash.symm
  have double' : ('\x22' == c) = false := beq_eq_false_iff_ne.mpr double.symm
  have single' : ('\x27' == c) = false := beq_eq_false_iff_ne.mpr single.symm
  simp [nextToken, Lexis.hashes, Fence.text, List.isPrefixOf, hash', double', single', double, single]

/-- A hash starts a comment that goes to the end of the line. -/
theorem nextToken_of_hash (rest : List Char) :
    nextToken .hashes .code '#' rest = ⟨rest.length, .code, false⟩ := by
  simp [nextToken, Lexis.hashes, List.isPrefixOf]

/-- A quote that is not the first of three starts a string. -/
theorem nextToken_of_quote {c : Char} (hc : c = '\x27' ∨ c = '\x22') (rest : List Char)
    (hthree : ¬[c, c] <+: rest) :
    nextToken .hashes .code c rest = ⟨stringWidth c 0 rest, .code, false⟩ := by
  have hprefix : [c, c, c].isPrefixOf (c :: rest) = false := by
    rw [Bool.eq_false_iff]
    exact fun h => hthree (List.cons_prefix_cons.mp (List.isPrefixOf_iff_prefix.mp h)).2
  rcases hc with rfl | rfl
  · have hother : ['\x22', '\x22', '\x22'].isPrefixOf ('\x27' :: rest) = false := rfl
    simp [nextToken, Lexis.hashes, Fence.text, hprefix, hother]
  · have hother : ['\x27', '\x27', '\x27'].isPrefixOf ('\x22' :: rest) = false := rfl
    simp [nextToken, Lexis.hashes, Fence.text, hprefix, hother]

/-! ## The two searches for the colon

The outliner searches the trimmed text of the line, and the scanner the line as it is. Both step over strings,
count brackets and stop at a comment, so they go on together token by token. They part only at three quotes, which
the scanner takes for a literal over several lines and the search of the outliner for a string that is empty and a
quote.
-/

/-- The search passes a string as a whole. -/
theorem headerColonFrom_quote (quote : Char) (n column : Nat) (depth : Int) (cs : List Char) :
    headerColonFrom column ⟨depth, some quote, false⟩ cs =
      headerColonFrom (column + stringWidth quote 0 cs) ⟨depth, none, false⟩
        (cs.drop (stringWidth quote 0 cs)) := by
  -- Induction on the string, since a backslash takes the next character with it.
  induction n, cs using stringWidth.induct quote generalizing column with
  | case1 n => rfl
  | case2 n => rfl
  | case3 n c rest ih =>
    have hwidth : stringWidth quote 0 ('\\' :: c :: rest) = 2 + stringWidth quote 0 rest := by
      rw [stringWidth, ← stringWidth_add]
    rw [hwidth, headerColonFrom]
    simp only [Bool.false_eq_true, if_false, if_true]
    rw [headerColonFrom]
    simp only [if_true]
    rw [ih, ← List.drop_drop, List.drop_succ_cons, List.drop_succ_cons, List.drop_zero]
    congr 1
    omega
  | case4 n rest hlast hescape =>
    have hslash := ne_backslash hlast hescape
    have hwidth : stringWidth quote 0 (quote :: rest) = 1 := by rw [stringWidth_cons hslash, if_pos rfl]
    rw [hwidth, headerColonFrom]
    simp only [Bool.false_eq_true, if_false, if_true, hslash, List.drop_succ_cons, List.drop_zero]
  | case5 n c rest hlast hescape hne ih =>
    have hslash := ne_backslash hlast hescape
    have hwidth : stringWidth quote 0 (c :: rest) = 1 + stringWidth quote 0 rest := by
      rw [stringWidth_cons hslash, if_neg hne, ← stringWidth_add]
    rw [hwidth, headerColonFrom]
    simp only [Bool.false_eq_true, if_false, hslash, hne]
    rw [ih, ← List.drop_drop, List.drop_succ_cons, List.drop_zero]
    congr 1
    omega

/-- Blanks in front of a text only move the colon. -/
theorem headerColonFrom_append_left {blanks : List Char} (hblanks : ∀ c ∈ blanks, isBlank c = true)
    (column : Nat) (depth : Int) (cs : List Char) :
    headerColonFrom column ⟨depth, none, false⟩ (blanks ++ cs) =
      headerColonFrom (column + blanks.length) ⟨depth, none, false⟩ cs := by
  induction blanks generalizing column with
  | nil => rfl
  | cons c rest ih =>
    have hc : isBlank c = true := hblanks c List.mem_cons_self
    have hne : ∀ d : Char, isBlank d = false → c ≠ d := by
      rintro d hd rfl
      rw [hc] at hd
      cases hd
    rw [List.cons_append, headerColonFrom]
    simp only [hne '\x27' (by decide), hne '\x22' (by decide), hne '(' (by decide), hne '[' (by decide),
      hne '{' (by decide), hne ')' (by decide), hne ']' (by decide), hne '}' (by decide),
      hne ':' (by decide), hne '#' (by decide), or_self, false_and, if_false]
    rw [ih fun d hd => hblanks d (List.mem_cons_of_mem c hd), List.length_cons]
    congr 1
    omega

/-- There is no colon in blanks. -/
theorem headerColonFrom_of_blank {blanks : List Char} (hblanks : ∀ c ∈ blanks, isBlank c = true)
    (column : Nat) (s : ColonSearch) : headerColonFrom column s blanks = none := by
  induction blanks generalizing column s with
  | nil => rfl
  | cons c rest ih =>
    have ih := fun column s => ih (fun d hd => hblanks d (List.mem_cons_of_mem c hd)) column s
    have hcolon : c ≠ ':' := by
      rintro rfl
      exact absurd (hblanks ':' List.mem_cons_self) (by decide)
    rw [headerColonFrom]
    simp only [ih, hcolon, false_and, if_false, ite_self]
    split <;> rfl

/-- Blanks behind a text have no colon in them. -/
theorem headerColonFrom_append_right {blanks : List Char} (hblanks : ∀ c ∈ blanks, isBlank c = true)
    (column : Nat) (s : ColonSearch) (cs : List Char) :
    headerColonFrom column s (cs ++ blanks) = headerColonFrom column s cs := by
  induction cs generalizing column s with
  | nil => exact headerColonFrom_of_blank hblanks column s
  | cons c rest ih =>
    rw [List.cons_append, headerColonFrom, headerColonFrom]
    simp only [ih]

/-- Where a text starts only moves the colon. -/
theorem headerColonFrom_add (shift column : Nat) (s : ColonSearch) (cs : List Char) :
    headerColonFrom (shift + column) s cs = (headerColonFrom column s cs).map (shift + ·) := by
  induction cs generalizing column s with
  | nil => rfl
  | cons c rest ih =>
    rw [headerColonFrom, headerColonFrom]
    simp only [Nat.add_assoc, ih]
    repeat' split
    all_goals rfl

/-- Whether no three quotes of a kind stand side by side. -/
def HasNoFence (cs : List Char) : Prop :=
  ∀ c, c = '\x27' ∨ c = '\x22' → ¬[c, c, c] <:+: cs

/-- What has no fence in it has none in its rest. -/
theorem HasNoFence.of_suffix {cs rest : List Char} (h : HasNoFence cs) (hrest : rest <:+ cs) :
    HasNoFence rest :=
  fun c hc hpart => h c hc (hpart.trans hrest.isInfix)

/-- Both searches find the same colon, if no literal over several lines starts in front of it. -/
theorem colonFrom_eq_headerColonFrom {cs : List Char} {depth column d : Nat} (hfence : HasNoFence cs)
    (hvalid : (scanFrom .hashes .code column [] cs).1.foldlM deepen? depth = some d) :
    colonFrom .hashes .code depth column cs = headerColonFrom column ⟨depth, none, false⟩ cs := by
  induction hn : cs.length using Nat.strongRecOn generalizing cs depth column with
  | ind n ih =>
    cases cs with
    | nil => rw [colonFrom, headerColonFrom]
    | cons c rest =>
      rw [scanFrom_cons] at hvalid
      have hlen : ∀ k, (rest.drop k).length < n := by
        intro k
        rw [← hn, List.length_drop, List.length_cons]
        omega
      have hrest : ∀ k, HasNoFence (rest.drop k) := fun k =>
        hfence.of_suffix ((List.drop_suffix k rest).trans (List.suffix_cons c rest))
      by_cases hquote : c = '\x27' ∨ c = '\x22'
      · -- A string is one token here, and is passed character by character there.
        have htoken := nextToken_of_quote hquote rest fun hprefix =>
          hfence c hquote (List.prefix_cons_inj c |>.mpr hprefix).isInfix
        have hcolon : c ≠ ':' := by rcases hquote with rfl | rfl <;> decide
        rw [htoken] at hvalid
        rw [colonFrom, headerColonFrom]
        simp only [hcolon, and_false, if_false, htoken, Bool.false_eq_true, hquote, if_true]
        rw [headerColonFrom_quote c 0, ih _ (hlen _) (hrest _) hvalid rfl]
        exact congrArg (headerColonFrom · _ _) (Nat.add_right_comm _ _ _)
      · rw [not_or] at hquote
        by_cases hhash : c = '#'
        · subst hhash
          rw [colonFrom, headerColonFrom]
          simp [nextToken_of_hash, colonFrom]
        · have htoken := nextToken_of_plain hhash hquote.2 hquote.1 rest
          rw [htoken] at hvalid
          rw [colonFrom, headerColonFrom]
          simp only [htoken, hquote.1, hquote.2, hhash, or_self, if_false, true_and, List.drop_zero,
            Nat.add_zero] at hvalid ⊢
          have hnext : ∀ depth', (scanFrom .hashes .code (column + 1) [] rest).1.foldlM deepen? depth' =
              some d → colonFrom .hashes .code depth' (column + 1) rest =
                headerColonFrom (column + 1) ⟨depth', none, false⟩ rest := fun depth' h =>
            ih _ (by simpa using hlen 0) (by simpa using hrest 0) h rfl
          by_cases hopen : c = '(' ∨ c = '[' ∨ c = '{'
          · have hcolon : c ≠ ':' := by rcases hopen with rfl | rfl | rfl <;> decide
            have hbracket : isBracket c = true := by rcases hopen with rfl | rfl | rfl <;> rfl
            have hdeepen : deepen? depth ⟨column, c⟩ = some (depth + 1) := if_pos hopen
            simp only [hbracket, if_true, List.singleton_append, List.foldlM_cons, hdeepen] at hvalid
            simp only [hcolon, and_false, false_and, if_false, hbracket, if_true, hdeepen, hopen,
              Option.getD_some]
            exact hnext (depth + 1) hvalid
          · by_cases hclose : c = ')' ∨ c = ']' ∨ c = '}'
            · have hcolon : c ≠ ':' := by rcases hclose with rfl | rfl | rfl <;> decide
              have hbracket : isBracket c = true := by rcases hclose with rfl | rfl | rfl <;> rfl
              simp only [hbracket, if_true, List.singleton_append, List.foldlM_cons] at hvalid
              obtain ⟨depth', hdeepen, hvalid⟩ := Option.bind_eq_some_iff.mp hvalid
              have hless : (depth' : Int) = depth - 1 := by
                rw [deepen?, if_neg hopen] at hdeepen
                split at hdeepen
                · cases hdeepen
                · cases hdeepen
                  omega
              simp only [hcolon, and_false, false_and, if_false, hbracket, if_true, hdeepen, hopen,
                hclose, Option.getD_some, ← hless]
              exact hnext depth' hvalid
            · have hbracket : isBracket c = false := by
                simp only [not_or] at hopen hclose
                simp [isBracket, hopen, hclose]
              simp only [hbracket, Bool.false_eq_true, if_false, List.nil_append] at hvalid
              simp only [hbracket, Bool.false_eq_true, if_false, hopen, hclose]
              rw [hnext depth hvalid]
              by_cases hcolon : c = ':' ∧ (depth : Int) = 0
              · rw [if_pos hcolon, if_pos ⟨by omega, hcolon.1⟩]
              · rw [if_neg hcolon, if_neg fun h => hcolon ⟨h.2, by omega⟩]

/-- A header is cut at the first colon of its line that stands in code outside all brackets. -/
theorem colonFrom_eq_headerColon? {line : Line} {r : Reading}
    (hr : Reading.of? .hashes .code 0 line = some r) (hfence : HasNoFence line.text) :
    colonFrom .hashes .code 0 0 line.text =
      (headerColon? r.trimmed).map ((leadingBlanks line.text).length + ·) := by
  obtain ⟨behind, hbehind, hline⟩ := exists_eq_append_trim line.text
  obtain ⟨depth, hvalid, -⟩ := Reading.of?_eq_some hr
  have hblanks : ∀ c ∈ leadingBlanks line.text, isBlank c = true := fun c hc =>
    List.mem_takeWhile_imp hc
  calc colonFrom .hashes .code 0 0 line.text
      = headerColonFrom 0 ⟨0, none, false⟩ line.text := colonFrom_eq_headerColonFrom hfence hvalid
    _ = headerColonFrom 0 ⟨0, none, false⟩ (leadingBlanks line.text ++ trim line.text) := by
        conv_lhs => rw [hline]
        exact headerColonFrom_append_right hbehind 0 _ _
    _ = headerColonFrom ((leadingBlanks line.text).length + 0) ⟨0, none, false⟩ (trim line.text) := by
        rw [headerColonFrom_append_left hblanks, Nat.zero_add, Nat.add_zero]
    _ = (headerColon? r.trimmed).map ((leadingBlanks line.text).length + ·) := by
        rw [headerColonFrom_add, headerColon?, Reading.trimmed_eq hr]

section

variable {lexis : Lexis} {inside : Inside} {start column : Nat} {line : Line} {r : Reading}

/-- What a line has up to its colon, and behind it, is what its trimmed text has but for blanks. -/
theorem take_drop_of_headerColon? (hr : Reading.of? lexis inside start line = some r)
    (hcolon : headerColon? r.trimmed = some column) :
    line.text.take ((leadingBlanks line.text).length + column + 1) =
        leadingBlanks line.text ++ r.trimmed.take (column + 1) ∧
      ∃ blanks, (∀ c ∈ blanks, isBlank c = true) ∧
        line.text.drop ((leadingBlanks line.text).length + column + 1) =
          r.trimmed.drop (column + 1) ++ blanks := by
  obtain ⟨blanks, hblanks, hline⟩ := exists_eq_append_trim line.text
  rw [← Reading.trimmed_eq hr, List.append_assoc] at hline
  have hlt : column + 1 ≤ r.trimmed.length :=
    (List.getElem?_eq_some_iff.mp (getElem?_of_headerColon? hcolon)).1
  generalize leadingBlanks line.text = front at hline ⊢
  rw [hline, Nat.add_assoc, List.take_length_add_append, List.drop_length_add_append,
    List.take_append_of_le_length hlt, List.drop_append_of_le_length hlt]
  exact ⟨rfl, blanks, hblanks, rfl⟩

/-- The cut of a header is the line up to the colon, with the elision mark behind it. -/
theorem text_cutAtColon (hr : Reading.of? lexis inside start line = some r)
    (hcolon : headerColon? r.trimmed = some column) :
    (cutAtColon r column).text =
      line.text.take ((leadingBlanks line.text).length + column + 1) ++ ' ' :: elision := by
  rw [cutAtColon, Reading.line_eq hr, (take_drop_of_headerColon? hr hcolon).1]

/-- Whether there is code behind the colon can be seen from the trimmed text. -/
theorem isBare_drop (hr : Reading.of? lexis inside start line = some r)
    (hcolon : headerColon? r.trimmed = some column) :
    isBare (line.text.drop ((leadingBlanks line.text).length + column + 1)) =
      isBare (r.trimmed.drop (column + 1)) := by
  obtain ⟨blanks, hblanks, hdrop⟩ := (take_drop_of_headerColon? hr hcolon).2
  rw [isBare, isBare, hdrop, trim_append_right hblanks]

end

/-! ## What stands behind the colon

A colon outside brackets with nothing but a comment behind it leaves the scanner in code and no bracket open. This
is what tells that the line of the colon is the end of the header for the scanner, also where the outliner does not
see it.
-/

/-- Blanks in front of a text only move its brackets. -/
theorem scanFrom_append_left {blanks : List Char} (hblanks : ∀ c ∈ blanks, isBlank c = true)
    (column : Nat) (cs : List Char) :
    scanFrom .hashes .code column [] (blanks ++ cs) =
      scanFrom .hashes .code (column + blanks.length) [] cs := by
  induction blanks generalizing column with
  | nil => rfl
  | cons c rest ih =>
    have hne : ∀ d : Char, isBlank d = false → c ≠ d := by
      rintro d hd rfl
      rw [hblanks c List.mem_cons_self] at hd
      cases hd
    have hbracket : isBracket c = false := by
      simp [isBracket, hne '{' (by decide), hne '}' (by decide), hne '(' (by decide),
        hne ')' (by decide), hne '[' (by decide), hne ']' (by decide)]
    have htoken := nextToken_of_plain (hne '#' (by decide)) (hne '\x22' (by decide))
      (hne '\x27' (by decide)) (rest ++ cs)
    rw [List.cons_append, scanFrom]
    simp only [htoken, hbracket, Bool.false_eq_true, if_false, List.drop_zero, Nat.add_zero]
    rw [ih fun d hd => hblanks d (List.mem_cons_of_mem c hd), List.length_cons]
    congr 1
    omega

/-- Behind a colon with no code there is no bracket, and the line ends in code. -/
theorem scanFrom_of_isBare {behind : List Char} (h : isBare behind = true) (column : Nat) :
    scanFrom .hashes .code column [] behind = ([], .code) := by
  obtain ⟨tail, htail, hbehind⟩ := exists_eq_append_trim behind
  have hblanks : ∀ c ∈ leadingBlanks behind, isBlank c = true := fun c hc =>
    List.mem_takeWhile_imp hc
  rw [isBare, Bool.or_eq_true, decide_eq_true_eq, List.isEmpty_iff] at h
  rw [hbehind, List.append_assoc, scanFrom_append_left hblanks]
  rcases h with h | h
  · rw [h, List.nil_append, ← List.append_nil tail, scanFrom_append_left htail, scanFrom,
      List.reverse_nil]
  · obtain ⟨more, hmore⟩ := List.head?_eq_some_iff.mp h
    rw [hmore, List.cons_append, scanFrom]
    simp [nextToken_of_hash, scanFrom]

/-- What is found is a colon. -/
theorem getElem?_of_colonFrom {lexis : Lexis} {inside : Inside} {depth column n : Nat}
    {cs : List Char} (h : colonFrom lexis inside depth column cs = some n) :
    column ≤ n ∧ cs[n - column]? = some ':' := by
  induction inside, column, cs using scan_induction lexis generalizing depth with
  | nil inside column =>
    rw [colonFrom] at h
    cases h
  | token inside column c rest ih =>
    rw [colonFrom] at h
    split at h
    · next hcolon =>
      cases h
      simp [hcolon.2.2]
    · obtain ⟨hle, hget⟩ := ih h
      exact ⟨by omega, getElem?_cons_of_drop hle hget⟩

/-- Where nothing but blanks and a comment stand behind the colon, a line ends in code outside brackets. -/
theorem scanFrom_of_colonFrom {inside : Inside} {depth column n d : Nat} {cs : List Char}
    (h : colonFrom .hashes inside depth column cs = some n)
    (hquiet : ∀ k, scanFrom .hashes .code k [] (cs.drop (n + 1 - column)) = ([], .code))
    (hvalid : (scanFrom .hashes inside column [] cs).1.foldlM deepen? depth = some d) :
    d = 0 ∧ (scanFrom .hashes inside column [] cs).2 = .code := by
  induction inside, column, cs using scan_induction .hashes generalizing depth with
  | nil inside column =>
    rw [colonFrom] at h
    cases h
  | token inside column c rest ih =>
    rw [scanFrom_cons] at hvalid
    rw [scanFrom_cons_snd]
    rw [colonFrom] at h
    split at h
    · next hcolon =>
      obtain ⟨rfl, rfl, rfl⟩ := hcolon
      cases h
      have htoken := nextToken_of_plain (c := ':') (by decide) (by decide) (by decide) rest
      have hbracket : isBracket ':' = false := rfl
      have hbehind := hquiet (n + 1)
      rw [Nat.add_sub_cancel_left, List.drop_succ_cons, List.drop_zero] at hbehind
      rw [htoken] at hvalid ⊢
      simp only [hbracket, Bool.false_eq_true, if_false, List.nil_append, List.drop_zero, Nat.add_zero,
        hbehind] at hvalid ⊢
      cases hvalid
      exact ⟨rfl, trivial⟩
    · have hle := (getElem?_of_colonFrom h).1
      refine ih h (fun k => ?_) ?_
      · have hbehind := hquiet k
        have hshift : n + 1 - column = (nextToken .hashes inside c rest).more +
            (n + 1 - (column + (nextToken .hashes inside c rest).more + 1)) + 1 := by omega
        rw [hshift, List.drop_succ_cons, ← List.drop_drop] at hbehind
        exact hbehind
      · -- The depth behind the token is that with which the search goes on.
        split at hvalid
        · next hbracket =>
          rw [List.singleton_append, List.foldlM_cons] at hvalid
          obtain ⟨depth', hdeepen, hvalid⟩ := Option.bind_eq_some_iff.mp hvalid
          rw [if_pos hbracket, hdeepen, Option.getD_some]
          exact hvalid
        · next hbracket =>
          rw [if_neg hbracket]
          exact hvalid

end RepoScope.Outline.Indented
