import RepoScope.Proofs.Outline.Marks

/-!
# Tokens and what follows them

The scanner looks ahead for markers, for three quotes, for the end of a string and for that of a character literal.
Where it comes between two tokens to the end of a part of a line (`Reaches`), it has not looked at what follows for any
of them: these tokens are those of the part alone (`nextToken_append`), and they stay the same if what follows is
changed without making a delimiter or a character literal (`nextToken_eq_of_fits`). So the brackets of a line are those
of the part and of what follows, each read for itself (`scanLine_append`).
-/

namespace RepoScope.Outline

/-! ## Strings and character literals

The width of a string is found by going along the line, and that of a character literal by looking at most ten
characters ahead. Where the width that is found stays within the front of a line, it has not gone into what
follows.
-/

/-- A character that is no backslash ends a string or is one more of it. -/
theorem stringWidth_cons {quote c : Char} (hc : c ≠ '\\') (n : Nat) (rest : List Char) :
    stringWidth quote n (c :: rest) = if c = quote then n + 1 else stringWidth quote (n + 1) rest := by
  rw [stringWidth]
  · rintro rfl
    exact absurd rfl hc
  · rintro _ _ rfl
    exact absurd rfl hc

/-- What neither ends a string nor takes the next character with it is no backslash. -/
theorem ne_backslash {c : Char} {rest : List Char} (hlast : c = '\\' → rest = [] → False)
    (hescape : ∀ d more, c = '\\' → rest = d :: more → False) : c ≠ '\\' := by
  intro hc
  cases rest with
  | nil => exact hlast hc rfl
  | cons d more => exact hescape d more hc rfl

/-- What a string has before the characters that are looked at adds to its width. -/
theorem stringWidth_add (quote : Char) (m n : Nat) (cs : List Char) :
    stringWidth quote (m + n) cs = m + stringWidth quote n cs := by
  induction n, cs using stringWidth.induct quote with
  | case1 n => rfl
  | case2 n => rfl
  | case3 n c rest ih =>
    rw [stringWidth, stringWidth]
    exact ih
  | case4 n rest hlast hescape =>
    have hslash := ne_backslash hlast hescape
    rw [stringWidth_cons hslash, stringWidth_cons hslash, if_pos rfl, if_pos rfl]
    rfl
  | case5 n c rest hlast hescape hne ih =>
    have hslash := ne_backslash hlast hescape
    rw [stringWidth_cons hslash, stringWidth_cons hslash, if_neg hne, if_neg hne]
    exact ih

theorem le_stringWidth (quote : Char) (n : Nat) (cs : List Char) : n ≤ stringWidth quote n cs := by
  show n + 0 ≤ stringWidth quote (n + 0) cs
  rw [stringWidth_add]
  omega

theorem lt_stringWidth (quote : Char) (n : Nat) {cs : List Char} (hne : cs ≠ []) : n < stringWidth quote n cs := by
  obtain ⟨c, rest, rfl⟩ := List.exists_cons_of_ne_nil hne
  by_cases hc : c = '\\'
  · subst hc
    cases rest with
    | nil => exact Nat.lt_succ_self n
    | cons d rest => exact Nat.lt_of_lt_of_le (by omega) (le_stringWidth quote (n + 2) rest)
  · rw [stringWidth_cons hc]
    split
    · exact Nat.lt_succ_self n
    · exact le_stringWidth quote (n + 1) rest

section

variable {front back : List Char}

/-- A string that ends in the front of a text ends there whatever follows. -/
theorem stringWidth_append {quote : Char} {n : Nat} (hne : back ≠ [])
    (hfits : stringWidth quote n (front ++ back) ≤ n + front.length) (other : List Char) :
    stringWidth quote n (front ++ back) = stringWidth quote n (front ++ other) := by
  induction n, front using stringWidth.induct quote with
  | case1 n =>
    have hlt := lt_stringWidth quote n hne
    rw [List.nil_append, List.length_nil] at hfits
    omega
  | case2 n =>
    -- The backslash would take the first character behind the front.
    obtain ⟨d, back, rfl⟩ := List.exists_cons_of_ne_nil hne
    have hle := le_stringWidth quote (n + 2) back
    rw [List.singleton_append, stringWidth, List.length_singleton] at hfits
    omega
  | case3 n c rest ih =>
    rw [List.cons_append, List.cons_append, stringWidth, List.length_cons, List.length_cons] at hfits
    rw [List.cons_append, List.cons_append, List.cons_append, List.cons_append, stringWidth, stringWidth]
    exact ih (by omega)
  | case4 n rest hlast hescape =>
    have hslash := ne_backslash hlast hescape
    rw [List.cons_append, List.cons_append, stringWidth_cons hslash, stringWidth_cons hslash, if_pos rfl, if_pos rfl]
  | case5 n c rest hlast hescape hquote ih =>
    have hslash := ne_backslash hlast hescape
    rw [List.cons_append, stringWidth_cons hslash, if_neg hquote, List.length_cons] at hfits
    rw [List.cons_append, List.cons_append, stringWidth_cons hslash, stringWidth_cons hslash, if_neg hquote,
      if_neg hquote]
    exact ih (by omega)

/-- A character literal without an escape is one character and a quote. -/
theorem charWidth_cons {c : Char} (hc : c ≠ '\\') (rest : List Char) :
    charWidth (c :: rest) = if rest.head? = some '\x27' then 2 else 0 := by
  unfold charWidth
  split
  · next heq =>
    cases heq
    exact absurd rfl hc
  · next heq =>
    cases heq
    rfl
  · next hquote =>
    refine (if_neg fun hhead => ?_).symm
    obtain ⟨more, rfl⟩ := List.head?_eq_some_iff.mp hhead
    exact hquote c more rfl

/-- The same holds of a character literal, and of a quote that stands alone. -/
theorem charWidth_append (hfits : charWidth (front ++ back) ≤ front.length) :
    charWidth (front ++ back) = charWidth front := by
  cases front with
  | nil => exact Nat.le_zero.mp hfits
  | cons c rest =>
    rw [List.cons_append, List.length_cons] at hfits
    rw [List.cons_append]
    by_cases hc : c = '\\'
    · subst hc
      simp only [charWidth, List.take_append, List.findIdx?_append] at hfits ⊢
      cases hfront : (rest.take 10).findIdx? (· == '\x27') with
      | some i => rfl
      | none =>
        -- A quote behind the front would end the literal there.
        cases hback : (back.take (10 - rest.length)).findIdx? (· == '\x27') with
        | none => rfl
        | some i =>
          have hshort : rest.length < 10 := by
            by_contra hlong
            rw [Nat.sub_eq_zero_of_le (by omega), List.take_zero] at hback
            cases hback
          rw [hfront, hback, List.length_take, Nat.min_eq_right (by omega)] at hfits
          change i + rest.length + 2 ≤ rest.length + 1 at hfits
          omega
    · rw [charWidth_cons hc] at hfits ⊢
      rw [charWidth_cons hc]
      cases rest with
      | cons d rest => rfl
      | nil =>
        refine if_neg fun hhead => ?_
        rw [if_pos hhead, List.length_nil] at hfits
        omega

/-! ## Delimiters

A token at the end of a front might be another one with more behind it: a slash with a slash, a quote with two
more. That it is not is said of delimiters as a list. If the token ends in the front, a delimiter that stands there
ends in the front as well or would begin behind it, and so does not depend on what follows.
-/

variable {lexis : Lexis} {inside : Inside} {c : Char}

/-- What the scanner looks for at the start of what is left of a line. -/
def Lexis.delimiters (lexis : Lexis) : List (List Char) :=
  [lexis.lineComment, "/*".toList, "*/".toList, Fence.backtick.text, Fence.threeDouble.text, Fence.threeSingle.text]

/-- The scanner looks for the delimiters of all literals. -/
theorem Fence.text_mem_delimiters (fence : Fence) : fence.text ∈ lexis.delimiters := by
  unfold Lexis.delimiters
  cases fence <;> simp

/-- A delimiter of two characters is tested one by one. -/
theorem two_prefix_cons_iff {a b : Char} {rest : List Char} : [a, b] <+: c :: rest ↔ c = a ∧ rest.head? = some b := by
  rw [List.cons_prefix_cons]
  refine and_congr eq_comm ?_
  cases rest with
  | nil => simp
  | cons d rest => simp [eq_comm]

/-- A delimiter that ends in the front of a text stands there whatever follows. -/
theorem prefix_iff_of_fits {text other : List Char} (hfits : text <+: c :: (front ++ back) → text.length ≤ front.length + 1)
    (hkept : text <+: c :: (front ++ other) → text <+: c :: (front ++ back)) :
    text <+: c :: (front ++ back) ↔ text <+: c :: (front ++ other) := by
  refine ⟨fun h => ?_, hkept⟩
  have hfront : text <+: c :: front :=
    List.prefix_of_prefix_length_le h (List.prefix_append (c :: front) back) (hfits h)
  exact hfront.trans (List.prefix_append (c :: front) other)

/-- A choice between two tokens falls as another one if the token that is chosen fits and does not tell them apart. -/
theorem ite_eq_of_fits {p p' : Prop} [Decidable p] [Decidable p'] {t t' u u' : Token} {n : Nat}
    (hfits : (if p then t else u).more ≤ n) (hp : (p → t.more ≤ n) → (p ↔ p')) (ht : t.more ≤ n → t = t')
    (hu : u.more ≤ n → u = u') : (if p then t else u) = if p' then t' else u' := by
  by_cases h : p
  · rw [if_pos h] at hfits
    rw [if_pos h, if_pos ((hp fun _ => hfits).mp h)]
    exact ht hfits
  · rw [if_neg h] at hfits
    rw [if_neg h, if_neg fun h' => h ((hp fun hyes => absurd hyes h).mpr h')]
    exact hu hfits

/-- A token that ends in the front of a line is the same whatever follows, if no delimiter and no character literal
comes about by it. -/
theorem nextToken_eq_of_fits (other : List Char) (hne : back ≠ [])
    (hfits : (nextToken lexis inside c (front ++ back)).more ≤ front.length)
    (hkept : ∀ text ∈ lexis.delimiters, text <+: c :: (front ++ other) → text <+: c :: (front ++ back))
    (hticks : lexis.singleQuotes = false → charWidth (front ++ back) ≤ front.length →
      charWidth (front ++ back) = charWidth (front ++ other)) :
    nextToken lexis inside c (front ++ back) = nextToken lexis inside c (front ++ other) := by
  -- Both texts agree up to where the token ends, so each of the tests comes out the same: a delimiter that
  -- starts in the one starts in the other, as far as it fits.
  have hblockStart := hkept "/*".toList (List.mem_cons_of_mem _ List.mem_cons_self)
  have hblockEnd := hkept "*/".toList (List.mem_cons_of_mem _ (List.mem_cons_of_mem _ List.mem_cons_self))
  have hfence : ∀ fence : Fence,
      (fence.text.isPrefixOf (c :: (front ++ back)) = true → fence.text.length - 1 ≤ front.length) →
      (fence.text.isPrefixOf (c :: (front ++ back)) = true ↔ fence.text.isPrefixOf (c :: (front ++ other)) = true) := by
    intro fence h
    rw [List.isPrefixOf_iff_prefix] at h ⊢
    rw [List.isPrefixOf_iff_prefix]
    exact prefix_iff_of_fits (fun hstarts => Nat.sub_le_iff_le_add.mp (h hstarts)) (hkept _ fence.text_mem_delimiters)
  cases inside with
  | literal fence =>
    refine ite_eq_of_fits hfits (fun _ => Iff.rfl) (fun _ => rfl) fun hfits => ?_
    exact ite_eq_of_fits hfits (hfence fence) (fun _ => rfl) fun _ => rfl
  | comment =>
    refine ite_eq_of_fits hfits (fun h => ?_) (fun _ => rfl) fun _ => rfl
    rw [← two_prefix_cons_iff] at h ⊢
    rw [← two_prefix_cons_iff]
    exact prefix_iff_of_fits (fun hstarts => Nat.succ_le_succ (h hstarts)) hblockEnd
  | code =>
    -- A line comment goes on to the end of the text and thus fits nowhere.
    have hlong : ¬(front ++ back).length ≤ front.length := by
      have hpos := List.length_pos_of_ne_nil hne
      rw [List.length_append]
      omega
    have hstring : stringWidth c 0 (front ++ back) ≤ front.length →
        stringWidth c 0 (front ++ back) = stringWidth c 0 (front ++ other) :=
      fun h => stringWidth_append hne (by rwa [Nat.zero_add]) other
    refine ite_eq_of_fits hfits (fun h => ?_) (fun h => absurd h hlong) fun hfits => ?_
    · rw [List.isPrefixOf_iff_prefix] at h ⊢
      rw [List.isPrefixOf_iff_prefix]
      exact prefix_iff_of_fits (fun hstarts => absurd (h hstarts) hlong) (hkept _ List.mem_cons_self)
    refine ite_eq_of_fits hfits (fun h => and_congr_right fun hblocks => ?_) (fun _ => rfl) fun hfits => ?_
    · rw [← two_prefix_cons_iff] at h ⊢
      rw [← two_prefix_cons_iff]
      exact prefix_iff_of_fits (fun hstarts => Nat.succ_le_succ (h ⟨hblocks, hstarts⟩)) hblockStart
    refine ite_eq_of_fits hfits (fun h => and_congr_right fun htriple => ?_) (fun _ => rfl) fun hfits => ?_
    · exact hfence .threeDouble fun hstarts => h ⟨htriple, hstarts⟩
    refine ite_eq_of_fits hfits (fun h => and_congr_right fun htriple => ?_) (fun _ => rfl) fun hfits => ?_
    · exact hfence .threeSingle fun hstarts => h ⟨htriple, hstarts⟩
    refine ite_eq_of_fits hfits (fun _ => Iff.rfl) (fun h => by rw [hstring h]) fun hfits => ?_
    refine ite_eq_of_fits hfits (fun _ => Iff.rfl) (fun h => ?_) fun _ => rfl
    -- Behind a single quote it depends on the language whether a string or a character literal is looked for.
    cases hquotes : lexis.singleQuotes with
    | true =>
      rw [hquotes] at h
      rw [if_pos rfl, if_pos rfl, hstring h]
    | false =>
      rw [hquotes] at h
      rw [if_neg Bool.false_ne_true, if_neg Bool.false_ne_true, hticks hquotes h]

/-- A token that ends in the front of a line is a token of the front. -/
theorem nextToken_append (hne : back ≠ [])
    (hfits : (nextToken lexis inside c (front ++ back)).more ≤ front.length) :
    nextToken lexis inside c (front ++ back) = nextToken lexis inside c front := by
  have hsame := nextToken_eq_of_fits [] hne hfits
  rw [List.append_nil] at hsame
  exact hsame (fun text _ h => h.trans (List.prefix_append (c :: front) back)) fun _ => charWidth_append

end

/-! ## Two parts of a line

`Reaches` follows the tokens of the front one by one, with what follows at hand, since that is what the scanner
looks at. By induction over it, each token of the whole line is one of the front alone.
-/

/-- Whether the scanner, which starts inside `inside`, comes between two tokens to the end of `front` where `back`
follows, and is inside `after` there. -/
inductive Reaches (lexis : Lexis) : Inside → List Char → List Char → Inside → Prop where
  | refl (inside : Inside) (back : List Char) : Reaches lexis inside [] back inside
  | token {inside after : Inside} {c : Char} {front back : List Char}
      (hfits : (nextToken lexis inside c (front ++ back)).more ≤ front.length)
      (hrest : Reaches lexis (nextToken lexis inside c (front ++ back)).after
        (front.drop (nextToken lexis inside c (front ++ back)).more) back after) :
      Reaches lexis inside (c :: front) back after

/-- A bracket some columns further on. -/
def Bracket.shift (n : Nat) (b : Bracket) : Bracket := { b with column := n + b.column }

/-- Where a line starts only moves its brackets. -/
theorem scanFrom_shift (lexis : Lexis) (n : Nat) (inside : Inside) (column : Nat) (found : List Bracket)
    (cs : List Char) :
    scanFrom lexis inside (n + column) (found.map (Bracket.shift n)) cs =
      ((scanFrom lexis inside column found cs).1.map (Bracket.shift n), (scanFrom lexis inside column found cs).2) := by
  induction inside, column, found, cs using scanFrom.induct lexis with
  | case1 inside column found =>
    rw [scanFrom, scanFrom, List.map_reverse]
  | case2 inside column found c rest token ih =>
    rw [scanFrom, scanFrom]
    refine Eq.trans ?_ ih
    congr 1
    · show n + column + token.more + 1 = n + (column + token.more + 1)
      omega
    · by_cases hbracket : token.bracket = true
      · rw [if_pos hbracket, dif_pos hbracket]
        rfl
      · rw [if_neg hbracket, dif_neg hbracket]

/-- A line that starts in some column has the brackets of the line by itself, further on. -/
theorem scanFrom_eq_shift (lexis : Lexis) (inside : Inside) (column : Nat) (cs : List Char) :
    scanFrom lexis inside column [] cs =
      ((scanLine lexis inside cs).1.map (Bracket.shift column), (scanLine lexis inside cs).2) :=
  scanFrom_shift lexis column inside 0 [] cs

/-- The same with the column in which the line starts. -/
theorem scanFrom_append {lexis : Lexis} {inside after : Inside} {front back : List Char} (hne : back ≠ [])
    (h : Reaches lexis inside front back after) (column : Nat) :
    scanFrom lexis inside column [] (front ++ back) =
      ((scanFrom lexis inside column [] front).1 ++ (scanFrom lexis after (column + front.length) [] back).1,
        (scanFrom lexis after (column + front.length) [] back).2) := by
  induction h generalizing column with
  | refl inside back =>
    rw [scanFrom]
    rfl
  | @token inside after c front back hfits hrest ih =>
    have htoken := nextToken_append hne hfits
    obtain ⟨hfound, hend⟩ := Prod.ext_iff.mp (ih hne (column + (nextToken lexis inside c (front ++ back)).more + 1))
    have hcolumn : column + (nextToken lexis inside c (front ++ back)).more + 1 +
        (front.drop (nextToken lexis inside c (front ++ back)).more).length = column + (c :: front).length := by
      rw [List.length_drop, List.length_cons]
      omega
    rw [hcolumn] at hfound hend
    rw [List.cons_append]
    refine Prod.ext ?_ ?_
    · rw [scanFrom_cons, List.drop_append_of_le_length hfits, hfound, scanFrom_cons, ← htoken, List.append_assoc]
    · rw [scanFrom_cons_snd, List.drop_append_of_le_length hfits, hend]

/-- The front of a line and what follows it are read each for itself. -/
theorem scanLine_append {lexis : Lexis} {inside after : Inside} {front back : List Char} (hne : back ≠ [])
    (h : Reaches lexis inside front back after) :
    scanLine lexis inside (front ++ back) =
      ((scanLine lexis inside front).1 ++ (scanLine lexis after back).1.map (Bracket.shift front.length),
        (scanLine lexis after back).2) := by
  have hscan := scanFrom_append hne h 0
  rwa [Nat.zero_add, scanFrom_eq_shift lexis after] at hscan

end RepoScope.Outline
