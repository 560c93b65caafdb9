import Mathlib.Data.List.Basic
import Mathlib.Data.List.Forall2
import Mathlib.Data.Option.Defs
import RepoScope.Pattern

/-!
# Patterns that read line by line

A pattern whose literals and classes hold no line feed, and that does not test for the ends of the text or for edges
of words, does the same on a line whether other lines stand around it or not (`Cursor.LiesIn`, `rel_matchAt`).
If each match also needs a character, the matches in a text are those in its lines, one line after the other
(`allMatches_append_lf`). A pattern for the start of a line has one match on a line at most
(`allMatches_of_notMem_lf`).
-/

namespace RepoScope.Pattern

/-- Whether what a pattern does on a line does not depend on the lines around it. -/
def staysOnLine : Pattern → Bool
  | atStart | atStop | atWordEdge => false
  | atLineStart => true
  | literal text => !text.contains '\n'
  | one p | run p | many p => !p '\n'
  | seq first second | either first second => first.staysOnLine && second.staysOnLine
  | repeated body | captured body => body.staysOnLine

/-! ## Cursors in a line and in a text

A match on a line and one in a text in which the line stands are followed side by side. They pass the same
characters, so the cursors stay related; where the line ends and the text goes on with a line feed, no class or
literal of the pattern takes it. Each kind of step has one lemma: a character, a run, all places of a run, a
literal and a capture.
-/

/--
The cursor `c` on a line and the cursor `d` at the same place of a text in which the line stands, behind `shift`
characters and before `tail`. `total` is the length of the line.
-/
structure Cursor.LiesIn (total shift : Nat) (tail : List Char) (c d : Cursor) : Prop where
  offset : d.offset = c.offset + shift
  rest : d.rest = c.rest ++ tail
  captures : d.captures = c.captures
  before : d.before.all (· == '\n') = c.before.all (· == '\n')
  total : c.offset + c.rest.length = total

variable {total shift : Nat} {tail : List Char}

/-- Both cursors pass one character. -/
theorem Cursor.LiesIn.past {c d : Cursor} (h : Cursor.LiesIn total shift tail c d) {x : Char}
    {rest : List Char} (hrest : c.rest = x :: rest) :
    Cursor.LiesIn total shift tail (c.past x rest) (d.past x (rest ++ tail)) := by
  have htotal := h.total
  rw [hrest, List.length_cons] at htotal
  refine ⟨?_, rfl, h.captures, rfl, ?_⟩
  · have hoffset := h.offset
    simp only [Cursor.past]
    omega
  · simp only [Cursor.past]
    omega

/-- Both cursors pass the same run, which ends at the end of the line at the latest. -/
theorem Cursor.LiesIn.afterRun {p : Char → Bool} (htail : ∀ x ∈ tail.head?, p x = false)
    {c d : Cursor} (h : Cursor.LiesIn total shift tail c d) :
    Cursor.LiesIn total shift tail (c.afterRun p c.rest) (d.afterRun p d.rest) := by
  rw [h.rest]
  generalize hrest : c.rest = rest
  induction rest generalizing c d with
  | nil =>
    cases tail with
    | nil => exact h
    | cons x more =>
      rw [List.nil_append, Cursor.afterRun, Cursor.afterRun, htail x rfl]
      exact h
  | cons x rest ih =>
    rw [List.cons_append, Cursor.afterRun, Cursor.afterRun]
    split
    · exact ih (h.past hrest) rfl
    · exact h

/-- Both cursors reach the same places of a run, in the same order. -/
theorem Cursor.LiesIn.reach {p : Char → Bool} (htail : ∀ x ∈ tail.head?, p x = false)
    {c d : Cursor} (h : Cursor.LiesIn total shift tail c d) {reached reached' : List Cursor}
    (hreached : List.Forall₂ (Cursor.LiesIn total shift tail) reached reached') :
    List.Forall₂ (Cursor.LiesIn total shift tail) (c.reach p reached c.rest)
      (d.reach p reached' d.rest) := by
  rw [h.rest]
  generalize hrest : c.rest = rest
  induction rest generalizing c d reached reached' with
  | nil =>
    cases tail with
    | nil => exact .cons h hreached
    | cons x more =>
      rw [List.nil_append, Cursor.reach, Cursor.reach, htail x rfl]
      exact .cons h hreached
  | cons x rest ih =>
    rw [List.cons_append, Cursor.reach, Cursor.reach]
    split
    · exact ih (h.past hrest) (.cons h hreached) rfl
    · exact .cons h hreached

/-- The characters of a literal, which are no line feeds, stand in the line if they stand in the text. -/
theorem isPrefixOf?_append_tail (htail : ∀ x ∈ tail.head?, x = '\n') {text : List Char}
    (htext : '\n' ∉ text) (line : List Char) :
    text.isPrefixOf? (line ++ tail) = (text.isPrefixOf? line).map (· ++ tail) := by
  induction text generalizing line with
  | nil => rfl
  | cons x text ih =>
    rw [List.mem_cons, not_or] at htext
    cases line with
    | nil =>
      cases tail with
      | nil => rfl
      | cons y more =>
        obtain rfl := htail y rfl
        simp [List.isPrefixOf?, Ne.symm htext.1]
    | cons y line =>
      rw [List.cons_append, List.isPrefixOf?, List.isPrefixOf?]
      split
      · exact ih htext.2 line
      · rfl

/-- Both cursors pass a literal. -/
theorem Cursor.LiesIn.literal {c d : Cursor} (h : Cursor.LiesIn total shift tail c d)
    {text rest : List Char} (hrest : c.rest = text ++ rest) :
    Cursor.LiesIn total shift tail
      { c with
        offset := c.offset + text.length, before := text.getLast?.or c.before, rest := rest }
      { d with
        offset := d.offset + text.length, before := text.getLast?.or d.before
        rest := rest ++ tail } := by
  have htotal := h.total
  have hoffset := h.offset
  rw [hrest, List.length_append] at htotal
  refine ⟨by dsimp only; omega, rfl, h.captures, ?_, by dsimp only; omega⟩
  cases text.getLast? with
  | none => exact h.before
  | some x => rfl

/-- What has been passed since an earlier pair of cursors is captured alike. -/
theorem Cursor.LiesIn.captured {c d e f : Cursor} (h : Cursor.LiesIn total shift tail c d)
    (hef : Cursor.LiesIn total shift tail e f) :
    Cursor.LiesIn total shift tail
      { e with captures := c.rest.take (e.offset - c.offset) :: e.captures }
      { f with captures := d.rest.take (f.offset - d.offset) :: f.captures } := by
  refine ⟨hef.offset, hef.rest, ?_, hef.before, hef.total⟩
  -- What has been passed stands in the line, so its capture ends there too.
  have hwidth : f.offset - d.offset = e.offset - c.offset := by
    rw [hef.offset, h.offset]
    omega
  have hle : e.offset - c.offset ≤ c.rest.length := by
    have := h.total
    have := hef.total
    omega
  rw [hwidth, h.rest, List.take_append_of_le_length hle, hef.captures]

/-- Of related cursors, the first that goes on is found at the same place. -/
theorem rel_findSome? {r : Cursor → Cursor → Prop} {k k' : Cursor → Option Cursor}
    (hk : ∀ c d, r c d → Option.Rel r (k c) (k' d)) {cs ds : List Cursor} (h : List.Forall₂ r cs ds) :
    Option.Rel r (cs.findSome? k) (ds.findSome? k') := by
  induction h with
  | nil => exact .none
  | @cons c d cs ds hcd _ ih =>
    rw [List.findSome?_cons, List.findSome?_cons]
    have hrel := hk c d hcd
    generalize k c = found, k' d = found' at hrel
    cases hrel with
    | some hr => exact .some hr
    | none => exact ih

/-! ## Matches in a line and in a text

The induction is over the pattern, for all continuations that go along with each other (`rel_matchAt`). A
repetition needs an induction of its own, over its bound (`rel_repeatMatch`): the bound is the number of characters
that are left, of which the text has more than the line, but behind the line there is nothing the pattern could
take.
-/

/-- No match goes on where nothing is accepted behind it. -/
theorem matchAt_fail (p : Pattern) (c : Cursor) : p.matchAt (fun _ => none) c = none := by
  induction p generalizing c with
  | atStart | atStop | atLineStart | atWordEdge | literal _ =>
    rw [matchAt]
    split <;> rfl
  | one p =>
    rw [matchAt]
    split
    · split <;> rfl
    · rfl
  | run p => rw [matchAt]
  | many p => rw [matchAt, List.findSome?_eq_none_iff.mpr fun _ _ => rfl]
  | seq first second ihf ihs =>
    rw [matchAt, funext ihs]
    exact ihf c
  | either first second ihf ihs => rw [matchAt, ihf, ihs]
  | repeated body ih =>
    rw [matchAt]
    generalize c.rest.length = n
    induction n generalizing c with
    | zero => rw [repeatMatch]
    | succ n ihn =>
      rw [repeatMatch]
      simp only [ihn, ite_self, ih]
  | captured body ih => rw [matchAt, ih]

/-- A repetition that cannot take a step goes on at once. -/
theorem repeatMatch_of_step_eq_none {step : (Cursor → Option Cursor) → Cursor → Option Cursor}
    {k : Cursor → Option Cursor} {c : Cursor}
    (h : ∀ next : Cursor → Option Cursor,
      step (fun d => if c.offset < d.offset then next d else none) c = none) (n : Nat) :
    repeatMatch step k n c = k c := by
  cases n with
  | zero => rw [repeatMatch]
  | succ n => rw [repeatMatch, h]

section

variable {body : Pattern}
  (hbody : ∀ {k k' : Cursor → Option Cursor},
    (∀ c d, Cursor.LiesIn total shift tail c d →
      Option.Rel (Cursor.LiesIn total shift tail) (k c) (k' d)) →
    ∀ {c d}, Cursor.LiesIn total shift tail c d →
      Option.Rel (Cursor.LiesIn total shift tail) (body.matchAt k c) (body.matchAt k' d))

include hbody

/-- At the end of the line no match moves on. -/
theorem matchAt_eq_none_of_rest_eq_nil {c d : Cursor} (h : Cursor.LiesIn total shift tail c d)
    (hnil : c.rest.length = 0) (next : Cursor → Option Cursor) :
    body.matchAt (fun e => if c.offset < e.offset then next e else none) c = none ∧
      body.matchAt (fun f => if d.offset < f.offset then next f else none) d = none := by
  have hend : ∀ {e f : Cursor}, Cursor.LiesIn total shift tail e f →
      ¬c.offset < e.offset ∧ ¬d.offset < f.offset := by
    intro e f hef
    have := h.total
    have := h.offset
    have := hef.total
    have := hef.offset
    omega
  constructor
  · have hrel : Option.Rel (Cursor.LiesIn total shift tail)
        (body.matchAt (fun e => if c.offset < e.offset then next e else none) c)
        (body.matchAt (fun _ => none) d) :=
      hbody (fun e f hef => by rw [if_neg (hend hef).1]; exact .none) h
    rw [matchAt_fail] at hrel
    generalize body.matchAt _ c = found at hrel ⊢
    cases hrel
    rfl
  · have hrel : Option.Rel (Cursor.LiesIn total shift tail) (body.matchAt (fun _ => none) c)
        (body.matchAt (fun f => if d.offset < f.offset then next f else none) d) :=
      hbody (fun e f hef => by rw [if_neg (hend hef).2]; exact .none) h
    rw [matchAt_fail] at hrel
    generalize body.matchAt _ d = found at hrel ⊢
    cases hrel
    rfl

/-- A repetition that may go on to the end of the line does the same in the line and in the text. -/
theorem rel_repeatMatch {k k' : Cursor → Option Cursor}
    (hk : ∀ c d, Cursor.LiesIn total shift tail c d →
      Option.Rel (Cursor.LiesIn total shift tail) (k c) (k' d))
    {m n : Nat} {c d : Cursor} (h : Cursor.LiesIn total shift tail c d)
    (hm : c.rest.length ≤ m) (hn : c.rest.length ≤ n) :
    Option.Rel (Cursor.LiesIn total shift tail) (repeatMatch body.matchAt k m c)
      (repeatMatch body.matchAt k' n d) := by
  induction m generalizing n c d with
  | zero =>
    -- Nothing is left of the line, so no further step is taken in the text either.
    have hstuck := matchAt_eq_none_of_rest_eq_nil hbody h (Nat.le_zero.mp hm)
    rw [repeatMatch, repeatMatch_of_step_eq_none fun next => (hstuck next).2]
    exact hk c d h
  | succ m ih =>
    by_cases hnil : c.rest.length = 0
    · have hstuck := matchAt_eq_none_of_rest_eq_nil hbody h hnil
      rw [repeatMatch_of_step_eq_none fun next => (hstuck next).1,
        repeatMatch_of_step_eq_none fun next => (hstuck next).2]
      exact hk c d h
    · obtain ⟨n, rfl⟩ : ∃ i, n = i + 1 := ⟨n - 1, by omega⟩
      have hnext : ∀ e f, Cursor.LiesIn total shift tail e f →
          Option.Rel (Cursor.LiesIn total shift tail)
            (if c.offset < e.offset then repeatMatch body.matchAt k m e else none)
            (if d.offset < f.offset then repeatMatch body.matchAt k' n f else none) := by
        intro e f hef
        have htotal := h.total
        have hoffset := h.offset
        have htotal' := hef.total
        have hoffset' := hef.offset
        by_cases hlt : c.offset < e.offset
        · rw [if_pos hlt, if_pos (by omega)]
          exact ih hef (by omega) (by omega)
        · rw [if_neg hlt, if_neg (by omega)]
          exact .none
      have hrel := hbody hnext h
      rw [repeatMatch, repeatMatch]
      generalize body.matchAt _ c = found, body.matchAt _ d = found' at hrel ⊢
      cases hrel with
      | some hr => exact .some hr
      | none => exact hk c d h

end

/-- What a pattern finds on a line it finds at the same place of a text in which the line stands. -/
theorem rel_matchAt (htail : ∀ x ∈ tail.head?, x = '\n') (p : Pattern) (hp : p.staysOnLine = true)
    {k k' : Cursor → Option Cursor}
    (hk : ∀ c d, Cursor.LiesIn total shift tail c d →
      Option.Rel (Cursor.LiesIn total shift tail) (k c) (k' d))
    {c d : Cursor} (h : Cursor.LiesIn total shift tail c d) :
    Option.Rel (Cursor.LiesIn total shift tail) (p.matchAt k c) (p.matchAt k' d) := by
  induction p generalizing k k' c d with
  | atStart | atStop | atWordEdge => cases hp
  | atLineStart =>
    rw [matchAt, matchAt, h.before]
    split
    · exact hk c d h
    · exact .none
  | literal text =>
    have hlf : '\n' ∉ text := by simpa [staysOnLine] using hp
    rw [matchAt, matchAt, h.rest, isPrefixOf?_append_tail htail hlf]
    cases hrest : text.isPrefixOf? c.rest with
    | none => exact .none
    | some rest => exact hk _ _ (h.literal (List.isPrefixOf?_eq_some_iff_append_eq.mp hrest).symm)
  | one p =>
    have hlf : p '\n' = false := by simpa [staysOnLine] using hp
    rw [matchAt, matchAt, h.rest]
    cases hrest : c.rest with
    | nil =>
      -- At the end of the line there is no character, or a line feed of the text, which the class does not
      -- hold.
      cases tail with
      | nil => exact .none
      | cons x more =>
        obtain rfl := htail x rfl
        simp only [List.nil_append, hlf]
        exact .none
    | cons x rest =>
      simp only [List.cons_append]
      split
      · exact hk _ _ (h.past hrest)
      · exact .none
  | run p =>
    have hlf : p '\n' = false := by simpa [staysOnLine] using hp
    rw [matchAt, matchAt]
    exact hk _ _ (h.afterRun fun x hx => htail x hx ▸ hlf)
  | many p =>
    have hlf : p '\n' = false := by simpa [staysOnLine] using hp
    rw [matchAt, matchAt]
    exact rel_findSome? hk (h.reach (fun x hx => htail x hx ▸ hlf) .nil)
  | seq first second ihf ihs =>
    rw [staysOnLine, Bool.and_eq_true] at hp
    rw [matchAt, matchAt]
    -- What follows the first part is the second part with what follows it, and this goes along by induction.
    exact ihf hp.1 (fun c d hcd => ihs hp.2 hk hcd) h
  | either first second ihf ihs =>
    rw [staysOnLine, Bool.and_eq_true] at hp
    rw [matchAt, matchAt]
    have hrel := ihf hp.1 hk h
    generalize first.matchAt k c = found, first.matchAt k' d = found' at hrel
    cases hrel with
    | some hr => exact .some hr
    | none => exact ihs hp.2 hk h
  | repeated body ih =>
    have hlength : c.rest.length ≤ d.rest.length := by
      rw [h.rest, List.length_append]
      omega
    rw [matchAt, matchAt]
    exact rel_repeatMatch (fun hk _ _ h => ih hp hk h) hk h (Nat.le_refl _) hlength
  | captured body ih =>
    rw [matchAt, matchAt]
    exact ih hp (fun e f hef => hk _ _ (h.captured hef)) h

/-- A match on the line and one in the text end at the same place with the same captures. -/
theorem rel_matchAt_some (htail : ∀ x ∈ tail.head?, x = '\n') {p : Pattern}
    (hp : p.staysOnLine = true) {c d : Cursor} (h : Cursor.LiesIn total shift tail c d) :
    Option.Rel (Cursor.LiesIn total shift tail) (p.matchAt some c) (p.matchAt some d) :=
  rel_matchAt htail p hp (fun _ _ hcd => .some hcd) h

/-! ## Searching line by line

A pattern of this kind starts a match at the start of a line only, and the match ends on this line. So a search
through a text is one search through each line, with the same matches (`allMatches_append_lf`), and on one line it
finds one match at most (`allMatches_of_notMem_lf`).
-/

/-- What a pattern captures at the start of a text. -/
def matchAtStart? (p : Pattern) (text : List Char) : Option (List (List Char)) :=
  (p.matchAt some (Cursor.ofText text)).map (·.captures.reverse)

/-- Whether a pattern is for the start of a line, needs a character and reads no other line. -/
structure ReadsLines (p : Pattern) : Prop where
  stays : p.staysOnLine = true
  needs : ∀ k c, c.rest = [] → p.matchAt k c = none
  anchored : ∀ k c, c.before.all (· == '\n') = false → p.matchAt k c = none

/--
A search through a line in a text finds what it finds in the line, and then what it finds behind the line, from
wherever on the line it is resumed.
-/
theorem matchesFrom_append {p : Pattern} (hp : p.staysOnLine = true)
    (htail : ∀ x ∈ tail.head?, x = '\n') {line : List Char} {behind : List (List (List Char))}
    {offset offset' resume resume' : Nat} {before before' : Option Char}
    (hbehind : ∀ r b, r ≤ offset + line.length →
      p.matchesFrom r (offset + line.length) b tail = behind)
    (hoffset : offset = offset' + shift) (hresume : resume - offset = resume' - offset')
    (hle : resume ≤ offset + line.length)
    (hbefore : before.all (· == '\n') = before'.all (· == '\n')) :
    p.matchesFrom resume offset before (line ++ tail)
      = p.matchesFrom resume' offset' before' line ++ behind := by
  induction line generalizing offset offset' resume resume' before before' with
  | nil =>
    rw [List.nil_append, matchesFrom, List.nil_append]
    exact hbehind resume before hle
  | cons x line ih =>
    rw [List.length_cons] at hbehind hle
    have hlength : offset + (line.length + 1) = offset + 1 + line.length := by omega
    rw [hlength] at hbehind hle
    rw [List.cons_append, matchesFrom, matchesFrom]
    -- Places inside the last match are passed over in both.
    by_cases hskip : offset < resume
    · rw [if_pos hskip, if_pos (by omega)]
      exact ih hbehind (by omega) (by omega) hle rfl
    · rw [if_neg hskip, if_neg (by omega)]
      have hin : Cursor.LiesIn (offset' + (line.length + 1)) shift tail
          ⟨offset', before', x :: line, []⟩ ⟨offset, before, x :: (line ++ tail), []⟩ :=
        ⟨hoffset, rfl, rfl, hbefore, by simp⟩
      have hrel := rel_matchAt_some htail hp hin
      generalize p.matchAt some ⟨offset', before', x :: line, []⟩ = found,
        p.matchAt some ⟨offset, before, x :: (line ++ tail), []⟩ = found' at hrel ⊢
      cases hrel with
      | none => exact ih hbehind (by omega) (by omega) (by omega) rfl
      | @some e f hef =>
        have hoffsets := hef.offset
        have htotal := hef.total
        have hrest : p.matchesFrom f.offset (offset + 1) (some x) (line ++ tail)
            = p.matchesFrom e.offset (offset' + 1) (some x) line ++ behind :=
          ih hbehind (by omega) (by omega) (by omega) rfl
        dsimp only
        rw [hef.captures, hrest, List.cons_append]

namespace ReadsLines

variable {p : Pattern} (h : p.ReadsLines)

include h

/-- The matches in a text are those in its first lines and then those in the other lines. -/
theorem allMatches_append_lf (line rest : List Char) :
    p.allMatches (line ++ '\n' :: rest) = p.allMatches line ++ p.allMatches rest := by
  refine matchesFrom_append h.stays (by simp) (fun r b hr => ?_) (Nat.add_zero 0).symm rfl
    (Nat.zero_le _) rfl
  -- Nothing is found at the line feed, since nothing is found on an empty line.
  have hin : Cursor.LiesIn line.length 0 ('\n' :: rest) ⟨line.length, b, [], []⟩
      ⟨0 + line.length, b, '\n' :: rest, []⟩ := ⟨by simp, rfl, rfl, rfl, rfl⟩
  have hrel := rel_matchAt_some (by simp) h.stays hin
  rw [h.needs some _ rfl] at hrel
  rw [matchesFrom, if_neg (by omega)]
  generalize p.matchAt some ⟨0 + line.length, b, '\n' :: rest, []⟩ = found at hrel ⊢
  cases hrel
  have hrest : p.matchesFrom r (0 + line.length + 1) (some '\n') (rest ++ [])
      = p.matchesFrom 0 0 none rest ++ [] :=
    matchesFrom_append h.stays (by simp) (fun _ _ _ => rfl) (Nat.zero_add _).symm (by omega)
      (by omega) rfl
  rw [List.append_nil, List.append_nil] at hrest
  exact hrest

/-- What is captured at the start of a text is captured on its first line. -/
theorem matchAtStart?_append_lf (line rest : List Char) :
    p.matchAtStart? (line ++ '\n' :: rest) = p.matchAtStart? line := by
  have hin : Cursor.LiesIn line.length 0 ('\n' :: rest) (Cursor.ofText line)
      (Cursor.ofText (line ++ '\n' :: rest)) := ⟨rfl, rfl, rfl, rfl, Nat.zero_add _⟩
  have hrel := rel_matchAt_some (by simp) h.stays hin
  rw [matchAtStart?, matchAtStart?]
  generalize p.matchAt some (Cursor.ofText line) = found,
    p.matchAt some (Cursor.ofText (line ++ '\n' :: rest)) = found' at hrel ⊢
  cases hrel with
  | none => rfl
  | some hef => rw [Option.map_some, Option.map_some, hef.captures]

/-- Behind the start of a line, no match starts on it. -/
theorem matchesFrom_of_notMem_lf {line : List Char} (hline : '\n' ∉ line) {x : Char} (hx : x ≠ '\n')
    (resume offset : Nat) : p.matchesFrom resume offset (some x) line = [] := by
  induction line generalizing resume offset x with
  | nil => rfl
  | cons y line ih =>
    rw [List.mem_cons, not_or] at hline
    rw [matchesFrom, h.anchored some _ (by simpa using hx)]
    dsimp only
    rw [ih hline.2 (Ne.symm hline.1), ite_self]

/-- On one line a pattern is found at the start or not at all. -/
theorem allMatches_of_notMem_lf {line : List Char} (hline : '\n' ∉ line) :
    p.allMatches line = (p.matchAtStart? line).toList := by
  cases line with
  | nil => rw [matchAtStart?, h.needs some _ rfl]; rfl
  | cons x line =>
    rw [List.mem_cons, not_or] at hline
    rw [allMatches, matchesFrom, if_neg (Nat.lt_irrefl 0), matchAtStart?, Cursor.ofText]
    cases p.matchAt some ⟨0, none, x :: line, []⟩ with
    | none => exact h.matchesFrom_of_notMem_lf hline.2 (Ne.symm hline.1) _ _
    | some d =>
      dsimp only
      rw [h.matchesFrom_of_notMem_lf hline.2 (Ne.symm hline.1)]
      rfl

end ReadsLines

end RepoScope.Pattern
