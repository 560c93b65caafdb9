import RepoScope.Ignore
import RepoScope.Proofs.Glob

/-!
# What a line of an ignore file means

A line that asks for a glob is taken apart into its marks and its body (`Line`): an exclamation mark that takes paths
back in, a backslash that is dropped, the glob, and the slashes that restrict it to directories. Every line with a rule
has these parts (`exists_line_of_parse?`), and its rule is made from them (`Rule.parse?_eq`).

Which paths the rule applies to depends on the slashes of the body (`Covers`). Reading a line puts two stars before
a body without slashes and drops a slash at the start, so that a single glob has this meaning (**`line_meaning`**).
-/

namespace RepoScope.Ignore

open Text

/-! ## The parts of a line

A line is put together from its parts, and each mark can be told from the text: an exclamation mark stands first, a
backslash keeps a first exclamation mark or hash from being one, and all slashes at the end belong together.
-/

/-- The parts of a line that asks for a glob. -/
structure Line where
  negated : Bool
  /-- Whether a backslash stands before the body, which can then start with any character. -/
  escaped : Bool
  body : List Char
  /-- How many slashes stand behind the body. -/
  slashes : Nat
  body_ne_nil : body ≠ []
  getLast?_body : body.getLast? ≠ some '/'
  backslash : escaped = false → body.head? ≠ some '\\'
  mark : escaped = false → negated = false → body.head? ≠ some '!' ∧ body.head? ≠ some '#'

namespace Line

variable (l : Line)

/-- The body and the slashes behind it. -/
def written : List Char := l.body ++ List.replicate l.slashes '/'

/-- The line behind its exclamation mark. -/
def unmarked : List Char := if l.escaped then '\\' :: l.written else l.written

/-- The line as it is written. -/
def text : List Char := if l.negated then '!' :: l.unmarked else l.unmarked

/-- What is written begins with the body. -/
theorem head?_written : l.written.head? = l.body.head? := by
  obtain ⟨c, rest, hbody⟩ := List.exists_cons_of_ne_nil l.body_ne_nil
  rw [written, hbody]
  rfl

/-- A slash at the end is one of those behind the body. -/
theorem getLast?_written : l.written.getLast? = some '/' ↔ 0 < l.slashes := by
  unfold written
  cases hslashes : l.slashes with
  | zero => simpa using l.getLast?_body
  | succ n => simp [List.replicate_succ']

/-- Without the slashes at the end, the body is left. -/
theorem dropEndWhile_written : dropEndWhile (· == '/') l.written = l.body := by
  unfold written dropEndWhile
  rw [List.reverse_append, List.dropWhile_append_of_pos (by simp), List.reverse_eq_iff]
  refine List.dropWhile_eq_self_iff.mpr fun hlt => ?_
  have hlast := l.getLast?_body
  rw [← List.head?_reverse, List.head?_eq_getElem?, List.getElem?_eq_getElem hlt] at hlast
  simpa using hlast

/-- A line that takes nothing back in starts with no mark. -/
theorem head?_unmarked (h : l.negated = false) : l.unmarked.head? ≠ some '!' ∧ l.unmarked.head? ≠ some '#' := by
  unfold unmarked
  split
  · simp
  · next hescaped =>
    rw [head?_written]
    exact l.mark (by simpa using hescaped) h

/-- An exclamation mark stands first if and only if the line takes paths back in. -/
theorem head?_text : l.text.head? = some '!' ↔ l.negated = true := by
  unfold text
  split
  · next hnegated => simp [hnegated]
  · next hnegated => simp [hnegated, (l.head?_unmarked (by simpa using hnegated)).1]

/-- A line that asks for a glob is no comment. -/
theorem head?_text_ne : l.text.head? ≠ some '#' := by
  unfold text
  split
  · simp
  · next hnegated => exact (l.head?_unmarked (by simpa using hnegated)).2

end Line

/-! ## Reading a line

Reading takes the parts off from the outside: blanks, the exclamation mark, the backslash, the slashes at the end.
Both directions are needed, that the parts of a line are read as they are (`Rule.parse?_eq`) and that what has been
read was a line with these parts (`exists_line_of_parse?`).
-/

/-- Whether a line starts with an exclamation mark, and the line without it. -/
def readMark (line : List Char) : Bool × List Char :=
  match line with
  | '!' :: rest => (true, rest)
  | _ => (false, line)

/-- A text without a backslash at its start. -/
def dropBackslash (cs : List Char) : List Char :=
  match cs with
  | '\\' :: rest => rest
  | _ => cs

/-- Reading a line, with its steps named. -/
theorem Rule.parse?_def (base : String) (line : List Char) :
    Rule.parse? base line =
      let body := dropBackslash (readMark (trim line)).2
      let bare := dropEndWhile (· == '/') body
      if (trim line).head? = some '#' ∨ bare.isEmpty then none
      else (Glob.parse? (anchoredGlob bare)).map fun glob =>
        { glob, negated := (readMark (trim line)).1, dirOnly := body.getLast? = some '/', base } :=
  rfl

theorem readMark_of_head?_ne {cs : List Char} (h : cs.head? ≠ some '!') : readMark cs = (false, cs) := by
  unfold readMark
  split
  · exact absurd rfl h
  · rfl

theorem dropBackslash_of_head?_ne {cs : List Char} (h : cs.head? ≠ some '\\') : dropBackslash cs = cs := by
  unfold dropBackslash
  split
  · exact absurd rfl h
  · rfl

theorem Line.readMark_text (l : Line) : readMark l.text = (l.negated, l.unmarked) := by
  unfold Line.text
  split
  · next hnegated => rw [hnegated]; rfl
  · next hnegated =>
    have hfalse : l.negated = false := by simpa using hnegated
    rw [hfalse]
    exact readMark_of_head?_ne (l.head?_unmarked hfalse).1

theorem Line.dropBackslash_unmarked (l : Line) : dropBackslash l.unmarked = l.written := by
  unfold Line.unmarked
  split
  · rfl
  · next hescaped =>
    refine dropBackslash_of_head?_ne ?_
    rw [l.head?_written]
    exact l.backslash (by simpa using hescaped)

/-- The rule of a line is made from its parts. -/
theorem Rule.parse?_eq {l : Line} {line : List Char} (h : trim line = l.text) (base : String) :
    Rule.parse? base line = (Glob.parse? (anchoredGlob l.body)).map fun glob =>
      { glob, negated := l.negated, dirOnly := decide (0 < l.slashes), base } := by
  rw [Rule.parse?_def, h, l.readMark_text]
  simp only [l.dropBackslash_unmarked, l.dropEndWhile_written, l.getLast?_written]
  rw [if_neg (by simp [l.head?_text_ne, l.body_ne_nil])]

/-- A text is its exclamation mark, if any, and what is behind it. -/
theorem eq_of_readMark (cs : List Char) :
    cs = if cs.head? = some '!' then '!' :: (readMark cs).2 else (readMark cs).2 := by
  split
  · next hmark =>
    obtain ⟨rest, rfl⟩ := List.head?_eq_some_iff.mp hmark
    rfl
  · next hmark => rw [readMark_of_head?_ne hmark]

/-- A text is its backslash, if any, and what is behind it. -/
theorem eq_of_dropBackslash (cs : List Char) :
    cs = if cs.head? = some '\\' then '\\' :: dropBackslash cs else dropBackslash cs := by
  split
  · next hescape =>
    obtain ⟨rest, rfl⟩ := List.head?_eq_some_iff.mp hescape
    rfl
  · next hescape => rw [dropBackslash_of_head?_ne hescape]

/-- What is not made of slashes alone is a body with slashes behind it. -/
theorem exists_body {cs : List Char} (h : dropEndWhile (· == '/') cs ≠ []) :
    ∃ body slashes, cs = body ++ List.replicate slashes '/' ∧ body ≠ [] ∧ body.getLast? ≠ some '/' ∧
      body.head? = cs.head? := by
  have hslashes : ∃ slashes, cs = dropEndWhile (· == '/') cs ++ List.replicate slashes '/' := by
    refine ⟨(cs.reverse.takeWhile (· == '/')).length, ?_⟩
    have hsame : cs.reverse.takeWhile (· == '/') =
        List.replicate (cs.reverse.takeWhile (· == '/')).length '/' :=
      List.eq_replicate_of_mem fun c hc => by simpa using List.mem_takeWhile_imp hc
    calc cs = (cs.reverse.takeWhile (· == '/') ++ cs.reverse.dropWhile (· == '/')).reverse := by
          rw [List.takeWhile_append_dropWhile, List.reverse_reverse]
      _ = dropEndWhile (· == '/') cs ++ (cs.reverse.takeWhile (· == '/')).reverse := List.reverse_append
      _ = dropEndWhile (· == '/') cs ++ List.replicate (cs.reverse.takeWhile (· == '/')).length '/' := by
          rw [← List.reverse_replicate, ← hsame]
  have hlast : (dropEndWhile (· == '/') cs).getLast? ≠ some '/' := by
    intro hlast
    have hnot := List.head?_dropWhile_not (· == '/') cs.reverse
    rw [dropEndWhile, List.getLast?_reverse] at hlast
    rw [hlast] at hnot
    simp at hnot
  generalize dropEndWhile (· == '/') cs = body at h hslashes hlast
  obtain ⟨slashes, rfl⟩ := hslashes
  obtain ⟨c, rest, rfl⟩ := List.exists_cons_of_ne_nil h
  exact ⟨_, slashes, rfl, h, hlast, rfl⟩

/-- A line with a rule has the parts of one. -/
theorem exists_line_of_parse? {base : String} {line : List Char} {rule : Rule}
    (h : Rule.parse? base line = some rule) : ∃ l : Line, trim line = l.text := by
  rw [Rule.parse?_def] at h
  obtain ⟨hcomment, hne⟩ : (trim line).head? ≠ some '#' ∧
      dropEndWhile (· == '/') (dropBackslash (readMark (trim line)).2) ≠ [] := by
    rw [← not_or]
    intro hnone
    simp [hnone] at h
  obtain ⟨body, slashes, hwritten, hbody, hlast, hhead⟩ := exists_body hne
  refine ⟨{
    negated := decide ((trim line).head? = some '!')
    escaped := decide ((readMark (trim line)).2.head? = some '\\')
    body, slashes
    body_ne_nil := hbody
    getLast?_body := hlast
    backslash := fun hescape => ?_
    mark := fun hescape hmark => ?_ }, ?_⟩
  · have hescape : (readMark (trim line)).2.head? ≠ some '\\' := by simpa using hescape
    rwa [hhead, dropBackslash_of_head?_ne hescape]
  · have hmark : (trim line).head? ≠ some '!' := by simpa using hmark
    have hescape : (readMark (trim line)).2.head? ≠ some '\\' := by simpa using hescape
    rw [hhead, dropBackslash_of_head?_ne hescape, readMark_of_head?_ne hmark]
    exact ⟨hmark, hcomment⟩
  · simp only [Line.text, Line.unmarked, Line.written, decide_eq_true_eq, ← hwritten]
    rw [← eq_of_dropBackslash]
    exact eq_of_readMark _

/-- The rule of a line is negated if and only if an exclamation mark stands first. -/
theorem Rule.negated_of_parse? {base : String} {line : List Char} {rule : Rule}
    (h : Rule.parse? base line = some rule) : rule.negated = true ↔ (trim line).head? = some '!' := by
  obtain ⟨l, hline⟩ := exists_line_of_parse? h
  rw [Rule.parse?_eq hline] at h
  obtain ⟨glob, -, rfl⟩ := Option.map_eq_some_iff.mp h
  rw [hline, l.head?_text]

/-! ## Paths

A body without slashes may stand for a path at any depth, so two stars and a slash are put before it and the glob
then fits if the body matches the last component. A body with slashes is matched against the whole path as seen
from its ignore file.
-/

/-- A body without slashes gets two stars and a slash. -/
theorem anchoredGlob_of_notMem {body : List Char} (h : '/' ∉ body) :
    anchoredGlob body = '*' :: '*' :: '/' :: body := by
  have hstars : startsWith body "**/".toList ≠ true := fun hstars =>
    h ((List.isPrefixOf_iff_prefix.mp hstars).subset (by decide))
  unfold anchoredGlob
  rw [if_neg hstars]
  split
  · simp at h
  · rw [if_neg (by simpa using h)]
    rfl

/-- A body with an inner slash stays. -/
theorem anchoredGlob_of_mem {body : List Char} (h : '/' ∈ body) (hhead : body.head? ≠ some '/') :
    anchoredGlob body = body := by
  unfold anchoredGlob
  split
  · rfl
  · split
    · exact absurd rfl hhead
    · rw [if_pos (by simpa using h)]

/-- The last component of a path does not depend on the place it is seen from. -/
theorem lastComponent_under (base path : String) :
    Glob.lastComponent (Path.under base path).toList = Glob.lastComponent path.toList := by
  unfold Path.under
  split
  · rfl
  · rw [← Glob.toList_baseName, ← Glob.toList_baseName, Path.baseName_append]

/-- Whether the body of a line stands for a path, which is seen from the ignore file as below `base`. -/
inductive Covers (base path : String) : List Char → Prop
  /-- Without a slash, the body matches the last component at any depth. -/
  | name {body : List Char} (hslash : '/' ∉ body)
      (h : Glob.Matches body (Glob.lastComponent path.toList)) : Covers base path body
  /-- Behind two stars at its start, it matches an end of the path that is made of whole components. -/
  | tail {body tail : List Char} (htail : Glob.IsTail tail (Path.under base path).toList)
      (h : Glob.Matches body tail) : Covers base path ('*' :: '*' :: '/' :: body)
  /-- Behind a slash at its start, it matches the whole path. -/
  | anchored {body : List Char} (h : Glob.Matches body (Path.under base path).toList) :
      Covers base path ('/' :: body)
  /-- With an inner slash alone, it matches the whole path as well. -/
  | inner {body : List Char} (hslash : '/' ∈ body) (hhead : body.head? ≠ some '/')
      (hstars : ¬['*', '*', '/'] <+: body) (h : Glob.Matches body (Path.under base path).toList) :
      Covers base path body

/-- A body without slashes stands for what its last component matches. -/
theorem covers_iff_of_notMem {base path : String} {body : List Char} (hslash : '/' ∉ body) :
    Covers base path body ↔ Glob.Matches body (Glob.lastComponent path.toList) := by
  constructor
  · intro hcovers
    cases hcovers with
    | name _ hmatches => exact hmatches
    | tail | anchored => exact absurd (by simp) hslash
    | inner hno => exact absurd hno hslash
  · exact .name hslash

/-- The glob that a body asks for matches the paths that the body stands for. -/
theorem matches_anchoredGlob_iff {base path : String} {body : List Char} (hne : body ≠ [])
    (hlast : body.getLast? ≠ some '/') :
    Glob.Matches (anchoredGlob body) (Path.under base path).toList ↔ Covers base path body := by
  -- The cases are those of `Covers`: two stars and a slash in front, a slash in front, another slash, none.
  by_cases hslash : '/' ∈ body
  · by_cases hstars : ['*', '*', '/'] <+: body
    · obtain ⟨rest, rfl⟩ := hstars
      have hrest : rest ≠ [] := by
        rintro rfl
        simp at hlast
      show Glob.Matches ('*' :: '*' :: '/' :: rest) _ ↔ Covers base path ('*' :: '*' :: '/' :: rest)
      rw [Glob.matches_stars_iff hrest]
      constructor
      · rintro ⟨tail, htail, hmatches⟩
        exact .tail htail hmatches
      · intro hcovers
        cases hcovers with
        | name hno => exact absurd hslash hno
        | tail htail hmatches => exact ⟨_, htail, hmatches⟩
        | inner _ _ hno => exact absurd (List.prefix_append _ _) hno
    · by_cases hhead : body.head? = some '/'
      · obtain ⟨rest, rfl⟩ := List.head?_eq_some_iff.mp hhead
        constructor
        · exact .anchored
        · intro hcovers
          cases hcovers with
          | name hno => exact absurd hslash hno
          | anchored hmatches => exact hmatches
          | inner _ hno => exact absurd rfl hno
      · rw [anchoredGlob_of_mem hslash hhead]
        constructor
        · exact .inner hslash hhead hstars
        · intro hcovers
          cases hcovers with
          | name hno => exact absurd hslash hno
          | tail => exact absurd (List.prefix_append _ _) hstars
          | anchored => exact absurd rfl hhead
          | inner _ _ _ hmatches => exact hmatches
  · rw [anchoredGlob_of_notMem hslash, Glob.matches_stars_iff_of_notMem hne hslash, lastComponent_under,
      covers_iff_of_notMem hslash]

/-- The glob that a body asks for is well formed if and only if the body is. -/
theorem parse?_anchoredGlob_eq_none_iff (body : List Char) :
    Glob.parse? (anchoredGlob body) = none ↔ Glob.parse? body = none := by
  by_cases hslash : '/' ∈ body
  · by_cases hhead : body.head? = some '/'
    · obtain ⟨rest, rfl⟩ := List.head?_eq_some_iff.mp hhead
      rw [Glob.parse?_slash_cons, Option.map_eq_none_iff]
      rfl
    · rw [anchoredGlob_of_mem hslash hhead]
  · rw [anchoredGlob_of_notMem hslash, Glob.parse?_stars_cons, Option.map_eq_none_iff]

/-- A rule applies to what its glob fits, and if it is for directories then to directories alone. -/
theorem Rule.isMatch_iff {rule : Rule} {path : String} {isDir : Bool} :
    rule.isMatch path isDir = true ↔
      (rule.dirOnly = true → isDir = true) ∧ Glob.Fits rule.glob (Path.under rule.base path).toList := by
  unfold Rule.isMatch
  rw [Bool.and_eq_true, Glob.isMatch_iff_fits]
  cases isDir <;> cases rule.dirOnly <;> simp

/-- The rule of a line applies to what its body stands for. -/
theorem Rule.isMatch_iff_covers {base : String} {line : List Char} {rule : Rule} {l : Line}
    (hrule : Rule.parse? base line = some rule) (hline : trim line = l.text) {path : String} {isDir : Bool} :
    rule.isMatch path isDir = true ↔ (0 < l.slashes → isDir = true) ∧ Covers base path l.body := by
  rw [Rule.parse?_eq hline] at hrule
  obtain ⟨glob, hparse, rfl⟩ := Option.map_eq_some_iff.mp hrule
  rw [Rule.isMatch_iff, ← matches_anchoredGlob_iff l.body_ne_nil l.getLast?_body, decide_eq_true_eq]
  refine and_congr_right fun _ => ⟨fun hfits => ⟨glob, hparse, hfits⟩, ?_⟩
  rintro ⟨tokens, htokens, hfits⟩
  rw [hparse] at htokens
  cases htokens
  exact hfits

/--
The rule of a line applies to the paths that its body stands for, and to directories alone if slashes stand behind the
body; an exclamation mark only makes it negated. Other lines, and those whose body is no well-formed glob, have no rule.
-/
theorem line_meaning (base : String) (line : List Char) :
    (∀ l : Line, trim line = l.text → (Glob.parse? l.body).isSome →
      ∃ rule, Rule.parse? base line = some rule ∧ rule.negated = l.negated ∧
        ∀ path isDir, rule.isMatch path isDir = true ↔
          (0 < l.slashes → isDir = true) ∧ Covers base path l.body) ∧
    ((¬∃ l : Line, trim line = l.text ∧ (Glob.parse? l.body).isSome) → Rule.parse? base line = none) := by
  constructor
  · intro l hline hglob
    have hsome : Glob.parse? (anchoredGlob l.body) ≠ none := by
      rw [ne_eq, parse?_anchoredGlob_eq_none_iff]
      exact Option.isSome_iff_ne_none.mp hglob
    obtain ⟨glob, hparse⟩ := Option.ne_none_iff_exists'.mp hsome
    have hrule := Rule.parse?_eq hline base
    rw [hparse, Option.map_some] at hrule
    exact ⟨_, hrule, rfl, fun path isDir => Rule.isMatch_iff_covers hrule hline⟩
  · intro hno
    by_contra hrule
    obtain ⟨rule, hrule⟩ := Option.ne_none_iff_exists'.mp hrule
    obtain ⟨l, hline⟩ := exists_line_of_parse? hrule
    refine hno ⟨l, hline, ?_⟩
    rw [Option.isSome_iff_ne_none, ne_eq, ← parse?_anchoredGlob_eq_none_iff]
    intro hnone
    rw [Rule.parse?_eq hline, hnone] at hrule
    cases hrule

/-- A negated line with an inner slash and a slash at its end. -/
theorem line_meaning_sample : ∃ rule, Rule.parse? "lib" " !lib/*/a?.md/ ".toList = some rule ∧
    rule.negated = true ∧ rule.isMatch "x/a1.md" true = true ∧ rule.isMatch "x/a1.md" false = false := by
  let l : Line := {
    negated := true
    escaped := false
    body := "lib/*/a?.md".toList
    slashes := 1
    body_ne_nil := by decide
    getLast?_body := by decide
    backslash := by decide
    mark := by decide }
  obtain ⟨rule, hrule, hnegated, hmeaning⟩ :=
    (line_meaning "lib" " !lib/*/a?.md/ ".toList).1 l (by decide) (by decide +kernel)
  have hmatches : Glob.Matches l.body (Path.under "lib" "x/a1.md").toList := by
    have hparse : Glob.parse? l.body = some ("lib/".toList.map .char ++ .anyRun ::
        ("/a".toList.map .char ++ .anyChar :: ".md".toList.map .char)) := by decide +kernel
    exact ⟨_, hparse, Glob.isMatch_iff_fits.mp (by decide +kernel)⟩
  refine ⟨rule, hrule, hnegated, ?_, ?_⟩
  · exact (hmeaning _ _).mpr ⟨fun _ => rfl, .inner (by decide) (by decide) (by decide) hmatches⟩
  · rw [Bool.eq_false_iff]
    exact fun hmatch => Bool.false_ne_true (((hmeaning _ _).mp hmatch).1 (by decide))

end RepoScope.Ignore
