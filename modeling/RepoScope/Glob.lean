/-!
# Globs

A glob is a list of tokens. A question mark and a class stand for one character and a star for any number of
them, none of them a slash; two stars that make up a whole component stand for any number of components.
Everything else stands for itself.

A glob is well formed if it has no three stars in a row, if two stars fill a component, and if each
opening bracket starts a class.

Matching is by remainders: `Token.remainders` lists what may be left of a text behind a token, and a glob
matches if nothing is left behind its last token in one of the possible ways. `isMatch_nil` and `isMatch_cons`
say so. All remainders are ends of the text, so `isMatch` keeps them as marks on its ends: each token then takes one
pass over the text, however many stars come before it.
-/

namespace RepoScope.Glob

/-- A member of a character class. -/
inductive ClassItem where
  | single (c : Char)
  | range (first last : Char)
  deriving DecidableEq

/-- A token of a glob. -/
inductive Token where
  | char (c : Char)
  | anyChar
  | anyRun
  | anyPath
  | within (items : List ClassItem)
  | without (items : List ClassItem)
  deriving DecidableEq

/-! ## Reading -/

/-- The members of a class: a hyphen between two characters makes a range. -/
def classItems : List Char → List ClassItem
  | first :: '-' :: last :: rest => .range first last :: classItems rest
  | c :: rest => .single c :: classItems rest
  | [] => []

/--
The class behind an opening bracket and what follows its closing bracket. The first character of a class is
never its end.
-/
def class? (cs : List Char) : Option (Token × List Char) :=
  match cs with
  | '!' :: first :: rest => close Token.without first rest
  | '!' :: [] => none
  | first :: rest => close Token.within first rest
  | [] => none
where
  /-- The class whose first character is `first`. -/
  close (make : List ClassItem → Token) (first : Char) (rest : List Char) :
      Option (Token × List Char) :=
    if rest.contains ']' then
      some (make (classItems (first :: rest.takeWhile (· ≠ ']'))), (rest.dropWhile (· ≠ ']')).drop 1)
    else none

theorem length_lt_of_class? {cs rest : List Char} {token : Token} (h : class? cs = some (token, rest)) :
    rest.length < cs.length := by
  have close_lt : ∀ make first (r : List Char), class?.close make first r = some (token, rest) →
      rest.length ≤ r.length := by
    intro make first r hr
    unfold class?.close at hr
    split at hr
    · simp only [Option.some.injEq, Prod.mk.injEq] at hr
      rw [← hr.2, List.length_drop]
      have := (List.dropWhile_sublist (l := r) (· ≠ ']')).length_le
      omega
    · simp at hr
  unfold class? at h
  split at h
  · have := close_lt _ _ _ h
    simp only [List.length_cons]; omega
  · simp at h
  · have := close_lt _ _ _ h
    simp only [List.length_cons]; omega
  · simp at h

/-- The tokens of a glob, where `before` is the character before `cs`. Fails if it is not well formed. -/
def parseFrom? (before : Option Char) (cs : List Char) : Option (List Token) :=
  match cs with
  | [] => some []
  | '?' :: rest => (parseFrom? (some '?') rest).map (.anyChar :: ·)
  | '*' :: '*' :: rest =>
    if before.all (· == '/') then
      match rest with
      | [] => some [.anyPath]
      | '/' :: rest => (parseFrom? (some '/') rest).map (.anyPath :: ·)
      | _ => none
    else none
  | '*' :: rest => (parseFrom? (some '*') rest).map (.anyRun :: ·)
  | '[' :: rest =>
    match h : class? rest with
    | some (token, rest') =>
      have := length_lt_of_class? h
      (parseFrom? (some ']') rest').map (token :: ·)
    | none => none
  | c :: rest => (parseFrom? (some c) rest).map (.char c :: ·)
  termination_by cs.length

/-- The tokens of a glob. Fails if it is not well formed. -/
def parse? (glob : List Char) : Option (List Token) :=
  parseFrom? none glob

/-! ## Matching -/

/-- Whether upper and lower case of the ASCII letters are told apart. -/
inductive CaseRule where
  | sensitive
  | asciiInsensitive
  deriving DecidableEq

/-- Whether two characters are the same under the rule. -/
def CaseRule.same (rule : CaseRule) (a b : Char) : Bool :=
  match rule with
  | .sensitive => a == b
  | .asciiInsensitive => a.toLower == b.toLower

/-- Whether `c` is a member of a class. -/
def ClassItem.contains (rule : CaseRule) (c : Char) : ClassItem → Bool
  | .single d => rule.same c d
  | .range first last =>
    (first ≤ c && c ≤ last) ||
    (rule == .asciiInsensitive && c.toNat < 128 && first.isAlpha && last.isAlpha &&
      first.toLower ≤ c.toLower && c.toLower ≤ last.toLower)

/-- The ends of `cs` behind a block without slashes, from the whole of `cs` on. -/
def runRemainders : List Char → List (List Char)
  | [] => [[]]
  | c :: rest => (c :: rest) :: if c = '/' then [] else runRemainders rest

/-- The ends of `cs` that start behind one of its slashes. -/
def behindSlashes : List Char → List (List Char)
  | [] => []
  | c :: rest => if c = '/' then rest :: behindSlashes rest else behindSlashes rest

/-- Whether one character is enough for a token, and `c` is such a character. -/
def Token.accepts (rule : CaseRule) (c : Char) : Token → Bool
  | .char d => rule.same c d
  | .anyChar => c ≠ '/'
  | .within items => c ≠ '/' && items.any (·.contains rule c)
  | .without items => c ≠ '/' && !items.any (·.contains rule c)
  | .anyRun | .anyPath => false

/-- What may be left of `cs` behind a match of the token at its start. -/
def Token.remainders (rule : CaseRule) (cs : List Char) : Token → List (List Char)
  | .anyRun => runRemainders cs
  | .anyPath => cs :: behindSlashes cs ++ [[]]
  | token =>
    match cs with
    | c :: rest => if token.accepts rule c then [rest] else []
    | [] => []

/-! ### Marks on the ends of a text

All remainders are ends of one text. A list of marks says which of them have been reached: the first mark is that of
the whole text, and marks that are missing are not set.
-/

/-- Whether one of the marked ends of a text has a property. -/
def anyMarked (p : List Char → Bool) : List Char → List Bool → Bool
  | c :: rest, marks => (marks.headD false && p (c :: rest)) || anyMarked p rest marks.tail
  | [], marks => marks.headD false && p []

/-- A text and its marks without what stands before the first mark that is set. -/
def fromFirstMark : List Char → List Bool → List Char × List Bool
  | _ :: rest, false :: marks => fromFirstMark rest marks
  | cs, marks => (cs, marks)

/--
The ends behind one character of a class, from all marked ends. `reached`: the character before `cs` has led here.
-/
def markOne (accepts : Char → Bool) (reached : Bool) : List Char → List Bool → List Bool
  | c :: rest, mark :: marks => reached :: markOne accepts (mark && accepts c) rest marks
  | _, _ => [reached]

/-- The ends behind a block without slashes, from all marked ends. `reached`: such a block leads here. -/
def markRun (reached : Bool) : List Char → List Bool → List Bool
  | c :: rest, marks =>
    let here := marks.headD false || reached
    if here || !marks.isEmpty then here :: markRun (here && c ≠ '/') rest marks.tail else []
  | [], marks => [marks.headD false || reached]

/--
The ends behind any number of components, from all marked ends. `passed`: one of them starts before `cs`.
`isBehindSlash`: the character before `cs` is a slash.
-/
def markPath (passed isBehindSlash : Bool) : List Char → List Bool → List Bool
  | c :: rest, marks =>
    let mark := marks.headD false
    (mark || (passed && isBehindSlash)) :: markPath (passed || mark) (c == '/') rest marks.tail
  | [], marks => [marks.headD false || passed]

/-- The remainders of all marked ends behind a token, as marks. -/
def Token.mark (rule : CaseRule) (token : Token) (cs : List Char) (marks : List Bool) : List Bool :=
  match token with
  | .anyRun => markRun false cs marks
  | .anyPath => markPath false false cs marks
  | _ => markOne (token.accepts rule ·) false cs marks

/-- Whether the tokens match the whole of one of the marked ends of a text. -/
def matchesMarked (rule : CaseRule) : List Token → List Char → List Bool → Bool
  | [], cs, marks => anyMarked List.isEmpty cs marks
  | token :: tokens, cs, marks =>
    marks.contains true &&
      let first := fromFirstMark cs marks
      matchesMarked rule tokens first.1 (token.mark rule first.1 first.2)

/-- Whether the tokens match the whole of `cs`. -/
def isMatch (rule : CaseRule) (tokens : List Token) (cs : List Char) : Bool :=
  matchesMarked rule tokens cs [true]

/-! ### Marks and remainders -/

@[simp] theorem anyMarked_nil (p : List Char → Bool) (cs : List Char) : anyMarked p cs [] = false := by
  induction cs with
  | nil => rfl
  | cons c rest ih => simp [anyMarked, ih]

@[simp] theorem anyMarked_whole (p : List Char → Bool) (cs : List Char) : anyMarked p cs [true] = p cs := by
  cases cs <;> simp [anyMarked]

theorem anyMarked_of_not_contains {p : List Char → Bool} {marks : List Bool} (h : marks.contains true = false)
    (cs : List Char) : anyMarked p cs marks = false := by
  induction cs generalizing marks with
  | nil => cases marks <;> simp_all [anyMarked]
  | cons c rest ih => cases marks <;> simp_all [anyMarked]

theorem anyMarked_fromFirstMark (p : List Char → Bool) (cs : List Char) (marks : List Bool) :
    anyMarked p (fromFirstMark cs marks).1 (fromFirstMark cs marks).2 = anyMarked p cs marks := by
  fun_induction fromFirstMark cs marks with
  | case1 c rest marks ih => simp [anyMarked, ih]
  | case2 => rfl

theorem anyMarked_markOne (p : List Char → Bool) (accepts : Char → Bool) (reached : Bool) (cs : List Char)
    (marks : List Bool) :
    anyMarked p cs (markOne accepts reached cs marks) =
      ((reached && p cs) || anyMarked (fun
        | c :: rest => accepts c && p rest
        | [] => false) cs marks) := by
  induction cs generalizing reached marks with
  | nil => simp [anyMarked, markOne]
  | cons c rest ih =>
    cases marks with
    | nil => simp [anyMarked, markOne]
    | cons mark marks => simp [anyMarked, markOne, ih, Bool.and_assoc]

theorem anyMarked_markRun (p : List Char → Bool) (reached : Bool) (cs : List Char) (marks : List Bool) :
    anyMarked p cs (markRun reached cs marks) =
      ((reached && (runRemainders cs).any p) ||
        anyMarked (fun rest => (runRemainders rest).any p) cs marks) := by
  induction cs generalizing reached marks with
  | nil => cases reached <;> simp [anyMarked, markRun, runRemainders]
  | cons c rest ih =>
    rw [markRun]
    split
    · simp only [anyMarked, ih, runRemainders, List.headD_cons, List.tail_cons, List.any_cons]
      cases reached <;> cases marks.headD false <;> cases p (c :: rest) <;> by_cases hc : c = '/' <;>
        simp [hc, ← Bool.or_assoc]
    · next h =>
      obtain ⟨⟨-, rfl⟩, rfl⟩ : (marks.headD false = false ∧ reached = false) ∧ marks = [] := by
        simpa using h
      simp

theorem anyMarked_markPath (p : List Char → Bool) (passed isBehindSlash : Bool) (cs : List Char)
    (marks : List Bool) :
    anyMarked p cs (markPath passed isBehindSlash cs marks) =
      ((passed && ((isBehindSlash && p cs) || (behindSlashes cs).any p || p [])) ||
        anyMarked (fun rest => p rest || (behindSlashes rest).any p || p []) cs marks) := by
  induction cs generalizing passed isBehindSlash marks with
  | nil => cases passed <;> cases isBehindSlash <;> simp [anyMarked, markPath, behindSlashes]
  | cons c rest ih =>
    simp only [anyMarked, markPath, ih, behindSlashes, List.headD_cons, List.tail_cons]
    by_cases hc : c = '/' <;> cases passed <;> cases isBehindSlash <;> cases marks.headD false <;>
      simp [hc, Bool.or_assoc, Bool.or_comm, Bool.or_left_comm]

theorem anyMarked_mark (p : List Char → Bool) (rule : CaseRule) (token : Token) (cs : List Char)
    (marks : List Bool) :
    anyMarked p cs (token.mark rule cs marks) =
      anyMarked (fun rest => (token.remainders rule rest).any p) cs marks := by
  unfold Token.mark
  split
  · simp [anyMarked_markRun, Token.remainders]
  · simp [anyMarked_markPath, Token.remainders, Bool.or_assoc]
  · rw [anyMarked_markOne, Bool.false_and, Bool.false_or]
    congr 1
    funext rest
    cases rest with
    | nil => cases token <;> simp_all [Token.remainders]
    | cons c rest =>
      cases token <;> simp_all [Token.remainders, Token.accepts]
      all_goals grind

theorem matchesMarked_cons (rule : CaseRule) (token : Token) (tokens : List Token) (cs : List Char)
    (marks : List Bool) :
    matchesMarked rule (token :: tokens) cs marks =
      (marks.contains true && matchesMarked rule tokens (fromFirstMark cs marks).1
        (token.mark rule (fromFirstMark cs marks).1 (fromFirstMark cs marks).2)) := rfl

theorem matchesMarked_eq_anyMarked (rule : CaseRule) (tokens : List Token) (cs : List Char)
    (marks : List Bool) :
    matchesMarked rule tokens cs marks = anyMarked (isMatch rule tokens ·) cs marks := by
  unfold isMatch
  induction tokens generalizing cs marks with
  | nil => simp [matchesMarked]
  | cons token tokens ih =>
    have step : ∀ (cs : List Char) (marks : List Bool),
        matchesMarked rule (token :: tokens) cs marks =
          anyMarked (fun rest => (token.remainders rule rest).any
            (matchesMarked rule tokens · [true])) cs marks := by
      intro cs marks
      rw [matchesMarked_cons, ih, anyMarked_mark, anyMarked_fromFirstMark]
      cases h : marks.contains true with
      | true => rw [Bool.true_and]
      | false => rw [Bool.false_and, anyMarked_of_not_contains h]
    simp only [step, anyMarked_whole]

/-- Without tokens, only the empty text matches. -/
@[simp] theorem isMatch_nil (rule : CaseRule) (cs : List Char) : isMatch rule [] cs = cs.isEmpty := by
  simp [isMatch, matchesMarked]

/-- A token may leave any of its remainders to the tokens behind it. -/
theorem isMatch_cons (rule : CaseRule) (token : Token) (tokens : List Token) (cs : List Char) :
    isMatch rule (token :: tokens) cs =
      (token.remainders rule cs).any fun rest => isMatch rule tokens rest := by
  rw [isMatch, matchesMarked_cons, matchesMarked_eq_anyMarked, anyMarked_mark, anyMarked_fromFirstMark,
    anyMarked_whole]
  simp

end RepoScope.Glob
