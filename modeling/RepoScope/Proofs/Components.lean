import Mathlib.Data.List.TakeWhile
import Mathlib.Logic.Function.Iterate
import RepoScope.Ignore
import RepoScope.Proofs.Names

/-!
# Components of a path

What the slashes of a path say, whatever stands between them. The last slash cuts a path into the directory above it
and its last component (`parent_append`, `baseName_append`), each step up to that directory takes one slash away
(`depth_parent`), and the directories above a path are what stands before its slashes (`mem_ancestors_iff`). For a path
of names these are its proper prefixes, so that a policy can test the names one after the other (`isIgnored_join`).
-/

namespace RepoScope

namespace Text

/-- A separator cuts a text into the pieces before it and those behind it. -/
theorem pieces_append_sep (sep : Char) (before behind : List Char) :
    pieces sep (before ++ sep :: behind) = pieces sep before ++ pieces sep behind := by
  induction before with
  | nil => exact piecesBy_cons_sep _ _ _ (by simp)
  | cons c before ih =>
    rw [List.cons_append]
    by_cases hc : (c == sep) = true
    · have hcut : ∀ cs, pieces sep (c :: cs) = [] :: pieces sep cs := fun _ =>
        piecesBy_cons_sep _ _ _ hc
      rw [hcut, hcut, ih, List.cons_append]
    · obtain ⟨first, rest, hbefore⟩ := List.exists_cons_of_ne_nil (piecesBy_ne_nil (· == sep) before)
      have hgoOn : ∀ {cs more}, pieces sep cs = first :: more →
          pieces sep (c :: cs) = (c :: first) :: more := fun hcs =>
        piecesBy_cons_other _ _ _ _ _ (by simpa using hc) hcs
      rw [← pieces] at hbefore
      rw [hbefore, List.cons_append] at ih
      rw [hgoOn ih, hgoOn hbefore, List.cons_append]

theorem pieces_of_notMem {sep : Char} {cs : List Char} (h : sep ∉ cs) : pieces sep cs = [cs] := by
  refine piecesBy_of_forall_not fun c hc => ?_
  have hne : c ≠ sep := fun heq => h (heq ▸ hc)
  simpa using hne

/-- Joining the pieces of a text gives it back. -/
theorem intercalate_pieces (sep : Char) (cs : List Char) :
    List.intercalate [sep] (pieces sep cs) = cs := by
  induction cs with
  | nil => rfl
  | cons c cs ih =>
    obtain ⟨first, rest, hcs⟩ := List.exists_cons_of_ne_nil (piecesBy_ne_nil (· == sep) cs)
    rw [pieces, hcs] at ih
    by_cases hc : c = sep
    · subst hc
      rw [pieces, piecesBy_cons_sep _ _ _ (by simp), hcs, List.intercalate_cons_cons, ih]
      rfl
    · rw [pieces, piecesBy_cons_other _ _ _ _ _ (by simpa using hc) hcs]
      cases rest with
      | nil =>
        rw [List.intercalate_singleton] at ih ⊢
        rw [ih]
      | cons next rest =>
        rw [List.intercalate_cons_cons] at ih ⊢
        rw [← ih]
        rfl

end Text

namespace Path

/-! ## Pieces

A path always has a piece, if only an empty one, and is determined by its pieces.
-/

theorem pieces_ne_nil (path : String) : pieces path ≠ [] := by
  unfold pieces
  rw [ne_eq, List.map_eq_nil_iff]
  exact Text.piecesBy_ne_nil _ _

theorem join_pieces (path : String) : join (pieces path) = path := by
  simp [join, pieces, Function.comp_def, Text.intercalate_pieces]

theorem pieces_append (dir rest : String) : pieces (dir ++ "/" ++ rest) = pieces dir ++ pieces rest := by
  unfold pieces
  rw [String.toList_append, String.toList_append, List.append_assoc, ← List.map_append]
  exact congrArg _ (Text.pieces_append_sep '/' dir.toList rest.toList)

/-! ## The last slash

The last component and the directory above it are found by the last slash of a path, and without one the path is
all last component.
-/

theorem splitLast?_append {c : Char} {last : List Char} (h : c ∉ last) (before : List Char) :
    splitLast? c (before ++ c :: last) = some (before, last) := by
  have hlast : ((before ++ c :: last).reverse.takeWhile (· ≠ c)).reverse = last := by
    rw [List.reverse_append, List.reverse_cons, List.append_assoc,
      List.takeWhile_append_of_pos (by simpa using fun x hx (heq : x = c) => h (heq ▸ hx))]
    simp
  have htake : (before ++ c :: last).length - last.length - 1 = before.length := by
    rw [List.length_append, List.length_cons]
    omega
  have hlt : last.length < (before ++ c :: last).length := by
    rw [List.length_append, List.length_cons]
    omega
  unfold splitLast?
  simp only [hlast]
  rw [if_pos hlt, htake, List.take_left]

theorem splitLast?_of_notMem {c : Char} {text : List Char} (h : c ∉ text) :
    splitLast? c text = none := by
  have hlast : text.reverse.takeWhile (· ≠ c) = text.reverse :=
    List.takeWhile_eq_self_iff.mpr (by simpa using fun x hx (heq : x = c) => h (heq ▸ hx))
  unfold splitLast?
  rw [hlast, List.reverse_reverse, if_neg (Nat.lt_irrefl _)]

/-- A path with a slash has a directory above its last component. -/
theorem exists_eq_append {path : String} (h : '/' ∈ path.toList) :
    ∃ dir name, path = dir ++ "/" ++ name ∧ '/' ∉ name.toList := by
  obtain ⟨behind, before, heq, hbehind⟩ := List.eq_append_cons_of_mem (List.mem_reverse.mpr h)
  refine ⟨String.ofList before.reverse, String.ofList behind.reverse, ?_, by simpa using hbehind⟩
  have hpath := congrArg List.reverse heq
  rw [List.reverse_reverse, List.reverse_append, List.reverse_cons, List.append_assoc] at hpath
  rw [String.ext_iff, hpath]
  simp [show "/".toList = ['/'] from rfl]

theorem splitLast?_path {name : String} (h : '/' ∉ name.toList) (dir : String) :
    splitLast? '/' (dir ++ "/" ++ name).toList = some (dir.toList, name.toList) := by
  rw [String.toList_append, String.toList_append, List.append_assoc]
  exact splitLast?_append h dir.toList

/-- Behind its last slash a path has its last component, and before it the directory above. -/
theorem parent_append {name : String} (h : '/' ∉ name.toList) (dir : String) :
    parent (dir ++ "/" ++ name) = dir := by
  rw [parent, splitLast?_path h]
  exact String.ofList_toList

theorem parent_of_notMem {path : String} (h : '/' ∉ path.toList) : parent path = "" := by
  rw [parent, splitLast?_of_notMem h]

theorem baseName_of_notMem {path : String} (h : '/' ∉ path.toList) : baseName path = path := by
  rw [baseName, splitLast?_of_notMem h]

/-- What stands before a slash plays no part in the last component. -/
theorem baseName_append (dir rest : String) : baseName (dir ++ "/" ++ rest) = baseName rest := by
  by_cases h : '/' ∈ rest.toList
  · obtain ⟨above, name, rfl, hname⟩ := exists_eq_append h
    have hassoc : dir ++ "/" ++ (above ++ "/" ++ name) = dir ++ "/" ++ above ++ "/" ++ name := by
      simp only [String.append_assoc]
    rw [hassoc, baseName, baseName, splitLast?_path hname, splitLast?_path hname]
  · rw [baseName, splitLast?_path h, baseName_of_notMem h]
    exact String.ofList_toList

/-! ## Steps up

Steps up are counted by slashes. At a path without one the step up gives the empty path, and from there every
further step does.
-/

/-- How many directories stand above a path: one before each of its slashes. -/
def depth (path : String) : Nat := path.toList.count '/'

theorem depth_append (dir rest : String) : depth (dir ++ "/" ++ rest) = depth dir + depth rest + 1 := by
  rw [depth, String.toList_append, String.toList_append, List.count_append, List.count_append]
  simp only [depth, show "/".toList = ['/'] from rfl, List.count_singleton_self]
  omega

theorem depth_of_notMem {path : String} (h : '/' ∉ path.toList) : depth path = 0 :=
  List.count_eq_zero.mpr h

/-- A step up takes a slash away, if there is one. -/
theorem depth_parent (path : String) : depth (parent path) = depth path - 1 := by
  by_cases h : '/' ∈ path.toList
  · obtain ⟨dir, name, rfl, hname⟩ := exists_eq_append h
    rw [parent_append hname, depth_append, depth_of_notMem hname]
    rfl
  · rw [parent_of_notMem h, depth_of_notMem h]
    rfl

/-- More steps up than a path has directories above it end at the root, and stay there. -/
theorem iterate_parent_eq_empty {up : Nat} {path : String} (h : depth path < up) :
    parent^[up] path = "" := by
  induction up generalizing path with
  | zero => exact absurd h (Nat.not_lt_zero _)
  | succ up ih =>
    rw [Function.iterate_succ_apply]
    by_cases hpath : depth path = 0
    · rw [parent_of_notMem (List.count_eq_zero.mp hpath)]
      exact Function.iterate_fixed rfl up
    · exact ih (by rw [depth_parent]; omega)

end Path

namespace Ignore

/-! ## Directories above a path

Each slash of a path has a directory before it. The search for them goes through the path once, with what has been
passed reversed.
-/

/-- From any point of the search, the directories found are what stands before the slashes to come. -/
theorem mem_ancestors_go_iff {passed cs a : List Char} :
    a ∈ ancestors.go passed cs ↔ ∃ front rest, cs = front ++ '/' :: rest ∧ a = passed.reverse ++ front := by
  induction cs generalizing passed with
  | nil => simp [ancestors.go]
  | cons c cs ih =>
    -- The first character either ends an ancestor or belongs to all of them.
    have hfurther : (∃ front rest, c :: cs = front ++ '/' :: rest ∧ a = passed.reverse ++ front) ↔
        (c = '/' ∧ a = passed.reverse) ∨
          ∃ front rest, cs = front ++ '/' :: rest ∧ a = (c :: passed).reverse ++ front := by
      constructor
      · rintro ⟨front, rest, heq, rfl⟩
        cases front with
        | nil => exact .inl ⟨(List.cons.inj heq).1, List.append_nil _⟩
        | cons d front =>
          obtain ⟨rfl, rfl⟩ := List.cons.inj heq
          exact .inr ⟨front, rest, rfl, by simp⟩
      · rintro (⟨rfl, rfl⟩ | ⟨front, rest, rfl, rfl⟩)
        · exact ⟨[], cs, rfl, (List.append_nil _).symm⟩
        · exact ⟨c :: front, rest, rfl, by simp⟩
    rw [hfurther, ancestors.go]
    split
    · next hc => rw [List.mem_cons, ih, and_iff_right hc]
    · next hc => rw [ih, or_iff_right fun h => hc h.1]

/-- The directories above a path are what stands before its slashes. -/
theorem mem_ancestors_iff {path dir : String} : dir ∈ ancestors path ↔ ∃ rest, path = dir ++ "/" ++ rest := by
  rw [ancestors, List.mem_map]
  simp only [mem_ancestors_go_iff, List.reverse_nil, List.nil_append]
  constructor
  · rintro ⟨_, ⟨front, rest, heq, rfl⟩, rfl⟩
    refine ⟨String.ofList rest, String.ext_iff.mpr ?_⟩
    simp [heq, show "/".toList = ['/'] from rfl]
  · rintro ⟨rest, rfl⟩
    refine ⟨dir.toList, ⟨dir.toList, rest.toList, ?_, rfl⟩, String.ofList_toList⟩
    simp [show "/".toList = ['/'] from rfl]

/-- The directories above a path of names are the paths of its proper prefixes. -/
theorem mem_ancestors_join {names : List String} {a : String} (h : ∀ n ∈ names, Path.IsName n) :
    a ∈ ancestors (Path.join names) ↔
      ∃ above below, above ≠ [] ∧ below ≠ [] ∧ names = above ++ below ∧ a = Path.join above := by
  rw [mem_ancestors_iff]
  constructor
  · rintro ⟨rest, hpath⟩
    have hne : names ≠ [] := by
      rintro rfl
      have hdepth : 0 = Path.depth (a ++ "/" ++ rest) := congrArg Path.depth hpath
      rw [Path.depth_append] at hdepth
      omega
    refine ⟨Path.pieces a, Path.pieces rest, Path.pieces_ne_nil a, Path.pieces_ne_nil rest, ?_,
      (Path.join_pieces a).symm⟩
    rw [← Path.pieces_append, ← hpath, Path.pieces_join hne fun n hn => (h n hn).2.2.2]
  · rintro ⟨above, below, habove, hbelow, rfl, rfl⟩
    exact ⟨Path.join below, Path.join_append habove hbelow⟩

/--
A file is ignored if one of the names on the way to it is matched, each as the name of a directory
except the last.
-/
theorem isIgnored_join {policy : Policy} {names : List String} (hne : names ≠ [])
    (h : ∀ n ∈ names, Path.IsName n) :
    policy.isIgnored (Path.join names) false = false ↔
      ∀ above name below, names = above ++ name :: below →
        policy.isMatch (Path.join (above ++ [name])) (!below.isEmpty) = false := by
  rw [Policy.isIgnored, Bool.or_eq_false_iff, List.any_eq_false]
  constructor
  · rintro ⟨hdirs, hfile⟩ above name below rfl
    cases below with
    | nil => simpa using hfile
    | cons next below =>
      have hmem : Path.join (above ++ [name]) ∈ ancestors (Path.join (above ++ name :: next :: below)) :=
        (mem_ancestors_join h).mpr ⟨above ++ [name], next :: below, by simp, by simp, by simp, rfl⟩
      simpa using hdirs _ hmem
  · intro hall
    constructor
    · intro a ha
      obtain ⟨above, below, hab, hbe, rfl, rfl⟩ := (mem_ancestors_join h).mp ha
      -- The last name of the way to a directory is the name that the walk tests there.
      obtain ⟨init, last, rfl⟩ : ∃ init last, above = init ++ [last] :=
        ⟨_, _, (List.dropLast_concat_getLast hab).symm⟩
      obtain ⟨next, below, rfl⟩ := List.exists_cons_of_ne_nil hbe
      simpa using hall init last (next :: below) (by simp)
    · obtain ⟨init, last, rfl⟩ : ∃ init last, names = init ++ [last] :=
        ⟨_, _, (List.dropLast_concat_getLast hne).symm⟩
      simpa using hall init last [] rfl

end Ignore

end RepoScope
