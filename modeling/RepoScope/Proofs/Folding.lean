import RepoScope.Path
import RepoScope.Proofs.Names

/-!
# Folding below a start

A path that is seen from a directory of the repository must not climb above the root. How its pieces fold to names
is said by rules that may be applied in any order and place (`Path.FoldsBelow`); they are those of folding from the
top of the file system without the one that lets a step up from the top stay there. The fold finds these names and
fails if there are none (`fold?_eq_some_iff`), which is so exactly if the path has, up to some point, more steps up
than names (`fold?_eq_none_iff`).
-/

namespace RepoScope.Path

/--
How the pieces of a path fold to names without climbing above its start. Empty pieces and dots go, and a step up
goes together with the name before it.
-/
inductive FoldsBelow : List String → List String → Prop
  | names {names : List String} (h : ∀ n ∈ names, IsName n) : FoldsBelow names names
  | stay (above : List String) {rest names : List String} {piece : String}
      (h : piece = "" ∨ piece = ".")
      (hrest : FoldsBelow (above ++ rest) names) : FoldsBelow (above ++ piece :: rest) names
  | up (above : List String) {rest names : List String} {name : String} (h : IsName name)
      (hrest : FoldsBelow (above ++ rest) names) : FoldsBelow (above ++ name :: ".." :: rest) names

theorem FoldsBelow.isName {pieces names : List String} (h : FoldsBelow pieces names) :
    ∀ n ∈ names, IsName n := by
  induction h with
  | names h => exact h
  | stay _ _ _ ih => exact ih
  | up _ _ _ ih => exact ih

theorem foldPiece?_of_isName {name : String} (h : IsName name) (above : List String) :
    foldPiece? above name = some (name :: above) := by
  unfold foldPiece?
  rw [if_neg (not_or.mpr ⟨h.1, h.2.1⟩), if_neg h.2.2.1]

theorem foldPiece?_of_stays {piece : String} (h : piece = "" ∨ piece = ".") (above : List String) :
    foldPiece? above piece = some above := by
  unfold foldPiece?
  rw [if_pos h]

theorem foldPiece?_up (name : String) (above : List String) :
    foldPiece? (name :: above) ".." = some above := rfl

/-- Names fold to themselves, on top of what has been passed. -/
theorem foldlM_foldPiece?_of_isName {names : List String} (h : ∀ n ∈ names, IsName n)
    (above : List String) : names.foldlM foldPiece? above = some (names.reverse ++ above) := by
  induction names generalizing above with
  | nil => rfl
  | cons name rest ih =>
    rw [List.foldlM_cons, foldPiece?_of_isName (h name List.mem_cons_self), Option.bind_eq_bind,
      Option.bind_some, ih fun n hn => h n (List.mem_cons_of_mem _ hn)]
    simp

/-- What folds to names by the rules is folded to them. -/
theorem FoldsBelow.foldlM_eq {pieces names : List String} (h : FoldsBelow pieces names) :
    pieces.foldlM foldPiece? [] = some names.reverse := by
  induction h with
  | names h => rw [foldlM_foldPiece?_of_isName h, List.append_nil]
  | stay above h _ ih =>
    rw [List.foldlM_append] at ih ⊢
    simp only [List.foldlM_cons, foldPiece?_of_stays h, Option.bind_eq_bind, Option.bind_some] at ih ⊢
    exact ih
  | up above h _ ih =>
    rw [List.foldlM_append] at ih ⊢
    simp only [List.foldlM_cons, foldPiece?_of_isName h, foldPiece?_up, Option.bind_eq_bind,
      Option.bind_some] at ih ⊢
    exact ih

/-- What the fold leaves comes from the rules, on top of any names. -/
theorem foldsBelow_of_foldlM {pieces folded : List String} (h : ∀ p ∈ pieces, '/' ∉ p.toList)
    {above : List String} (ha : ∀ n ∈ above, IsName n)
    (hfold : pieces.foldlM foldPiece? above = some folded) :
    FoldsBelow (above.reverse ++ pieces) folded.reverse := by
  -- The invariant of the fold: what has been passed so far and what is left fold to the result.
  induction pieces generalizing above with
  | nil =>
    obtain rfl : above = folded := Option.some.inj hfold
    rw [List.append_nil]
    exact .names fun n hn => ha n (List.mem_reverse.mp hn)
  | cons piece rest ih =>
    have ih := @ih fun p hp => h p (List.mem_cons_of_mem _ hp)
    rw [List.foldlM_cons, Option.bind_eq_bind] at hfold
    by_cases hstay : piece = "" ∨ piece = "."
    · rw [foldPiece?_of_stays hstay, Option.bind_some] at hfold
      exact .stay _ hstay (ih ha hfold)
    · by_cases hup : piece = ".."
      · subst hup
        cases above with
        | nil => cases hfold
        | cons name above =>
          rw [foldPiece?_up, Option.bind_some] at hfold
          rw [List.reverse_cons, List.append_assoc]
          exact .up _ (ha name List.mem_cons_self)
            (ih (fun n hn => ha n (List.mem_cons_of_mem _ hn)) hfold)
      · have hname : IsName piece :=
          ⟨fun he => hstay (.inl he), fun hd => hstay (.inr hd), hup, h piece List.mem_cons_self⟩
        rw [foldPiece?_of_isName hname, Option.bind_some] at hfold
        have hpassed := ih (List.forall_mem_cons.mpr ⟨hname, ha⟩) hfold
        rw [List.reverse_cons, List.append_assoc] at hpassed
        exact hpassed

/-- The fold finds the names to which the pieces of a path fold, and fails if there are none. -/
theorem fold?_eq_some_iff {pieces names : List String} (h : ∀ p ∈ pieces, '/' ∉ p.toList) :
    fold? pieces = some names ↔ FoldsBelow pieces names := by
  rw [fold?, Option.map_eq_some_iff]
  constructor
  · rintro ⟨folded, hfold, rfl⟩
    exact foldsBelow_of_foldlM h (by simp) hfold
  · intro hfold
    exact ⟨names.reverse, hfold.foldlM_eq, List.reverse_reverse names⟩

/-! ## Climbing out

A path climbs out if some of its first pieces have more steps up than names. The fold keeps the names that are left
so far, and a step up takes one away; so on top of `n` names it fails at the point where the steps up outnumber the
names passed by more than `n`.
-/

/-- How many pieces of a path name something. -/
def nameCount (pieces : List String) : Nat :=
  pieces.countP fun piece => piece ≠ "" ∧ piece ≠ "." ∧ piece ≠ ".."

/-- Whether a path climbs above its start at some point: up to there, it has more steps up than names. -/
def ClimbsOut (pieces : List String) : Prop :=
  ∃ passed rest, pieces = passed ++ rest ∧ nameCount passed < passed.count ".."

theorem exists_passed_cons {p : List String → Prop} (hnil : ¬p []) {piece : String}
    {rest : List String} :
    (∃ passed behind, piece :: rest = passed ++ behind ∧ p passed) ↔
      ∃ passed behind, rest = passed ++ behind ∧ p (piece :: passed) := by
  constructor
  · rintro ⟨passed, behind, heq, hp⟩
    obtain ⟨rfl, -⟩ | ⟨passed, rfl, rfl⟩ := List.cons_eq_append_iff.mp heq
    · exact absurd hp hnil
    · exact ⟨passed, behind, rfl, hp⟩
  · rintro ⟨passed, behind, rfl, hp⟩
    exact ⟨piece :: passed, behind, rfl, hp⟩

/-- On top of some names, the fold fails if the steps up outnumber them with the names that have been passed. -/
theorem foldlM_foldPiece?_eq_none_iff {pieces above : List String} :
    pieces.foldlM foldPiece? above = none ↔
      ∃ passed rest, pieces = passed ++ rest ∧
        above.length + nameCount passed < passed.count ".." := by
  induction pieces generalizing above with
  | nil => simp
  | cons piece rest ih =>
    rw [exists_passed_cons (p := fun passed => above.length + nameCount passed < passed.count "..")
      (by simp), List.foldlM_cons, Option.bind_eq_bind]
    by_cases hstay : piece = "" ∨ piece = "."
    · rw [foldPiece?_of_stays hstay, Option.bind_some, ih]
      rcases hstay with rfl | rfl <;> simp [nameCount]
    · by_cases hup : piece = ".."
      · subst hup
        have hcount : ∀ passed, nameCount (".." :: passed) = nameCount passed := fun _ => by
          simp [nameCount]
        simp only [hcount, List.count_cons_self]
        cases above with
        | nil =>
          -- There is nothing to step up from, and this one step outnumbers the names before it.
          exact iff_of_true rfl ⟨[], rest, rfl, by simp [nameCount]⟩
        | cons name above =>
          have hlevel : ∀ passed : List String,
              (name :: above).length + nameCount passed < passed.count ".." + 1 ↔
                above.length + nameCount passed < passed.count ".." := fun _ => by
            rw [List.length_cons]
            omega
          rw [foldPiece?_up, Option.bind_some, ih]
          simp only [hlevel]
      · have hname : foldPiece? above piece = some (piece :: above) := by
          unfold foldPiece?
          rw [if_neg hstay, if_neg hup]
        have hcount : ∀ passed, nameCount (piece :: passed) = nameCount passed + 1 := fun _ => by
          have hpiece : piece ≠ "" ∧ piece ≠ "." ∧ piece ≠ ".." :=
            ⟨fun he => hstay (.inl he), fun hd => hstay (.inr hd), hup⟩
          simp [nameCount, hpiece]
        rw [hname, Option.bind_some, ih]
        simp only [hcount, List.count_cons_of_ne hup, List.length_cons, Nat.add_assoc, Nat.add_comm 1]

/-- The fold of a path fails if and only if the path climbs above its start at some point. -/
theorem fold?_eq_none_iff {pieces : List String} : fold? pieces = none ↔ ClimbsOut pieces := by
  rw [fold?, Option.map_eq_none_iff, foldlM_foldPiece?_eq_none_iff]
  simp only [List.length_nil, Nat.zero_add]
  exact Iff.rfl

/-! ## Folded paths

The same on texts: what is left of a path is the path of the names, and there is none if it climbs out.
-/

theorem normalize?_eq_none_iff {path : String} : normalize? path = none ↔ ClimbsOut (pieces path) := by
  rw [normalize?, Option.map_eq_none_iff, fold?_eq_none_iff]

/-- What is left of a path are the names to which its pieces fold. -/
theorem normalize?_eq_some_iff {path result : String} :
    normalize? path = some result ↔ ∃ names, FoldsBelow (pieces path) names ∧ result = join names := by
  rw [normalize?, Option.map_eq_some_iff]
  refine exists_congr fun names => ?_
  rw [fold?_eq_some_iff fun p hp => slash_notMem_of_mem_pieces hp, eq_comm (a := join names)]

theorem resolve?_eq_none_iff {dir rest : String} :
    resolve? dir rest = none ↔ ClimbsOut (pieces (under dir rest)) :=
  normalize?_eq_none_iff

theorem resolve?_of_foldsBelow {dir rest : String} {names : List String}
    (h : FoldsBelow (pieces (under dir rest)) names) : resolve? dir rest = some (join names) :=
  normalize?_eq_some_iff.mpr ⟨names, h, rfl⟩

end RepoScope.Path
