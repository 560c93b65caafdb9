import RepoScope.Proofs.Components
import RepoScope.Proofs.Folding

/-!
# Folded paths

Folding a path fails if the path climbs above its start, and otherwise leaves a path of names, which is its own folded
form. What has been folded stays so when the path goes on: a longer path folds to the same as its rest seen from the
folded start (`Path.normalize?_append`), and no rest brings a path back that has climbed out.

The folded start may be the empty path, which is no directory to write in front of the rest. So the two meet in the
pieces of a path (`Path.pieces_under_join`), where an empty start has none and a rest that begins with a slash has an
empty piece to be dropped.
-/

namespace RepoScope.Path

/-- The pieces of a path below a directory that is given by names. -/
theorem pieces_under_join {names : List String} (h : ∀ n ∈ names, IsName n) (below : String) :
    pieces (under (join names) below) = names ++ pieces below := by
  unfold under
  split
  · next hempty =>
    have hnil : names = [] := (join_eq_empty_iff h).mp hempty
    rw [hnil, List.nil_append]
  · next hempty =>
    have hne : names ≠ [] := fun hnil => hempty (hnil ▸ rfl)
    rw [pieces_append, pieces_join hne fun n hn => (h n hn).2.2.2]

/-- Names fold to themselves. -/
theorem fold?_of_isName {names : List String} (h : ∀ n ∈ names, IsName n) : fold? names = some names := by
  unfold fold?
  rw [foldlM_foldPiece?_of_isName h, Option.map_some, List.append_nil, List.reverse_reverse]

/-- The names to which the first pieces fold can take the place of these pieces. -/
theorem fold?_append {above : List String} (h : ∀ p ∈ above, '/' ∉ p.toList) (below : List String) :
    fold? (above ++ below) = (fold? above).bind fun names => fold? (names ++ below) := by
  cases hfold : above.foldlM foldPiece? [] with
  | none =>
    unfold fold?
    rw [List.foldlM_append, hfold]
    rfl
  | some folded =>
    have habove : fold? above = some folded.reverse := by
      unfold fold?
      rw [hfold, Option.map_some]
    have hnames : ∀ n ∈ folded.reverse, IsName n := ((fold?_eq_some_iff h).mp habove).isName
    -- Behind these names, the stack is what it was behind the pieces.
    have hstack : folded.reverse.foldlM foldPiece? [] = some folded := by
      rw [foldlM_foldPiece?_of_isName hnames, List.reverse_reverse, List.append_nil]
    rw [habove, Option.bind_some]
    unfold fold?
    rw [List.foldlM_append, List.foldlM_append, hfold, hstack]

/-! ## Folded paths

All laws are those of folding the pieces of a path, read off the texts. The names of a folded path are pieces of it
that fold to themselves, so the folded path can stand in front of a rest in place of what was folded.
-/

/-- A path of names is its own folded form. -/
theorem normalize?_join {names : List String} (h : ∀ n ∈ names, IsName n) :
    normalize? (join names) = some (join names) := by
  by_cases hnil : names = []
  · subst hnil
    decide
  · unfold normalize?
    rw [pieces_join hnil fun n hn => (h n hn).2.2.2, fold?_of_isName h, Option.map_some]

/-- A longer path folds to the same as its rest seen from its folded start. -/
theorem normalize?_append (path below : String) :
    normalize? (path ++ "/" ++ below) = (normalize? path).bind fun start => normalize? (under start below) := by
  have hslash : ∀ p ∈ pieces path, '/' ∉ p.toList := fun p hp => slash_notMem_of_mem_pieces hp
  unfold normalize?
  rw [pieces_append, fold?_append hslash]
  cases hfold : fold? (pieces path) with
  | none => rfl
  | some names =>
    have hnames : ∀ n ∈ names, IsName n := ((fold?_eq_some_iff hslash).mp hfold).isName
    rw [Option.map_some, Option.bind_some, Option.bind_some, pieces_under_join hnames]

/--
Folding a path fails if and only if some of its first pieces have more steps up than names. Otherwise it leaves the
path of the names to which the pieces fold, none of them empty, a dot or a step up, and these are its pieces unless
there are none. This path is its own folded form, and any rest folds from it to the same as behind the path itself.
Behind a path that climbs out no rest folds.
-/
theorem normalize?_laws (path : String) :
    (normalize? path = none ↔ ClimbsOut (pieces path)) ∧
    (∀ result, normalize? path = some result →
      (∃ names, FoldsBelow (pieces path) names ∧ result = join names ∧ (names ≠ [] → pieces result = names) ∧
        ∀ name ∈ names, name ≠ "" ∧ name ≠ "." ∧ name ≠ "..") ∧
      normalize? result = some result ∧
      ∀ below, normalize? (path ++ "/" ++ below) = normalize? (under result below)) ∧
    (normalize? path = none → ∀ below, normalize? (path ++ "/" ++ below) = none) := by
  refine ⟨normalize?_eq_none_iff, ?folded, ?climbs⟩
  case folded =>
    intro result hresult
    obtain ⟨names, hfolds, rfl⟩ := normalize?_eq_some_iff.mp hresult
    have hnames : ∀ n ∈ names, IsName n := hfolds.isName
    refine ⟨⟨names, hfolds, rfl, fun hne => ?_, fun name hname => ?_⟩, normalize?_join hnames, fun below => ?_⟩
    · exact pieces_join hne fun n hn => (hnames n hn).2.2.2
    · obtain ⟨hempty, hdot, hup, -⟩ := hnames name hname
      exact ⟨hempty, hdot, hup⟩
    · rw [normalize?_append, hresult, Option.bind_some]
  case climbs =>
    intro hnone below
    rw [normalize?_append, hnone]
    rfl

/-- A path with pieces of all kinds that folds to the root, a rest that begins with a slash and one that climbs. -/
theorem normalize?_laws_sample :
    normalize? "./a//../b/.." = some "" ∧ normalize? "./a//../b/..//x/./y" = some "x/y" ∧
      normalize? "./a//../b/../../y" = none ∧ normalize? "a/../.." = none ∧ normalize? "a/../../b/c/d" = none := by
  obtain ⟨-, hfolded, -⟩ := normalize?_laws "./a//../b/.."
  obtain ⟨-, -, hclimbs⟩ := normalize?_laws "a/../.."
  have hroot : normalize? "./a//../b/.." = some "" := by decide
  have hout : normalize? "a/../.." = none := by decide
  obtain ⟨-, -, hbelow⟩ := hfolded "" hroot
  exact ⟨hroot, (hbelow "/x/./y").trans (by decide), (hbelow "../y").trans (by decide), hout,
    hclimbs hout "b/c/d"⟩

end RepoScope.Path
