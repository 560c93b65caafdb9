import RepoScope.Secret

/-!
# Paths made of names

The tests on paths read a path as text and cut it at its slashes again. For a path that was joined
from names that a file system allows (`Path.IsName`) nothing is lost on the way: cutting gives the
names back (`pieces_join`), and the path is a secret if and only if one of its names is (`isSensitive_join`).

Folding makes names of the pieces of a path. The rules of folding (`Path.FoldsTo`) may be applied in any
order and place, and all come to the same (`FoldsTo.eq_foldAtTop`).
-/

namespace RepoScope

namespace Text

/-! ## Cutting what was joined

A text without the separator is one piece, and each separator ends a piece. So texts without separators are given
back when they have been joined with one.
-/

theorem piecesBy_of_forall_not {p : Char → Bool} {cs : List Char} (h : ∀ c ∈ cs, p c = false) :
    piecesBy p cs = [cs] := by
  induction cs with
  | nil => rfl
  | cons c cs ih =>
    have hcs := ih fun d hd => h d (List.mem_cons_of_mem _ hd)
    exact piecesBy_cons_other p c cs cs [] (h c List.mem_cons_self) hcs

theorem piecesBy_append_sep {p : Char → Bool} {cs rest : List Char} {sep : Char}
    (h : ∀ c ∈ cs, p c = false) (hsep : p sep = true) :
    piecesBy p (cs ++ sep :: rest) = cs :: piecesBy p rest := by
  induction cs with
  | nil => exact piecesBy_cons_sep p sep rest hsep
  | cons c cs ih =>
    have hcs := ih fun d hd => h d (List.mem_cons_of_mem _ hd)
    exact piecesBy_cons_other p c _ cs _ (h c List.mem_cons_self) hcs

/-- Cutting at the separator gives back the pieces that were joined with it. -/
theorem pieces_intercalate {sep : Char} {parts : List (List Char)} (hne : parts ≠ [])
    (h : ∀ part ∈ parts, sep ∉ part) : pieces sep (List.intercalate [sep] parts) = parts := by
  have hpart : ∀ part ∈ parts, ∀ c ∈ part, (c == sep) = false := by
    intro part hpart c hc
    have : c ≠ sep := fun heq => h part hpart (heq ▸ hc)
    simpa using this
  clear h
  -- Induction on the pieces: the last one has no separator behind it, all others have.
  induction parts with
  | nil => exact absurd rfl hne
  | cons part rest ih =>
    have hhead := hpart part List.mem_cons_self
    cases rest with
    | nil =>
      rw [List.intercalate_singleton]
      exact piecesBy_of_forall_not hhead
    | cons next rest =>
      have htail := ih (by simp) fun q hq => hpart q (List.mem_cons_of_mem _ hq)
      rw [List.intercalate_cons_cons, List.append_assoc]
      rw [pieces] at htail ⊢
      rw [List.singleton_append, piecesBy_append_sep hhead (by simp), htail]

/-- Parts that are joined in two steps have the separator between the two. -/
theorem intercalate_append {sep : Char} {xs ys : List (List Char)} (hxs : xs ≠ []) (hys : ys ≠ []) :
    List.intercalate [sep] (xs ++ ys)
      = List.intercalate [sep] xs ++ sep :: List.intercalate [sep] ys := by
  induction xs with
  | nil => exact absurd rfl hxs
  | cons part rest ih =>
    cases rest with
    | nil =>
      obtain ⟨next, more, rfl⟩ := List.exists_cons_of_ne_nil hys
      simp [List.intercalate_cons_cons]
    | cons next rest =>
      have ih := ih (List.cons_ne_nil _ _)
      rw [List.cons_append] at ih
      rw [List.cons_append, List.cons_append, List.intercalate_cons_cons, ih, List.intercalate_cons_cons]
      simp

theorem subset_of_mem_piecesBy {p : Char → Bool} {cs piece : List Char}
    (h : piece ∈ piecesBy p cs) : piece ⊆ cs := by
  induction cs generalizing piece with
  | nil =>
    rw [piecesBy_nil, List.mem_singleton] at h
    simp [h]
  | cons c cs ih =>
    by_cases hc : p c = true
    · rw [piecesBy_cons_sep p c cs hc] at h
      rcases List.mem_cons.mp h with rfl | h
      · exact List.nil_subset _
      · exact List.subset_cons_of_subset c (ih h)
    · have hc : p c = false := by simpa using hc
      obtain ⟨first, rest, hcs⟩ := List.exists_cons_of_ne_nil (piecesBy_ne_nil p cs)
      rw [piecesBy_cons_other p c cs first rest hc hcs] at h
      rw [hcs] at ih
      rcases List.mem_cons.mp h with rfl | h
      · exact List.cons_subset_cons c (ih List.mem_cons_self)
      · exact List.subset_cons_of_subset c (ih (List.mem_cons_of_mem _ h))

theorem eq_false_of_mem_piecesBy {p : Char → Bool} {cs piece : List Char}
    (h : piece ∈ piecesBy p cs) : ∀ c ∈ piece, p c = false := by
  induction cs generalizing piece with
  | nil =>
    rw [piecesBy_nil, List.mem_singleton] at h
    simp [h]
  | cons c cs ih =>
    by_cases hc : p c = true
    · rw [piecesBy_cons_sep p c cs hc] at h
      rcases List.mem_cons.mp h with rfl | h
      · simp
      · exact ih h
    · have hc : p c = false := by simpa using hc
      obtain ⟨first, rest, hcs⟩ := List.exists_cons_of_ne_nil (piecesBy_ne_nil p cs)
      rw [piecesBy_cons_other p c cs first rest hc hcs] at h
      rw [hcs] at ih
      -- The character belongs to the first piece, and the others are those of the rest.
      rcases List.mem_cons.mp h with rfl | h
      · intro d hd
        rcases List.mem_cons.mp hd with rfl | hd
        · exact hc
        · exact ih List.mem_cons_self d hd
      · exact ih (List.mem_cons_of_mem _ h)

end Text

namespace Path

/-! ## Names

Names that a file system allows have no slash in them, are not empty and not made of dots, so none of what folding
drops or takes back is a name. Rules for folding are stated without an order (`FoldsTo`) and the fold is one way to
apply them; that there is no other result is shown by running the fold on both sides of each rule.
-/

/-- A name that an entry of a directory can have. -/
def IsName (name : String) : Prop :=
  name ≠ "" ∧ name ≠ "." ∧ name ≠ ".." ∧ '/' ∉ name.toList

instance (name : String) : Decidable (IsName name) :=
  inferInstanceAs (Decidable (_ ∧ _))

theorem join_nil : join [] = "" := rfl

theorem join_singleton (name : String) : join [name] = name := by
  simp [join]

/-- Names that are joined in two steps have a slash between the two. -/
theorem join_append {xs ys : List String} (hxs : xs ≠ []) (hys : ys ≠ []) :
    join (xs ++ ys) = join xs ++ "/" ++ join ys := by
  rw [String.ext_iff, join, List.map_append, String.toList_ofList,
    Text.intercalate_append (by simpa using hxs) (by simpa using hys)]
  simp [join, show "/".toList = ['/'] from rfl]

/-- Cutting a path that was joined from names gives the names back. -/
theorem pieces_join {names : List String} (hne : names ≠ []) (h : ∀ n ∈ names, '/' ∉ n.toList) :
    pieces (join names) = names := by
  have hcut : Text.pieces '/' (List.intercalate ['/'] (names.map String.toList))
      = names.map String.toList :=
    Text.pieces_intercalate (by simpa using hne) (by simpa using h)
  rw [pieces, join, String.toList_ofList, hcut]
  simp [Function.comp_def]

/-- Names can be read off the path that joins them. -/
theorem join_injective {xs ys : List String} (hx : ∀ n ∈ xs, IsName n) (hy : ∀ n ∈ ys, IsName n)
    (h : join xs = join ys) : xs = ys := by
  -- Cutting undoes joining for all lists but the empty one, which no other list joins to.
  have hempty : ∀ {zs : List String}, (∀ n ∈ zs, IsName n) → join zs = "" → zs = [] := by
    intro zs hz hj
    cases zs with
    | nil => rfl
    | cons n rest =>
      have hcut := pieces_join (by simp) fun m hm => (hz m hm).2.2.2
      rw [hj] at hcut
      have hn : n = "" := by
        have : pieces "" = [""] := by decide
        rw [this] at hcut
        simpa using (congrArg List.head? hcut).symm
      exact absurd hn (hz n List.mem_cons_self).1
  by_cases hxs : xs = []
  · subst hxs
    exact (hempty hy h.symm).symm
  · by_cases hys : ys = []
    · subst hys
      exact hempty hx h
    · rw [← pieces_join hxs fun n hn => (hx n hn).2.2.2, h,
        pieces_join hys fun n hn => (hy n hn).2.2.2]

theorem join_eq_empty_iff {names : List String} (h : ∀ n ∈ names, IsName n) :
    join names = "" ↔ names = [] := by
  rw [← join_nil]
  exact ⟨fun hj => join_injective h (by simp) hj, fun hn => hn ▸ rfl⟩

/-- A path of names does not start at the top of the file system. -/
theorem isAbsolute_join {names : List String} (h : ∀ n ∈ names, IsName n) :
    isAbsolute (join names) = false := by
  cases names with
  | nil => rfl
  | cons n rest =>
    obtain ⟨hne, -, -, hslash⟩ := h n List.mem_cons_self
    have hcs : n.toList ≠ [] := fun hnil => hne (String.toList_inj.mp (by simpa using hnil))
    obtain ⟨c, cs, hc⟩ := List.exists_cons_of_ne_nil hcs
    have hjoin : (join (n :: rest)).toList.head? = some c := by
      cases rest <;> simp [join, hc, List.intercalate_cons_cons]
    rw [isAbsolute, hjoin]
    have : c ≠ '/' := fun heq => hslash (by rw [hc, heq]; exact List.mem_cons_self)
    simpa using this

/-- Seen from a place, a path of names leads down by these names. -/
theorem piecesFrom_join {root names : List String} (hne : names ≠ []) (h : ∀ n ∈ names, IsName n) :
    piecesFrom root (join names) = root ++ names := by
  rw [piecesFrom, isAbsolute_join h, pieces_join hne fun n hn => (h n hn).2.2.2]
  rfl

theorem slash_notMem_of_mem_pieces {path piece : String} (h : piece ∈ pieces path) :
    '/' ∉ piece.toList := by
  obtain ⟨cs, hcs, rfl⟩ := List.mem_map.mp h
  rw [String.toList_ofList]
  intro hslash
  simpa using Text.eq_false_of_mem_piecesBy hcs '/' hslash

theorem slash_notMem_of_mem_piecesFrom {root : List String} {path piece : String}
    (hroot : ∀ n ∈ root, '/' ∉ n.toList) (h : piece ∈ piecesFrom root path) :
    '/' ∉ piece.toList := by
  rw [piecesFrom] at h
  split at h
  · exact slash_notMem_of_mem_pieces (List.mem_of_mem_tail h)
  · rcases List.mem_append.mp h with h | h
    · exact hroot piece h
    · exact slash_notMem_of_mem_pieces h

/-- Folding leaves names only. -/
theorem isName_of_mem_foldAtTop {pieces : List String} (h : ∀ p ∈ pieces, '/' ∉ p.toList) :
    ∀ n ∈ foldAtTop pieces, IsName n := by
  -- The invariant of the fold: what has been passed so far are names.
  have hfold : ∀ above : List String, (∀ n ∈ above, IsName n) →
      ∀ n ∈ pieces.foldl foldPieceAtTop above, IsName n := by
    induction pieces with
    | nil => exact fun above ha => ha
    | cons piece rest ih =>
      intro above ha
      refine ih (fun p hp => h p (List.mem_cons_of_mem _ hp)) _ fun n hn => ?_
      rw [foldPieceAtTop] at hn
      split at hn
      · exact ha n hn
      · next hname =>
        split at hn
        · exact ha n (List.mem_of_mem_tail hn)
        · next hup =>
          rcases List.mem_cons.mp hn with rfl | hn
          · exact ⟨fun he => hname (.inl he), fun hd => hname (.inr hd), hup,
              h n List.mem_cons_self⟩
          · exact ha n hn
  intro n hn
  rw [foldAtTop, List.mem_reverse] at hn
  exact hfold [] (by simp) n hn

/--
How the pieces of an absolute path fold to names. Empty pieces and dots go, a step up goes together with the
name before it, and at the top it goes alone.
-/
inductive FoldsTo : List String → List String → Prop
  | names {names : List String} (h : ∀ n ∈ names, IsName n) : FoldsTo names names
  | stay {above rest names : List String} {piece : String} (h : piece = "" ∨ piece = ".")
      (hrest : FoldsTo (above ++ rest) names) : FoldsTo (above ++ piece :: rest) names
  | up {above rest names : List String} {name : String} (h : IsName name)
      (hrest : FoldsTo (above ++ rest) names) : FoldsTo (above ++ name :: ".." :: rest) names
  | top {rest names : List String} (hrest : FoldsTo rest names) : FoldsTo (".." :: rest) names

theorem foldPieceAtTop_of_isName {name : String} (h : IsName name) (above : List String) :
    foldPieceAtTop above name = name :: above := by
  rw [foldPieceAtTop, if_neg (not_or.mpr ⟨h.1, h.2.1⟩), if_neg h.2.2.1]

/-- Names fold to themselves, on top of what has been passed. -/
theorem foldl_foldPieceAtTop_of_isName {names : List String} (h : ∀ n ∈ names, IsName n)
    (above : List String) : names.foldl foldPieceAtTop above = names.reverse ++ above := by
  induction names generalizing above with
  | nil => rfl
  | cons name rest ih =>
    rw [List.foldl_cons, foldPieceAtTop_of_isName (h name List.mem_cons_self),
      ih fun n hn => h n (List.mem_cons_of_mem _ hn)]
    simp

/-- There is one way to fold a path. -/
theorem FoldsTo.eq_foldAtTop {pieces names : List String} (h : FoldsTo pieces names) :
    names = foldAtTop pieces := by
  induction h with
  | names h => rw [foldAtTop, foldl_foldPieceAtTop_of_isName h, List.append_nil, List.reverse_reverse]
  | stay h hrest ih =>
    rw [ih, foldAtTop, foldAtTop, List.foldl_append, List.foldl_append, List.foldl_cons,
      foldPieceAtTop, if_pos h]
  | up h hrest ih =>
    rw [ih, foldAtTop, foldAtTop, List.foldl_append, List.foldl_append, List.foldl_cons,
      foldPieceAtTop_of_isName h, List.foldl_cons]
    rfl
  | top hrest ih =>
    rw [ih, foldAtTop, foldAtTop, List.foldl_cons]
    rfl

/-- The fold applies the rules from the first piece to the last. -/
theorem foldsTo_foldAtTop {pieces : List String} (h : ∀ p ∈ pieces, '/' ∉ p.toList) :
    FoldsTo pieces (foldAtTop pieces) := by
  -- The invariant of the fold: what has been passed so far and what is left fold to the result.
  have hfold : ∀ above : List String, (∀ n ∈ above, IsName n) →
      FoldsTo (above.reverse ++ pieces) (pieces.foldl foldPieceAtTop above).reverse := by
    induction pieces with
    | nil =>
      intro above ha
      rw [List.append_nil]
      exact .names fun n hn => ha n (List.mem_reverse.mp hn)
    | cons piece rest ih =>
      intro above ha
      have ih := ih fun p hp => h p (List.mem_cons_of_mem _ hp)
      rw [List.foldl_cons]
      by_cases hstay : piece = "" ∨ piece = "."
      · rw [foldPieceAtTop, if_pos hstay]
        exact .stay hstay (ih above ha)
      · by_cases hup : piece = ".."
        · subst hup
          cases above with
          | nil => exact .top (ih [] ha)
          | cons name above =>
            rw [List.reverse_cons, List.append_assoc]
            exact .up (ha name List.mem_cons_self)
              (ih above fun n hn => ha n (List.mem_cons_of_mem _ hn))
        · have hname : IsName piece :=
            ⟨fun he => hstay (.inl he), fun hd => hstay (.inr hd), hup, h piece List.mem_cons_self⟩
          rw [foldPieceAtTop_of_isName hname]
          have hpassed := ih (piece :: above) fun n hn =>
            (List.mem_cons.mp hn).elim (· ▸ hname) (ha n)
          rw [List.reverse_cons, List.append_assoc] at hpassed
          exact hpassed
  exact hfold [] (by simp)

/-- A path of names folds to these names. -/
theorem names_join {names : List String} (h : ∀ n ∈ names, IsName n) :
    Path.names (join names) = names := by
  by_cases hne : names = []
  · subst hne
    decide
  · rw [Path.names, pieces_join hne fun n hn => (h n hn).2.2.2, naming]
    refine List.filter_eq_self.mpr fun n hn => ?_
    simpa using ⟨(h n hn).1, (h n hn).2.1⟩

/-- One more name below a path of names. -/
theorem under_join {names : List String} {name : String} (h : ∀ n ∈ names, IsName n) :
    under (join names) name = join (names ++ [name]) := by
  rw [under]
  split
  · next hj =>
    rw [(join_eq_empty_iff h).mp hj, List.nil_append, join_singleton]
  · next hj =>
    have hne : names ≠ [] := fun hn => hj (hn ▸ rfl)
    rw [join_append hne (by simp), join_singleton]

end Path

/-- A path of names is a secret if one of the names is. -/
theorem Secret.isSensitive_join {names : List String} (h : ∀ n ∈ names, Path.IsName n) :
    Secret.isSensitive (Path.join names) = names.any Secret.isSensitiveName := by
  rw [Secret.isSensitive, Path.names_join h]

end RepoScope
