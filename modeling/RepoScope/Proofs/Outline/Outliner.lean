import RepoScope.Proofs.Outline.Selections

/-!
# Outliners

An outliner goes through the lines of a text one by one, and of each line it selects at most one line: the
line itself, or what is left of it when blanks, a body or a value are taken away (`Abridged`). This is the
law of an `Outliner`. From it follows what holds of a run over any lines: the selection holds abridged lines
of the source (`has_of_run?`), in the order of the source (`isOrdered_of_run?`), and what has been kept
stays (`mem_kept_of_run?`).
-/

namespace RepoScope.Outline

open Text

/-! ## Abridged lines -/

/-- What an outline may show of a source line. -/
inductive Abridged (source : List Char) : List Char → Prop
  | whole : Abridged source source
  | blank (h : isBlankText source = true) : Abridged source []
  | body {front : List Char} (h : front ++ ['{'] <+: source) :
      Abridged source (front ++ ['{'] ++ ' ' :: elision ++ " \x7d".toList)
  | suite {front : List Char} (h : front ++ [':'] <+: source) :
      Abridged source (front ++ [':'] ++ ' ' :: elision)
  | mark : Abridged source (leadingBlanks source ++ elision)

/-- What an outline may show of a numbered source line. -/
def Line.Abridges (shown source : Line) : Prop :=
  shown.row = source.row ∧ Abridged source.text shown.text

/-! ## Runs

A run is a fold over numbered lines that may fail. It is stated over the lines and the number of the first, so that
it can be cut anywhere: what holds of a run over the first lines is then known in front of the line that comes
next.
-/

/-- A reader of lines that selects of each line at most one abridged line. -/
structure Outliner (σ : Type) where
  /-- What becomes of the state by one line. -/
  step? : σ → Line → Option σ
  /-- The lines selected so far. -/
  selection : σ → Selection
  update {s s' : σ} {line : Line} (h : step? s line = some s') :
    Selection.Update (·.Abridges line) (selection s) (selection s')

namespace Outliner

variable {σ : Type} {O : Outliner σ}

/-- The state after lines of which the first has the number `row`. -/
def run? (O : Outliner σ) : σ → Nat → List (List Char) → Option σ
  | s, _, [] => some s
  | s, row, line :: rest => (O.step? s ⟨row, line⟩).bind (O.run? · (row + 1) rest)

/-- A run over a line and those below it is a step and a run over these. -/
theorem run?_cons {s s' : σ} {row : Nat} {line : List Char} {rest : List (List Char)} :
    O.run? s row (line :: rest) = some s' ↔
      ∃ next, O.step? s ⟨row, line⟩ = some next ∧ O.run? next (row + 1) rest = some s' := by
  rw [run?, Option.bind_eq_some_iff]

/-- A run over lines is put together from runs over the first and the last of them. -/
theorem run?_append (s : σ) (row : Nat) (xs ys : List (List Char)) :
    O.run? s row (xs ++ ys) = (O.run? s row xs).bind (O.run? · (row + xs.length) ys) := by
  induction xs generalizing s row with
  | nil => rfl
  | cons line rest ih =>
    rw [List.cons_append, run?, run?, Option.bind_assoc, List.length_cons, Nat.add_comm rest.length,
      ← Nat.add_assoc]
    congr 1
    funext next
    exact ih next (row + 1)

theorem run?_append_eq_some {s s' : σ} {row : Nat} {xs ys : List (List Char)} :
    O.run? s row (xs ++ ys) = some s' ↔
      ∃ next, O.run? s row xs = some next ∧ O.run? next (row + xs.length) ys = some s' := by
  rw [run?_append, Option.bind_eq_some_iff]

/-- Going through the numbered lines of a text is a run from its first line. -/
theorem foldlM_numbered (s : σ) (text : List Char) :
    (numbered text).foldlM O.step? s = O.run? s 0 (lines text) := by
  -- The numbers do not start at zero in the middle of a text.
  have hfold : ∀ (ls : List (List Char)) (row : Nat) (s : σ),
      (ls.mapIdx fun i l => Line.mk (row + i) l).foldlM O.step? s = O.run? s row ls := by
    intro ls
    induction ls with
    | nil => exact fun row s => rfl
    | cons line rest ih =>
      intro row s
      rw [List.mapIdx_cons, List.foldlM_cons, run?]
      refine congrArg (Option.bind (O.step? s ⟨row, line⟩)) (funext fun next => ?_)
      rw [← ih (row + 1) next]
      simp only [Nat.add_assoc, Nat.add_comm 1]
  simpa [numbered] using hfold (lines text) 0 s

/-- What holds at the start and is kept by the step of every line holds at the end. -/
theorem run?_invariant {P : Nat → σ → Prop} {s s' : σ} {row : Nat} {ls : List (List Char)}
    (h : O.run? s row ls = some s') (hs : P row s)
    (hstep : ∀ i line t t', ls[i]? = some line → P (row + i) t →
      O.step? t ⟨row + i, line⟩ = some t' → P (row + i + 1) t') : P (row + ls.length) s' := by
  induction ls generalizing s row with
  | nil =>
    cases h
    exact hs
  | cons line rest ih =>
    obtain ⟨next, hnext, hrest⟩ := run?_cons.mp h
    rw [List.length_cons, Nat.add_comm rest.length, ← Nat.add_assoc]
    refine ih hrest (hstep 0 line s next rfl hs hnext) fun i line' t t' hline ht ht' => ?_
    have hrow : row + 1 + i = row + (i + 1) := by omega
    rw [hrow] at ht ht' ⊢
    exact hstep (i + 1) line' t t' hline ht ht'

/-- A run that reaches a line reads it next. -/
theorem run?_take_succ_eq_some {s s' : σ} {ls : List (List Char)} {row : Nat} (hrow : row < ls.length) :
    O.run? s 0 (ls.take (row + 1)) = some s' ↔
      ∃ t, O.run? s 0 (ls.take row) = some t ∧ O.step? t ⟨row, ls[row]⟩ = some s' := by
  have hlength : (ls.take row).length = row := by
    rw [List.length_take, Nat.min_eq_left (Nat.le_of_lt hrow)]
  rw [List.take_succ_eq_append_getElem hrow, run?_append_eq_some, hlength, Nat.zero_add]
  constructor
  · rintro ⟨t, ht, hlast⟩
    obtain ⟨next, hnext, hend⟩ := run?_cons.mp hlast
    cases hend
    exact ⟨t, ht, hnext⟩
  · rintro ⟨t, ht, hnext⟩
    exact ⟨t, ht, run?_cons.mpr ⟨s', hnext, rfl⟩⟩

/-- A run over a text passes through a state before each line, and reads the line in this state. -/
theorem exists_run?_take {s s' : σ} {ls : List (List Char)} (h : O.run? s 0 ls = some s') {row : Nat}
    (hrow : row < ls.length) :
    ∃ t next, O.run? s 0 (ls.take row) = some t ∧ O.step? t ⟨row, ls[row]⟩ = some next ∧
      O.run? s 0 (ls.take (row + 1)) = some next ∧
      O.run? next (row + 1) (ls.drop (row + 1)) = some s' := by
  have hlength : (ls.take row).length = row := by
    rw [List.length_take, Nat.min_eq_left (Nat.le_of_lt hrow)]
  rw [← List.take_append_drop row ls, List.drop_eq_getElem_cons hrow] at h
  obtain ⟨t, ht, hrest⟩ := run?_append_eq_some.mp h
  rw [hlength, Nat.zero_add] at hrest
  obtain ⟨next, hnext, hafter⟩ := run?_cons.mp hrest
  exact ⟨t, next, ht, hnext, (run?_take_succ_eq_some hrow).mpr ⟨t, ht, hnext⟩, hafter⟩

/-! ## What a run selects

Each step updates the selection with what may be shown of its line. So the laws of updates become laws of runs, by
`run?_invariant`.
-/

/-- What a run selects is abridged from lines that it has read. -/
theorem has_of_run? {s s' : σ} {row : Nat} {ls : List (List Char)} (h : O.run? s row ls = some s')
    {l : Line} (hl : (O.selection s').Has l) :
    (O.selection s).Has l ∨ ∃ i line, ls[i]? = some line ∧ l.Abridges ⟨row + i, line⟩ := by
  refine run?_invariant (P := fun _ t => ∀ l, (O.selection t).Has l → (O.selection s).Has l ∨
    ∃ i line, ls[i]? = some line ∧ l.Abridges ⟨row + i, line⟩) h (fun l hl => .inl hl) ?_ l hl
  intro i line t t' hline ht ht' l hl
  rcases (O.update ht').has hl with hl | hl
  · exact ht l hl
  · exact .inr ⟨i, line, hline, hl⟩

/-- What a run selects of a line is selected when the line is read, and not before. -/
theorem has_of_has_run? {s t next s' : σ} {row : Nat} {ls : List (List Char)}
    (hs : O.selection s = .empty) (hbefore : O.run? s 0 (ls.take row) = some t)
    (hbehind : O.run? next (row + 1) (ls.drop (row + 1)) = some s') {l : Line}
    (hl : (O.selection s').Has l) (hrow : l.row = row) :
    (O.selection next).Has l ∧ ¬(O.selection t).Has l := by
  constructor
  · rcases has_of_run? hbehind hl with hnext | ⟨i, line, -, hlater, -⟩
    · exact hnext
    · simp only at hlater
      omega
  · intro hearlier
    rcases has_of_run? hbefore hearlier with hstart | ⟨i, line, hline, hrow', -⟩
    · rw [hs] at hstart
      exact hstart.elim (fun hk => absurd hk List.not_mem_nil) fun hw => absurd hw List.not_mem_nil
    · have hlt := (List.getElem?_eq_some_iff.mp hline).1
      rw [List.length_take] at hlt
      simp only at hrow'
      omega

/-- What is kept stays kept. -/
theorem mem_kept_of_run? {s s' : σ} {row : Nat} {ls : List (List Char)}
    (h : O.run? s row ls = some s') {l : Line} (hl : l ∈ (O.selection s).kept) :
    l ∈ (O.selection s').kept :=
  run?_invariant (P := fun _ t => l ∈ (O.selection t).kept) h hl
    fun _ _ _ _ _ ht ht' => (O.update ht').kept ht

/-- A run over lines keeps them in order. -/
theorem isOrdered_of_run? {s s' : σ} {row : Nat} {ls : List (List Char)}
    (h : O.run? s row ls = some s') (hs : (O.selection s).IsOrdered row) :
    (O.selection s').IsOrdered (row + ls.length) :=
  run?_invariant (P := fun row t => (O.selection t).IsOrdered row) h hs
    fun _ _ _ _ _ ht ht' => (O.update ht').isOrdered (fun _ hl => hl.1) ht

/--
Lines that are kept as long as something is open, where `done` are those that were read before. With `P` for
what is open and `C` for lines behind which nothing is, they are kept up to the first that closes it.
-/
theorem exists_closed_of_run? {P : List (List Char) → σ → Prop} {C : List (List Char) → Prop}
    {s s' : σ} {row : Nat} {done ls : List (List Char)}
    (h : O.run? s (row + done.length) ls = some s') (hs : P done s)
    (hdone : ∀ m line, done[m]? = some line → ⟨row + m, line⟩ ∈ (O.selection s).kept)
    (hend : ¬P (done ++ ls) s')
    (hstep : ∀ done line t t', P done t → O.step? t ⟨row + done.length, line⟩ = some t' →
      ⟨row + done.length, line⟩ ∈ (O.selection t').kept ∧
        (P (done ++ [line]) t' ∨ C (done ++ [line]))) :
    ∃ n, n < (done ++ ls).length ∧ C ((done ++ ls).take (n + 1)) ∧
      ∀ m ≤ n, ∀ line, (done ++ ls)[m]? = some line → ⟨row + m, line⟩ ∈ (O.selection s').kept := by
  induction ls generalizing done s with
  | nil =>
    cases h
    rw [List.append_nil] at hend
    exact absurd hs hend
  | cons line rest ih =>
    obtain ⟨next, hnext, hrest⟩ := run?_cons.mp h
    obtain ⟨hkept, hopen⟩ := hstep done line s next hs hnext
    -- One more line is kept, and those before it stay kept.
    have hlines : ∀ m line', (done ++ [line])[m]? = some line' →
        ⟨row + m, line'⟩ ∈ (O.selection next).kept := by
      intro m line' hline'
      rcases Nat.lt_or_ge m done.length with hm | hm
      · rw [List.getElem?_append_left hm] at hline'
        exact (O.update hnext).kept (hdone m line' hline')
      · rw [List.getElem?_append_right hm, List.getElem?_singleton] at hline'
        split at hline'
        · next hzero =>
          cases hline'
          rwa [Nat.le_antisymm (Nat.le_of_sub_eq_zero hzero) hm]
        · cases hline'
    have happend : done ++ line :: rest = (done ++ [line]) ++ rest := by simp
    rw [happend] at hend ⊢
    -- The run goes on as before, or it is closed behind this line and the rest of it takes nothing back.
    rcases hopen with hopen | hclosed
    · have hlength : row + (done ++ [line]).length = row + done.length + 1 := by simp; omega
      rw [← hlength] at hrest
      exact ih hrest hopen hlines hend
    · have htake : ((done ++ [line]) ++ rest).take (done.length + 1) = done ++ [line] :=
        List.take_left' (by simp)
      refine ⟨done.length, by simp, by rwa [htake], fun m hm line' hline' => ?_⟩
      rw [List.getElem?_append_left (by simp; omega)] at hline'
      exact mem_kept_of_run? hrest (hlines m line' hline')

end Outliner

end RepoScope.Outline
