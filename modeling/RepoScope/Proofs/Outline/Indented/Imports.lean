import RepoScope.Proofs.Outline.Abridgement
import RepoScope.Proofs.Outline.Groups
import RepoScope.Proofs.Outline.Words

/-!
# Imports of indented languages

An import outside all brackets and literals is shown with its lines up to the bracket that closes it, unless
the outliner takes it for a line of the block of a function (`keepsImports_of_select?`). Until then a line
is kept at outline level because it is an import, and below it because a bracket is open.
-/

namespace RepoScope.Outline.Indented

open Text

/-- The bracket depth behind some brackets, if no bracket closes that was never opened. -/
def depthFrom? (start : Nat) (ms : List Mark) : Option Nat := (ms.map Mark.toBracket).foldlM deepen? start

/-- Whether brackets leave none of them open. -/
def Closes (ms : List Mark) : Prop := depthFrom? 0 ms = some 0

instance : DecidablePred Closes := fun _ => inferInstanceAs (Decidable (_ = _))

/-- Whether a line starts outside all brackets and literals. -/
structure StartsAtTop (lexis : Lexis) (text : List Char) (row : Nat) : Prop where
  depth : Closes (marksFrom lexis .code 0 ((lines text).take row))
  inside : insideAfter lexis .code ((lines text).take row) = .code

/-- Whether a line outside all brackets and literals brings names in from elsewhere. -/
structure ImportsAt (lexis : Lexis) (text : List Char) (row : Nat) (line : List Char) : Prop where
  getElem? : (lines text)[row]? = some line
  top : StartsAtTop lexis text row
  imports : moduleImport.isIn (trim line) = true

/-- Whether a line is taken for one of the block of a function. -/
def State.isInBlock (s : State) (r : Reading) : Bool :=
  match s.mode with
  | .body indent _ => r.isInBody indent
  | _ => false

/-- Whether lines are kept until all brackets are closed. -/
def State.KeepsOn (s : State) : Prop := s.mode = .continuing ∨ ∃ indent isClass, s.mode = .header indent isClass

/-! ## Depths

The outliner counts all three kinds of brackets, and its depth behind a line is what `depthFrom?` makes of the
brackets so far. A run that has read a text has a depth at each line, so the number is there wherever it is needed.
-/

section

variable {lexis : Lexis} {text line : List Char} {row : Nat} {s s' : State} {r : Reading}

/-- Brackets are counted one after the other. -/
theorem depthFrom?_append (start : Nat) (xs ys : List Mark) :
    depthFrom? start (xs ++ ys) = (depthFrom? start xs).bind (depthFrom? · ys) := by
  rw [depthFrom?, List.map_append, List.foldlM_append]
  rfl

/-- The depth behind a line that is read is counted from the depth before it. -/
theorem Reading.depthFrom?_eq {inside : Inside} {start : Nat} {line : Line}
    (h : Reading.of? lexis inside start line = some r) :
    depthFrom? start ((scanLine lexis inside line.text).1.map (Mark.mk · row)) = some r.depth := by
  obtain ⟨depth, hdepth, rfl⟩ := Reading.of?_eq_some h
  rw [depthFrom?, List.map_map]
  simpa [Function.comp_def] using hdepth

/--
Behind a run, the outliner is at the depth that the brackets of the lines lead to, and inside of what their ends
are inside of.
-/
theorem run?_depth {ls : List (List Char)} (h : run? lexis s row ls = some s') :
    depthFrom? s.depth (marksFrom lexis s.inside row ls) = some s'.depth ∧
      s'.inside = insideAfter lexis s.inside ls := by
  induction ls generalizing s row with
  | nil =>
    cases h
    exact ⟨rfl, rfl⟩
  | cons line rest ih =>
    obtain ⟨r, hr, hrest⟩ := run?_cons.mp h
    obtain ⟨hinside, hdepth⟩ := (step_apply s r).inside
    obtain ⟨ihdepth, ihinside⟩ := ih hrest
    rw [hinside, hdepth, Reading.inside_eq hr] at ihdepth
    rw [hinside, Reading.inside_eq hr] at ihinside
    refine ⟨?_, ihinside⟩
    rw [marksFrom, depthFrom?_append, Reading.depthFrom?_eq hr, Option.bind_some]
    exact ihdepth

/-- A line outside all brackets and literals is read so. -/
theorem StartsAtTop.start_eq (h : StartsAtTop lexis text row)
    (hread : readAt? lexis text row = some (s, r)) :
    s.depth = 0 ∧ s.inside = .code ∧ r.start = 0 ∧ r.startsInside = false := by
  obtain ⟨hrun, line, -, hr⟩ := readAt?_eq_some.mp hread
  obtain ⟨hdepth, hinside⟩ := run?_depth hrun
  have hcode : s.inside = .code := hinside.trans h.inside
  have hzero : s.depth = 0 := Option.some.inj (hdepth.symm.trans h.depth)
  refine ⟨hzero, hcode, ?_, ?_⟩
  · rw [Reading.start_eq hr, hzero]
  · rw [Reading.startsInside_eq hr, hcode]
    rfl

/-! ## Lines below an open bracket

The invariant is `State.HasOpen`: a bracket that the lines so far have opened is still open, and the outliner is in
one of the two modes that keep each line until it is closed. A line either keeps the invariant or closes the last
bracket (`Step.hasOpen`).
-/

/-- A line that is kept because of what is open is kept whole, and the next one too if a bracket is open. -/
theorem Step.keepsOn (h : Step s r s') (hs : s.KeepsOn) :
    r.line ∈ s'.selection.kept ∧ (0 < r.depth → s'.KeepsOn) := by
  have hnot : s.isLevel r = false ∧ ∀ indent marked, s.mode ≠ .body indent marked := by
    rcases hs with hmode | ⟨indent, isClass, hmode⟩ <;> simp [State.isLevel, hmode]
  cases h with
  | header hmode _ => exact ⟨List.mem_cons_self, fun _ => .inr ⟨_, _, hmode⟩⟩
  | headerEnd _ hends =>
    have hclosed : r.depth = 0 := by
      simp only [Reading.endsHeader, decide_eq_true_eq] at hends
      exact hends.1
    rw [State.selection_enterBlock]
    exact ⟨List.mem_cons_self, fun hopen => by omega⟩
  | continuing _ => exact ⟨List.mem_cons_self, fun hopen => .inl (if_pos hopen)⟩
  | mark hmode _ _ => exact absurd hmode (hnot.2 _ _)
  | body hmode _ _ => exact absurd hmode (hnot.2 _ _)
  | level hlevel _ => exact absurd hlevel (by simp [hnot.1])

/-- What is open behind some lines that are kept, of which the first has the number `row`. -/
def State.HasOpen (s : State) (lexis : Lexis) (row : Nat) (done : List (List Char)) : Prop :=
  s.KeepsOn ∧ 0 < s.depth ∧ s.inside = insideAfter lexis .code done ∧
    depthFrom? 0 (marksFrom lexis .code row done) = some s.depth

/-- A line below an open bracket is kept, and either a bracket is open below it or all are closed. -/
theorem Step.hasOpen {done : List (List Char)} (h : Step s r s') (hs : s.HasOpen lexis row done)
    (hr : Reading.of? lexis s.inside s.depth ⟨row + done.length, line⟩ = some r) :
    ⟨row + done.length, line⟩ ∈ s'.selection.kept ∧
      (s'.HasOpen lexis row (done ++ [line]) ∨ Closes (marksFrom lexis .code row (done ++ [line]))) := by
  obtain ⟨hon, -, hinside, hdepth⟩ := hs
  obtain ⟨hkept, hstays⟩ := h.keepsOn hon
  obtain ⟨hinside', hdepth'⟩ := h.inside
  have hmarks : depthFrom? 0 (marksFrom lexis .code row (done ++ [line])) = some r.depth := by
    rw [marksFrom_append, marksFrom, marksFrom, List.append_nil, depthFrom?_append, hdepth,
      Option.bind_some, ← hinside]
    exact Reading.depthFrom?_eq hr
  rw [Reading.line_eq hr] at hkept
  refine ⟨hkept, ?_⟩
  rcases Nat.eq_zero_or_pos r.depth with hzero | hpos
  · right
    rw [Closes, hmarks, hzero]
  · refine .inl ⟨hstays hpos, by omega, ?_, by rw [hmarks, hdepth']⟩
    rw [hinside', Reading.inside_eq hr, insideAfter, List.foldl_append, hinside]
    rfl

/-! ## The line

The first line of an import is kept in every mode but that of a body that has begun: at outline level as a
statement that is kept, in the header of a function and in a statement that goes on as any other line.
-/

/-- At outline level, an import is kept because it is one, and with it what goes on below an open bracket. -/
theorem LevelStep.keepsImport (h : LevelStep s r s') (hstart : r.isContinued = false)
    (himport : moduleImport.isIn r.trimmed = true) :
    r.line ∈ s'.selection.kept ∧ (0 < r.depth → s'.KeepsOn) := by
  obtain ⟨c, rest, htrimmed, hc⟩ := exists_letter_of_moduleImport himport
  have hheader : r.isHeader ≠ true := by simp [Reading.isHeader, himport]
  cases h with
  | waiting hin _ => exact absurd hin (by simp [hstart])
  | within hin _ => exact absurd hin (by simp [hstart])
  | blank _ hnil => exact absurd hnil (by simp [htrimmed])
  | decorator _ _ hhead =>
    rw [htrimmed, List.head?_cons, Option.some.injEq, Option.some.injEq] at hhead
    rcases hhead with rfl | rfl <;> exact absurd hc (by decide)
  | statement _ _ => exact ⟨List.mem_cons_self, fun hopen => .inl (if_pos hopen)⟩
  | block _ hheader' _ _ => exact absurd hheader' hheader
  | oneLineClass _ hheader' _ _ _ => exact absurd hheader' hheader
  | oneLineDef _ hheader' _ _ _ => exact absurd hheader' hheader
  | header _ hheader' _ _ => exact absurd hheader' hheader
  | noColon _ hheader' _ _ => exact absurd hheader' hheader
  | other _ _ hkept => simp [State.keepsStatement, himport] at hkept

/-- Outside the blocks of functions, an import is kept whatever the outliner is doing. -/
theorem Step.keepsImport (h : Step s r s') (hstart : r.isContinued = false)
    (himport : moduleImport.isIn r.trimmed = true) (hblock : s.isInBlock r = false) :
    r.line ∈ s'.selection.kept ∧ (0 < r.depth → s'.KeepsOn) := by
  rw [State.isInBlock] at hblock
  cases hmode : s.mode with
  | outline => exact (h.levelStep (by rw [State.isLevel, hmode])).keepsImport hstart himport
  | header indent isClass => exact h.keepsOn (.inr ⟨indent, isClass, hmode⟩)
  | continuing => exact h.keepsOn (.inl hmode)
  | body indent marked =>
    rw [hmode] at hblock
    have hlevel : s.isLevel r = true := by simpa [State.isLevel, hmode] using hblock
    exact (h.levelStep hlevel).keepsImport hstart himport

/-! ## The outline

What is left is to put the first line and those below it together. If the first line leaves nothing open it is the
whole import; else `Outliner.exists_closed_of_run?` finds the line that closes it, since a run that may end has no
bracket open.
-/

/-- Whether an outline shows each import outside brackets, literals and blocks up to the line that closes it. -/
def KeepsImports (lexis : Lexis) (text : List Char) (selection : Selection) : Prop :=
  ∀ row line, ImportsAt lexis text row line →
    ∃ s r, readAt? lexis text row = some (s, r) ∧ r.line = ⟨row, line⟩ ∧
      (s.isInBlock r = false → selection.ShowsGroup Closes lexis text row)

/--
In a run that may end, a line that is kept outside all brackets is followed by the line that closes what it opens,
and all lines up to that one are kept.
-/
theorem exists_close_of_imports (hread : readAt? lexis text row = some (s, r))
    (hrun : run? lexis .initial 0 (lines text) = some s') (hclosed : s'.isClosed = true)
    (htop : StartsAtTop lexis text row) (hkept : r.line ∈ (s.apply r).selection.kept)
    (hon : 0 < r.depth → (s.apply r).KeepsOn) :
    ∃ n, n < ((lines text).drop row).length ∧
      Closes (marksFrom lexis .code row (((lines text).drop row).take (n + 1))) ∧
      ∀ m ≤ n, ∀ line, ((lines text).drop row)[m]? = some line →
        ⟨row + m, line⟩ ∈ s'.selection.kept := by
  obtain ⟨hdepth, hinside, -, -⟩ := htop.start_eq hread
  obtain ⟨-, hdrop⟩ := run?_of_readAt? hread hrun
  obtain ⟨-, line, hline, hof⟩ := readAt?_eq_some.mp hread
  obtain ⟨hlength, rfl⟩ := List.getElem?_eq_some_iff.mp hline
  have hmarks : depthFrom? 0 (marksFrom lexis .code row [(lines text)[row]]) = some r.depth := by
    rw [marksFrom, marksFrom, List.append_nil, ← hinside, ← hdepth]
    exact Reading.depthFrom?_eq hof
  rw [Reading.line_eq hof] at hkept
  rw [List.drop_eq_getElem_cons hlength, ← List.singleton_append]
  -- The statement ends on its first line, or the outliner keeps lines until all brackets are closed.
  rcases Nat.eq_zero_or_pos r.depth with hzero | hpos
  · have hfirst : ([(lines text)[row]] ++ (lines text).drop (row + 1)).take (0 + 1) =
        [(lines text)[row]] := rfl
    refine ⟨0, Nat.succ_pos _, by rw [Closes, hfirst, hmarks, hzero], fun m hm line hget => ?_⟩
    cases Nat.le_zero.mp hm
    cases hget
    exact Outliner.mem_kept_of_run? (O := outliner lexis) hdrop hkept
  · obtain ⟨hinside', hdepth'⟩ := (step_apply s r).inside
    -- The invariant of the lines to come: brackets are open, and what has been read so far is kept.
    have hopen : (s.apply r).HasOpen lexis row [(lines text)[row]] := by
      refine ⟨hon hpos, by omega, ?_, by rw [hmarks, hdepth']⟩
      rw [hinside', Reading.inside_eq hof, hinside]
      rfl
    refine Outliner.exists_closed_of_run? (O := outliner lexis)
      (P := fun done t => t.HasOpen lexis row done)
      (C := fun done => Closes (marksFrom lexis .code row done)) hdrop hopen ?_ ?_ ?_
    · intro m line hget
      rw [List.getElem?_singleton] at hget
      split at hget
      · next hm =>
        cases hget
        subst hm
        exact hkept
      · cases hget
    · rintro ⟨-, hpos', -⟩
      simp only [State.isClosed, Bool.and_eq_true, beq_iff_eq] at hclosed
      omega
    · intro done line t t' ht ht'
      obtain ⟨q, hq, rfl⟩ := step?_eq_some.mp ht'
      exact (step_apply t q).hasOpen ht hq

/-- The outline of an indented text shows its imports as `KeepsImports` says. -/
theorem keepsImports_of_select? {selection : Selection} (h : select? lexis text = some selection) :
    KeepsImports lexis text selection := by
  obtain ⟨final, hrun, hclosed, rfl⟩ := select?_eq_some.mp h
  intro row line himports
  obtain ⟨hlength, -⟩ := List.getElem?_eq_some_iff.mp himports.getElem?
  obtain ⟨s, r, hread⟩ := exists_readAt? hrun hlength
  have hline := line_eq_of_readAt? hread himports.getElem?
  obtain ⟨-, -, hstart, hin⟩ := himports.top.start_eq hread
  have himport : moduleImport.isIn r.trimmed = true := by
    rw [trimmed_of_readAt? hread, hline]
    exact himports.imports
  have hblank : isBlankText line = false := by
    obtain ⟨c, rest, htrim, -⟩ := exists_letter_of_moduleImport himports.imports
    exact isBlankText_eq_false_iff.mpr (by simp [htrim])
  refine ⟨s, r, hread, hline, fun hblock => ?_⟩
  obtain ⟨hkept, hon⟩ := (step_apply s r).keepsImport (by simp [Reading.isContinued, hstart, hin])
    himport hblock
  obtain ⟨n, hn, hcloses, hlines⟩ :=
    exists_close_of_imports hread hrun hclosed himports.top hkept hon
  have hselect : Outline.select? (.indented lexis) text = some final.selection := h
  exact Selection.showsGroup_of_kept (abridged_of_select? hselect).1 himports.getElem? hblank hn
    hcloses hlines

end

end RepoScope.Outline.Indented
