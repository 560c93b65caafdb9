import RepoScope.Proofs.Import.FromImports

/-!
# References to imported names

The references of a file are those of the matches in its text. A statement that imports names from a module adds to
them what is found on the line of `import` (`mem_references_iff`).

* **`references_complete_iff`**: the references to the module and to all names are found, and the layout of the list
  makes no difference, exactly as far as the pattern finds the list on the line of `import` and the names stand on
  this line.
-/

namespace RepoScope.Import.Python

open Pattern Text

/-! ## References

A statement is read as one match of the pattern, if there is one, and nothing else of it is: no line of it but the
first starts an import statement. So the references of a text before the statement, those of the statement and
those of the text behind it stand side by side, and it is enough to look at the statement alone.
-/

/-- Whether a statement may start behind this text. -/
def StartsLine (before : List Char) : Prop := before = [] ∨ ∃ front, before = front ++ ['\n']

/-- The matches in two texts, of which the second begins a line, are those in each. -/
theorem allMatches_append_of_startsLine {p : Pattern} (hp : p.ReadsLines) {before : List Char}
    (hbefore : StartsLine before) (text : List Char) :
    p.allMatches (before ++ text) = p.allMatches before ++ p.allMatches text := by
  obtain rfl | ⟨front, rfl⟩ := hbefore
  · rfl
  · rw [List.append_assoc, List.singleton_append, hp.allMatches_append_lf, hp.allMatches_append_lf,
      show p.allMatches [] = [] from rfl, List.append_nil]

/-- Each dot but the first leads one directory up. -/
theorem climb_eq (dir : String) (up : Nat) : climb dir (up + 1) = Path.parent^[up] dir := by
  induction up with
  | zero => rfl
  | succ up ih => rw [climb, ih, Function.iterate_succ_apply']

/-- A path below a directory of a directory is one below the outer directory. -/
theorem under_under (dir : String) {sub : String} (hsub : sub ≠ "") (name : String) :
    Path.under (Path.under dir sub) name = Path.under dir (Path.under sub name) := by
  have hne : dir ++ "/" ++ sub ≠ "" := by
    intro h
    have := congrArg String.length h
    simp at this
  by_cases hdir : dir = ""
  · have hroot : ∀ rest, Path.under dir rest = rest := fun rest => if_pos hdir
    rw [hroot, hroot]
  · unfold Path.under
    rw [if_neg hdir, if_neg hdir, if_neg hne, if_neg hsub]
    simp only [String.append_assoc]

namespace FromImport

/-- The reference to the module of these parts, where the statement stands in the file at `path`. -/
def reference (s : FromImport) (path : String) (parts : List Name) : Reference :=
  let sub := Path.join (parts.map (·.part))
  match s.dots with
  | 0 => ⟨[sub, Path.under (Path.parent path) sub]⟩
  | up + 1 => ⟨[Path.under (Path.parent^[up] (Path.parent path)) sub]⟩

/-- The references to the module and to these names below it. -/
def referencesTo (s : FromImport) (path : String) (names : List Name) : List Reference :=
  s.reference path s.parts :: names.map fun n => s.reference path (s.parts ++ [n])

/-- The references that are found. -/
def found (s : FromImport) (path : String) : List Reference :=
  if s.list.opensOnLine then s.referencesTo path s.list.namesOnLine else []

/-- The parts of a dotted name are names of files. -/
theorem isName_parts (parts : List Name) : ∀ n ∈ parts.map (·.part), Path.IsName n := by
  intro n hn
  obtain ⟨m, -, rfl⟩ := List.mem_map.mp hn
  exact m.isName_part

/-- A match is turned into the reference to the module and those to the names. -/
theorem fromReferences_eq (s : FromImport) (path : String) (names : List Name) :
    fromReferences (Path.parent path) s.dots (modulePath (dotted s.parts)) (names.map (·.part))
      = s.referencesTo path names := by
  have hmodule : Path.join (s.parts.map (·.part)) ≠ "" := by
    rw [Ne, Path.join_eq_empty_iff (isName_parts s.parts), List.map_eq_nil_iff]
    exact s.parts_ne_nil
  have hbelow : ∀ n : Name, Path.join ((s.parts ++ [n]).map (·.part))
      = Path.under (Path.join (s.parts.map (·.part))) n.part := by
    intro n
    rw [Path.under_join (isName_parts s.parts), List.map_append, List.map_singleton]
  rw [modulePath_dotted, fromReferences, referencesTo]
  unfold reference
  simp only [hbelow]
  cases s.dots with
  | zero =>
    rw [if_neg (Nat.lt_irrefl 0), if_neg hmodule, List.map_cons, List.map_map, List.map_map]
    refine congrArg (List.cons _) (List.map_congr_left fun n _ => ?_)
    simp only [Function.comp_apply, Path.under, if_neg hmodule]
  | succ up =>
    rw [if_pos (Nat.succ_pos up), if_neg hmodule, if_neg hmodule, climb_eq, List.map_map]
    refine congrArg (List.cons _) (List.map_congr_left fun n _ => ?_)
    rw [Function.comp_apply, under_under _ hmodule]

/-- What a match of the pattern for imports of names says. -/
def readReferences (path : String) : List (List Char) → List Reference
  | [dots, module, names] =>
    fromReferences (Path.parent path) dots.length (modulePath module) (listed names)
  | _ => []

/-- The match at the start of a statement says what is found in it. -/
theorem flatMap_matchAtStart?_text (s : FromImport) (path : String) {after : List Char}
    (hafter : EndsStatement after) :
    (fromStatement.matchAtStart? (s.text ++ after)).toList.flatMap (readReferences path)
      = s.found path := by
  have hmatch := s.matchAtStart?_text hafter
  rw [found]
  split at hmatch
  · next h =>
    obtain ⟨names, hnames, hread⟩ := hmatch
    rw [hnames, Option.toList_some, List.flatMap_singleton, readReferences, List.length_replicate,
      hread, fromReferences_eq, if_pos h]
  · next h => rw [hmatch, if_neg h]; rfl

/-- A statement adds to the references of a text those that are found in it. -/
theorem mem_references_iff (s : FromImport) (path : String) {before after : List Char}
    (hbefore : StartsLine before) (hafter : EndsStatement after) (r : Reference) :
    r ∈ references path (before ++ s.text ++ after) ↔
      r ∈ references path before ∨ r ∈ s.found path ∨ r ∈ references path after := by
  have hquiet := s.quietBelow_text hafter.closes
  have hfrom : fromStatement.allMatches (before ++ s.text ++ after)
      = fromStatement.allMatches before ++ ((fromStatement.matchAtStart? (s.text ++ after)).toList ++
        fromStatement.allMatches after) := by
    rw [List.append_assoc, allMatches_append_of_startsLine readsLines_fromStatement hbefore,
      allMatches_append_of_quietBelow readsLines_fromStatement
        (fun _ h => matchAtStart?_fromStatement_eq_none h.1) hquiet hafter.closes.isQuiet]
  have himport : importStatement.allMatches (before ++ s.text ++ after)
      = importStatement.allMatches before ++ importStatement.allMatches after := by
    rw [List.append_assoc, allMatches_append_of_startsLine readsLines_importStatement hbefore,
      allMatches_append_of_quietBelow readsLines_importStatement
        (fun _ h => matchAtStart?_importStatement_eq_none h.2) hquiet hafter.closes.isQuiet,
      matchAtStart?_importStatement_eq_none (by rw [firstName_text]; decide)]
    rfl
  obtain ⟨readImport, hreferences⟩ : ∃ readImport : List (List Char) → List Reference, ∀ text,
      references path text = (fromStatement.allMatches text).flatMap (readReferences path) ++
        (importStatement.allMatches text).flatMap readImport := ⟨_, fun _ => rfl⟩
  rw [hreferences, hreferences before, hreferences after, hfrom, himport]
  simp only [List.flatMap_append, List.mem_append, s.flatMap_matchAtStart?_text path hafter]
  tauto

/-- Different modules have different references. -/
theorem reference_injective (s : FromImport) (path : String) :
    Function.Injective (s.reference path) := by
  intro parts parts' h
  have hunder : ∀ {dir sub sub' : String}, Path.under dir sub = Path.under dir sub' → sub = sub' := by
    intro dir sub sub' heq
    unfold Path.under at heq
    split at heq
    · exact heq
    · exact String.toList_inj.mp (by simpa using congrArg String.toList heq)
  have hjoin : Path.join (parts.map (·.part)) = Path.join (parts'.map (·.part)) := by
    unfold reference at h
    cases hdots : s.dots with
    | zero =>
      simp only [hdots, Reference.mk.injEq, List.cons.injEq] at h
      exact h.1
    | succ up =>
      simp only [hdots, Reference.mk.injEq, List.cons.injEq] at h
      exact hunder h.1
  have hparts := Path.join_injective (isName_parts parts) (isName_parts parts') hjoin
  exact List.map_injective_iff.mpr Name.part_injective hparts

/-- The module is found exactly if the list is. -/
theorem module_mem_found_iff (s : FromImport) (path : String) :
    s.reference path s.parts ∈ s.found path ↔ s.list.opensOnLine = true := by
  rw [found]
  split
  · next h => simp [referencesTo, h]
  · next h => simp [h]

/-- A name is found exactly if the list is and the name stands on its line. -/
theorem name_mem_found_iff (s : FromImport) (path : String) (n : Name) :
    s.reference path (s.parts ++ [n]) ∈ s.found path ↔
      s.list.opensOnLine = true ∧ n ∈ s.list.namesOnLine := by
  have hmodule : s.reference path (s.parts ++ [n]) ≠ s.reference path s.parts := fun h => by
    simpa using congrArg List.length (s.reference_injective path h)
  have hname : ∀ m, s.reference path (s.parts ++ [m]) = s.reference path (s.parts ++ [n]) ↔ m = n :=
    fun m => by simp [(s.reference_injective path).eq_iff]
  rw [found]
  split
  · next h => simp [referencesTo, hmodule, hname, h]
  · next h => simp [h]

/-- The statement with another list. -/
def withList (s : FromImport) (list : ImportList) : FromImport := { s with list := list }

section

variable (s : FromImport) (path : String)

/-- Alone in a text, a statement gives the references that are found in it. -/
theorem mem_references_alone_iff (r : Reference) :
    r ∈ references path ([] ++ s.text ++ []) ↔ r ∈ s.found path := by
  have hempty : references path [] = [] := rfl
  rw [s.mem_references_iff path (.inl rfl) (by simp [EndsStatement]), hempty]
  simp

/-- All names are found in a statement if and only if its list is found and they stand on the line of `import`. -/
theorem referencesTo_subset_found_iff :
    s.referencesTo path s.list.names ⊆ s.found path ↔
      s.list.opensOnLine = true ∧ ∀ n ∈ s.list.names, n ∈ s.list.namesOnLine := by
  rw [referencesTo, List.cons_subset, s.module_mem_found_iff path]
  refine and_congr_right fun hopens => ?_
  constructor
  · intro h n hn
    exact ((s.name_mem_found_iff path n).mp (h (List.mem_map_of_mem hn))).2
  · intro h r hr
    obtain ⟨n, hn, rfl⟩ := List.mem_map.mp hr
    exact (s.name_mem_found_iff path n).mpr ⟨hopens, h n hn⟩

/-- The same is found with two lists if and only if both are found or not and the same names stand on the line. -/
theorem found_withList_iff (list : ImportList) :
    (∀ r, r ∈ s.found path ↔ r ∈ (s.withList list).found path) ↔
      (s.list.opensOnLine = true ↔ list.opensOnLine = true) ∧
        (s.list.opensOnLine = true → ∀ n, n ∈ s.list.namesOnLine ↔ n ∈ list.namesOnLine) := by
  have hmodule := (s.withList list).module_mem_found_iff path
  have hname := (s.withList list).name_mem_found_iff path
  constructor
  · intro h
    have hopens := (s.module_mem_found_iff path).symm.trans ((h _).trans hmodule)
    refine ⟨hopens, fun hopen n => ?_⟩
    have hn := (s.name_mem_found_iff path n).symm.trans ((h _).trans (hname n))
    exact ⟨fun hmem => (hn.mp ⟨hopen, hmem⟩).2, fun hmem => (hn.mpr ⟨hopens.mp hopen, hmem⟩).2⟩
  · rintro ⟨hopens, hnames⟩ r
    have hlist : (s.withList list).list = list := rfl
    have hreferences : ∀ names, (s.withList list).referencesTo path names = s.referencesTo path names :=
      fun _ => rfl
    rw [found, found, hlist]
    by_cases hopen : s.list.opensOnLine = true
    · rw [if_pos hopen, if_pos (hopens.mp hopen), hreferences, referencesTo, referencesTo]
      simp only [List.mem_cons, List.mem_map, hnames hopen]
    · rw [if_neg hopen, if_neg fun h => hopen (hopens.mpr h)]

/--
A statement that imports names from a module adds to the references of a file that to the module and those to the
names that stand with all that is before them on the line of `import`, if the pattern finds a list on this line, and
nothing otherwise. So the references to the module and to all names are found if and only if the list is found and
all names stand so, and two lists, as two layouts of the same names, make no difference if and only if both are found
or not and the same names stand so.
-/
theorem references_complete_iff :
    (∀ before after, StartsLine before → EndsStatement after → ∀ r,
      r ∈ references path (before ++ s.text ++ after) ↔
        r ∈ references path before ∨ r ∈ s.found path ∨ r ∈ references path after) ∧
    ((∀ before after, StartsLine before → EndsStatement after →
        s.referencesTo path s.list.names ⊆ references path (before ++ s.text ++ after)) ↔
      s.list.opensOnLine = true ∧ ∀ n ∈ s.list.names, n ∈ s.list.namesOnLine) ∧
    ∀ list : ImportList,
      (∀ before after, StartsLine before → EndsStatement after → ∀ r,
        r ∈ references path (before ++ s.text ++ after) ↔
          r ∈ references path (before ++ (s.withList list).text ++ after)) ↔
      (s.list.opensOnLine = true ↔ list.opensOnLine = true) ∧
        (s.list.opensOnLine = true → ∀ n, n ∈ s.list.namesOnLine ↔ n ∈ list.namesOnLine) := by
  have hstart : StartsLine [] := .inl rfl
  have hend : EndsStatement [] := by simp [EndsStatement]
  refine ⟨fun before after hbefore hafter r => s.mem_references_iff path hbefore hafter r, ?_,
    fun list => ?_⟩
  · rw [← s.referencesTo_subset_found_iff path]
    -- That all names are found around every text is asked of the statement alone, with nothing before and
    -- behind it.
    constructor
    · intro h r hr
      exact (s.mem_references_alone_iff path r).mp (h [] [] hstart hend hr)
    · intro h before after hbefore hafter r hr
      exact (s.mem_references_iff path hbefore hafter r).mpr (.inr (.inl (h hr)))
  · rw [← s.found_withList_iff path]
    constructor
    · intro h r
      rw [← s.mem_references_alone_iff path, h [] [] hstart hend, mem_references_alone_iff]
    · intro h before after hbefore hafter r
      rw [s.mem_references_iff path hbefore hafter, h r, mem_references_iff _ path hbefore hafter]

end

/-! ## Two layouts of one list

The same two names, once on the line of `import` and once on lines of their own: nothing of the second statement is
found, not even its module.
-/

def noSpace {enclosed : Bool} : Space enclosed := ⟨[], .nil⟩

def oneBlank {enclosed : Bool} : Space enclosed := ⟨[' '], .blank (by decide) .nil⟩

def lineBreak : Space true := ⟨['\n'], .lineEnd rfl (show ['\n'] ∈ lineEnds by decide) .nil⟩

def indentedBreak : Space true :=
  ⟨['\n', ' ', ' '], .lineEnd rfl (show ['\n'] ∈ lineEnds by decide)
    (.blank (by decide) (.blank (by decide) .nil))⟩

def firstImported : Name := ⟨"one".toList, by decide, List.all_eq_true.mp (by decide), by decide⟩

def secondImported : Name := ⟨"two".toList, by decide, List.all_eq_true.mp (by decide), by decide⟩

/-- An import of two names in parentheses, all on one line. -/
def importOnLine : FromImport where
  indent := []
  isGap_indent := List.all_eq_true.mp rfl
  behindFrom := ⟨[' '], by decide, List.all_eq_true.mp rfl⟩
  dots := 0
  parts := [⟨"pkg".toList, by decide, List.all_eq_true.mp (by decide), by decide⟩]
  parts_ne_nil := List.cons_ne_nil _ _
  beforeImport := ⟨[' '], by decide, List.all_eq_true.mp rfl⟩
  list := .inParens oneBlank ⟨noSpace, firstImported, none, noSpace⟩
    [⟨oneBlank, secondImported, none, noSpace⟩] none noSpace

/-- The same names with a line for each. -/
def listOverLines : ImportList :=
  .inParens oneBlank ⟨indentedBreak, firstImported, none, noSpace⟩
    [⟨indentedBreak, secondImported, none, noSpace⟩] (some lineBreak) noSpace

/-- On one line both names and the module are found. -/
theorem references_complete_sample :
    importOnLine.text = "from pkg import (one, two)".toList ∧
      importOnLine.referencesTo "app/main.py" importOnLine.list.names ⊆
        references "app/main.py" ("import os\n".toList ++ importOnLine.text ++ "\n".toList) := by
  have hafter : EndsStatement "\n".toList := by
    intro c hc
    obtain rfl : '\n' = c := by simpa using hc
    decide
  obtain ⟨-, hcomplete, -⟩ := importOnLine.references_complete_iff "app/main.py"
  exact ⟨by decide,
    hcomplete.mpr ⟨by decide, by decide⟩ _ _ (.inr ⟨"import os".toList, rfl⟩) hafter⟩

/-- Of a list with a line for each name, and of a star, nothing is found, not even the module. -/
theorem exists_layout_missed :
    ∃ (s : FromImport) (overLines star : ImportList) (path : String),
      s.text = "from pkg import (one, two)".toList ∧
      (s.withList overLines).text = "from pkg import (\n  one,\n  two,\n)".toList ∧
      (s.withList star).text = "from pkg import *".toList ∧
      overLines.names = s.list.names ∧
      references path s.text = s.referencesTo path s.list.names ∧
      references path (s.withList overLines).text = [] ∧
      references path (s.withList star).text = [] := by
  refine ⟨importOnLine, listOverLines, .star oneBlank noSpace, "app/main.py", by decide, by decide,
    by decide, rfl, ?_, ?_, ?_⟩
  all_goals decide +kernel

end FromImport

end RepoScope.Import.Python
