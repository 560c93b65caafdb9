import RepoScope.Focus
import RepoScope.Proofs.Components
import RepoScope.Proofs.Words

/-!
# Test files and legacy files

A target is taken for a test file when a marker stands anywhere in its path, whatever is around it and in whatever case
(`GuardRail.isTestTarget_iff`). The focus on tests asks for whole names of directories, and for parts of the name of the
file between dots and underscores (`Focus.isTestPath_iff`). So the second implies the first, and the two agree about a
path if and only if its markers, if it has any, come with such a shape (`GuardRail.testProhibition_agrees_iff`). A word
such as `latest` is enough to set them apart (`GuardRail.exists_test_disagreement`).

A target is taken for a legacy file when one of its words, between separators and humps, is a marker as a whole
(`GuardRail.pathWords_exact`).
-/

namespace RepoScope

/-! ## Shapes of test paths

The focus on tests looks at whole names of directories, and in the name of the file at what stands between dots and
underscores.
-/

namespace Text

theorem infix_of_mem_pieces {sep : Char} {cs piece : List Char} (h : piece ∈ pieces sep cs) : piece <:+: cs := by
  have hjoined : ∀ parts : List (List Char), piece ∈ parts → piece <:+: List.intercalate [sep] parts := by
    intro parts hmem
    induction parts with
    | nil => cases hmem
    | cons part rest ih =>
      cases rest with
      | nil =>
        rw [List.mem_singleton.mp hmem, List.intercalate_singleton]
      | cons next rest =>
        rw [List.intercalate_cons_cons]
        rcases List.mem_cons.mp hmem with rfl | hmem
        · rw [List.append_assoc]
          exact (List.prefix_append _ _).isInfix
        · exact (ih hmem).trans (List.suffix_append _ _).isInfix
  have hcs := hjoined (pieces sep cs) h
  rwa [intercalate_pieces] at hcs

end Text

theorem Path.infix_of_mem_pieces {path piece : String} (h : piece ∈ Path.pieces path) :
    piece.toList <:+: path.toList := by
  obtain ⟨cs, hcs, rfl⟩ := List.mem_map.mp h
  rw [String.toList_ofList]
  exact Text.infix_of_mem_pieces hcs

/-- The last piece of a path is its last component. -/
theorem Path.baseName_of_pieces {path name : String} {dirs : List String} (h : Path.pieces path = dirs ++ [name]) :
    Path.baseName path = name := by
  have hslash : '/' ∉ name.toList := by
    have hmem : name ∈ Path.pieces path := by
      rw [h]
      exact List.mem_append_right _ List.mem_cons_self
    exact Path.slash_notMem_of_mem_pieces hmem
  have hpath : path = Path.join (dirs ++ [name]) := by rw [← h, Path.join_pieces]
  by_cases hdirs : dirs = []
  · rw [hdirs, List.nil_append, Path.join_singleton] at hpath
    rw [hpath, Path.baseName_of_notMem hslash]
  · rw [Path.join_append hdirs (List.cons_ne_nil _ _), Path.join_singleton] at hpath
    rw [hpath, Path.baseName_append, Path.baseName_of_notMem hslash]

namespace Focus

open Text

/-- The names of directories of tests. -/
def testDirs : List String := ["test", "tests", "spec", "__tests__", "e2e"]

/-- What names of test files have in them behind their start. -/
def testInfixes : List String := ["_test.", ".test.", ".spec."]

/-- Whether a directory above a path or the name of its file has one of the shapes that tests have. -/
def HasTestShape (path : String) : Prop :=
  ∃ dirs name, Path.pieces path = dirs ++ [name] ∧
    ((∃ dir ∈ dirs, dir ∈ testDirs) ∨ "test_".toList <+: name.toList ∨
      ∃ part ∈ testInfixes, part.toList <:+: name.toList)

/-- The focus on tests is on the paths of these shapes. -/
theorem isTestPath_iff {path : String} : isTestPath path = true ↔ HasTestShape path := by
  obtain ⟨dirs, name, hpieces⟩ : ∃ dirs name, Path.pieces path = dirs ++ [name] :=
    ⟨_, _, (List.dropLast_concat_getLast (Path.pieces_ne_nil path)).symm⟩
  have hdirs : dirsAbove path = dirs := by
    unfold dirsAbove
    rw [hpieces, List.dropLast_concat]
  -- A path has one last piece, so the shape can be said with it.
  have hshape : HasTestShape path ↔ (∃ dir ∈ dirs, dir ∈ testDirs) ∨ "test_".toList <+: name.toList ∨
      ∃ part ∈ testInfixes, part.toList <:+: name.toList := by
    constructor
    · rintro ⟨dirs', name', hpieces', h⟩
      obtain ⟨rfl, hname⟩ := List.append_inj' (hpieces.symm.trans hpieces') rfl
      cases hname
      exact h
    · exact fun h => ⟨dirs, name, hpieces, h⟩
  have hinside : (∃ part ∈ testInfixes, part.toList <:+: name.toList) ↔
      "_test.".toList <:+: name.toList ∨ ".test.".toList <:+: name.toList ∨ ".spec.".toList <:+: name.toList := by
    simp only [testInfixes, List.mem_cons, List.not_mem_nil, or_false, exists_eq_or_imp, exists_eq_left]
  rw [hshape, hinside]
  unfold isTestPath
  rw [hdirs, Path.baseName_of_pieces hpieces, Bool.or_eq_true, Bool.or_eq_true, Bool.or_eq_true, Bool.or_eq_true,
    containsBlock_iff, containsBlock_iff, containsBlock_iff, startsWith, List.isPrefixOf_iff_prefix,
    List.any_eq_true, or_comm, or_assoc, or_assoc]
  simp only [List.contains_iff_mem]
  rfl

end Focus

namespace GuardRail

open Text

/-! ## What is prohibited

A target is asked two questions, and each answer is one sentence. The sentences differ from all that is said about
a function, so whether one is there depends on its own question.
-/

/-- What is said about a target that looks like a test file. -/
def testProhibition : String := "Test file: Do NOT change the testing library or framework"

/-- What is said about a target that looks like a legacy file. -/
def legacyProhibition : String := "Legacy file: Do NOT refactor names or restructure existing code"

theorem prohibitions_eq (target : String) (function : Option String) :
    prohibitions (some target) function =
      (if isTestTarget target = true then [testProhibition] else []) ++
      (if isLegacyTarget target = true then [legacyProhibition] else []) ++
      function.toList.map fun name =>
        "Scope: ONLY modify the \x60" ++ name ++ "\x60 function. Leave the rest unchanged" := rfl

/-- What is prohibited, apart from what is said about a function. -/
theorem mem_prohibitions_iff {target line : String} {function : Option String} (hline : line.toList.head? ≠ some 'S') :
    line ∈ prohibitions (some target) function ↔
      isTestTarget target = true ∧ line = testProhibition ∨ isLegacyTarget target = true ∧ line = legacyProhibition := by
  have hfile : ∀ (p : Prop) [Decidable p] (text : String), line ∈ (if p then [text] else []) ↔ p ∧ line = text := by
    intro p _ text
    by_cases hp : p
    · rw [if_pos hp, List.mem_singleton]
      exact ⟨fun h => ⟨hp, h⟩, And.right⟩
    · rw [if_neg hp]
      exact ⟨fun h => absurd h List.not_mem_nil, fun h => absurd h.1 hp⟩
  have hfunction : ¬line ∈ function.toList.map fun name =>
      "Scope: ONLY modify the \x60" ++ name ++ "\x60 function. Leave the rest unchanged" := by
    intro h
    obtain ⟨name, -, rfl⟩ := List.mem_map.mp h
    rw [String.toList_append, String.toList_append] at hline
    exact hline rfl
  rw [prohibitions_eq, List.mem_append, List.mem_append, hfile, hfile, or_iff_left hfunction]

theorem testProhibition_mem_iff {target : String} {function : Option String} :
    testProhibition ∈ prohibitions (some target) function ↔ isTestTarget target = true := by
  have hne : testProhibition ≠ legacyProhibition := by decide
  rw [mem_prohibitions_iff (by decide)]
  constructor
  · rintro (⟨htest, -⟩ | ⟨-, heq⟩)
    · exact htest
    · exact absurd heq hne
  · exact fun htest => .inl ⟨htest, rfl⟩

theorem legacyProhibition_mem_iff {target : String} {function : Option String} :
    legacyProhibition ∈ prohibitions (some target) function ↔ isLegacyTarget target = true := by
  have hne : legacyProhibition ≠ testProhibition := by decide
  rw [mem_prohibitions_iff (by decide)]
  constructor
  · rintro (⟨-, heq⟩ | ⟨hlegacy, -⟩)
    · exact absurd heq hne
    · exact hlegacy
  · exact fun hlegacy => .inr ⟨hlegacy, rfl⟩

/-! ## Markers of test files

A marker may stand anywhere, within a longer word too, and in any case. The search looks at the path with its
backslashes turned into slashes, of which there are none in the markers.
-/

/-- The words that mark a test file. The one between underscores has the first of these in it. -/
def testWords : List String := ["test", "spec", "e2e"]

/-- Whether a marker stands somewhere in the path, in upper or lower case. -/
def IsMarked (target : String) : Prop :=
  ∃ word ∈ testWords, ∃ part, part <:+: target.toList ∧ lowerAscii part = word.toList

/-- Slashes in place of backslashes make no word that is not there, and take none away. -/
theorem infix_lowerCase_replaceChar_iff {word cs : List Char} (hne : word ≠ [])
    (hword : ∀ d ∈ word, IsOfAscii d ∧ d ≠ '/' ∧ d ≠ '\\') :
    word <:+: lowerCase (replaceChar '\\' '/' cs) ↔ ∃ part, part <:+: cs ∧ lowerAscii part = word := by
  rw [infix_lowerCase_iff hne fun d hd => (hword d hd).1]
  have hslash : ('/' : Char).toLower = '/' := by decide
  have hback : ('\\' : Char).toLower = '\\' := by decide
  -- A part that has the word as its form has no backslash, neither before nor after these are replaced.
  have hkeep : ∀ part : List Char, lowerAscii (replaceChar '\\' '/' part) = word ∨ lowerAscii part = word →
      replaceChar '\\' '/' part = part := by
    intro part hpart
    unfold replaceChar at hpart ⊢
    conv_rhs => rw [← List.map_id part]
    refine List.map_congr_left fun c hc => ?_
    split
    · next heq =>
      subst heq
      rcases hpart with rfl | rfl
      · have hmem : '/' ∈ lowerAscii (part.map fun c => if c = '\\' then '/' else c) :=
          List.mem_map.mpr ⟨'/', List.mem_map.mpr ⟨'\\', hc, rfl⟩, hslash⟩
        exact absurd rfl (hword _ hmem).2.1
      · have hmem : '\\' ∈ lowerAscii part := List.mem_map.mpr ⟨'\\', hc, hback⟩
        exact absurd rfl (hword _ hmem).2.2
    · rfl
  constructor
  · rintro ⟨part, ⟨before, behind, heq⟩, hform⟩
    obtain ⟨front, back, rfl, hfront, -⟩ := List.map_eq_append_iff.mp heq.symm
    obtain ⟨before', part', rfl, -, hpart⟩ := List.map_eq_append_iff.mp hfront
    subst hpart
    refine ⟨part', ⟨before', back, rfl⟩, ?_⟩
    have hsame := hkeep part' (.inl hform)
    unfold replaceChar at hsame
    rw [hsame] at hform
    exact hform
  · rintro ⟨part, ⟨before, behind, rfl⟩, hform⟩
    refine ⟨part, ⟨replaceChar '\\' '/' before, replaceChar '\\' '/' behind, ?_⟩, hform⟩
    have hsame := hkeep part (.inr hform)
    conv_lhs => rw [← hsame]
    unfold replaceChar
    rw [List.map_append, List.map_append]

/-- A target is taken for a test file if a marker stands in it. -/
theorem isTestTarget_iff {target : String} : isTestTarget target = true ↔ IsMarked target := by
  have hwords : ∀ word ∈ testWords, word.toList ≠ [] ∧ ∀ d ∈ word.toList, IsOfAscii d ∧ d ≠ '/' ∧ d ≠ '\\' := by
    have hall : ∀ word ∈ testWords, word.toList ≠ [] ∧
        word.toList.all (fun d => IsOfAscii d ∧ d ≠ '/' ∧ d ≠ '\\') = true := by
      decide
    exact fun word hword => (hall word hword).imp_right fun h d hd => of_decide_eq_true (List.all_eq_true.mp h d hd)
  have hmarkers : ∀ marker ∈ testMarkers, ∃ word ∈ testWords, word.toList <:+: marker.toList := by
    decide
  unfold isTestTarget IsMarked
  rw [List.any_eq_true]
  constructor
  · rintro ⟨marker, hmarker, h⟩
    obtain ⟨word, hword, hwithin⟩ := hmarkers marker hmarker
    obtain ⟨hne, hletters⟩ := hwords word hword
    exact ⟨word, hword, (infix_lowerCase_replaceChar_iff hne hletters).mp (hwithin.trans (containsBlock_iff.mp h))⟩
  · rintro ⟨word, hword, h⟩
    obtain ⟨hne, hletters⟩ := hwords word hword
    have hsub : ∀ word ∈ testWords, word ∈ testMarkers := by decide
    exact ⟨word, hsub word hword, containsBlock_iff.mpr ((infix_lowerCase_replaceChar_iff hne hletters).mpr h)⟩

/-- Every shape of a test path has a marker in it. -/
theorem isMarked_of_hasTestShape {path : String} (h : Focus.HasTestShape path) : IsMarked path := by
  obtain ⟨dirs, name, hpieces, hshape⟩ := h
  have hname : name.toList <:+: path.toList := by
    refine Path.infix_of_mem_pieces ?_
    rw [hpieces]
    exact List.mem_append_right _ List.mem_cons_self
  have hdir : ∀ dir ∈ dirs, dir.toList <:+: path.toList := by
    intro dir hdir
    refine Path.infix_of_mem_pieces ?_
    rw [hpieces]
    exact List.mem_append_left _ hdir
  -- A part with a marker in it is enough: the markers are written in lower case.
  have hmarked : ∀ part : List Char, part <:+: path.toList →
      (∃ word ∈ testWords, word.toList <:+: part) → IsMarked path := by
    rintro part hpart ⟨word, hword, hwithin⟩
    have hlower : ∀ word ∈ testWords, lowerAscii word.toList = word.toList := by decide
    exact ⟨word, hword, word.toList, hwithin.trans hpart, hlower word hword⟩
  rcases hshape with ⟨dir, hmem, htest⟩ | hstarts | ⟨part, hpart, hwithin⟩
  · have hwords : ∀ dir ∈ Focus.testDirs, ∃ word ∈ testWords, word.toList <:+: dir.toList := by decide
    exact hmarked _ (hdir dir hmem) (hwords dir htest)
  · exact hmarked _ (hstarts.isInfix.trans hname) ⟨"test", by decide, by decide⟩
  · have hwords : ∀ part ∈ Focus.testInfixes, ∃ word ∈ testWords, word.toList <:+: part.toList := by decide
    exact hmarked _ (hwithin.trans hname) (hwords part hpart)

/-- The prohibition for test files stands wherever the focus on tests looks, and it stands nowhere else if and only if
the markers of the path come with a shape of tests. -/
theorem testProhibition_agrees_iff (target : String) (function : Option String) :
    (Focus.tests.isMatch target = true → testProhibition ∈ prohibitions (some target) function) ∧
    ((testProhibition ∈ prohibitions (some target) function ↔ Focus.tests.isMatch target = true) ↔
      (IsMarked target → Focus.HasTestShape target)) := by
  have hfocus : Focus.tests.isMatch target = true ↔ Focus.HasTestShape target := Focus.isTestPath_iff
  rw [testProhibition_mem_iff, isTestTarget_iff, hfocus]
  refine ⟨isMarked_of_hasTestShape, ?_⟩
  constructor
  · exact Iff.mp
  · exact fun h => ⟨h, isMarked_of_hasTestShape⟩

theorem testProhibition_agrees_sample :
    testProhibition ∈ prohibitions (some "src/app.test.ts") (some "run") ∧
    (testProhibition ∈ prohibitions (some "src/util.ts") none ↔ Focus.tests.isMatch "src/util.ts" = true) ∧
    ¬(testProhibition ∈ prohibitions (some "src/latest.ts") none ↔ Focus.tests.isMatch "src/latest.ts" = true) := by
  refine ⟨(testProhibition_agrees_iff "src/app.test.ts" (some "run")).1 (by decide +kernel), ?_, ?_⟩
  · refine (testProhibition_agrees_iff "src/util.ts" none).2.mpr fun hmarked => ?_
    exact absurd (isTestTarget_iff.mpr hmarked) (by decide +kernel)
  · refine mt (testProhibition_agrees_iff "src/latest.ts" none).2.mp fun h => ?_
    have hmarked : IsMarked "src/latest.ts" := isTestTarget_iff.mp (by decide +kernel)
    exact absurd (Focus.isTestPath_iff.mpr (h hmarked)) (by decide +kernel)

/-- A marker inside a longer word of a path makes it a test file, where the focus on tests does not look. -/
theorem exists_test_disagreement :
    testProhibition ∈ prohibitions (some "src/latest.ts") none ∧ Focus.tests.isMatch "src/latest.ts" = false ∧
    ∀ word ∈ pathWords "src/latest.ts".toList, String.ofList word ∉ testMarkers := by
  decide +kernel

/-! ## Words of legacy files

The words of a path are those of `GuardRail.words` in lower case; their laws are put together here.
-/

/-- The words of a path have its letters and digits in their order, in lower case, and they end where a hump lies
between two of these or something else stands there. A path with a marker among them is that of a legacy file. -/
theorem pathWords_exact (target : String) (function : Option String) :
    (pathWords target.toList).flatten = lowerCase (target.toList.filter isAlphanumeric) ∧
    (∀ word ∈ pathWords target.toList, word ≠ []) ∧
    (∀ front a b back, target.toList = front ++ a :: b :: back → isAlphanumeric a = true → isAlphanumeric b = true →
      (Divides (front ++ [a]) (pathWords target.toList) ↔
        isUpper b = true ∧ (isLower a = true ∨ a.isDigit = true))) ∧
    (legacyProhibition ∈ prohibitions (some target) function ↔
      ∃ before word behind, target.toList = before ++ word ++ behind ∧ IsWord before word behind ∧
        String.ofList (lowerCase word) ∈ legacyMarkers) := by
  refine ⟨?_, ?_, ?_, ?_⟩
  · rw [pathWords_eq, ← lowerCase_flatten, flatten_words]
  · intro word hword
    rw [pathWords_eq] at hword
    obtain ⟨plain, hplain, rfl⟩ := List.mem_map.mp hword
    exact mt lowerCase_eq_nil_iff.mp (ne_nil_of_mem_words hplain)
  · intro front a b back htarget ha hb
    have hsplit : target.toList = (front ++ [a]) ++ b :: back := by rw [htarget, List.append_assoc]; rfl
    rw [hsplit, divides_iff_isCut, isCut_concat_cons]
    unfold isHump
    rw [Bool.and_eq_true, Bool.or_eq_true]
    exact ⟨fun h => h ha hb, fun h _ _ => h⟩
  · rw [legacyProhibition_mem_iff]
    unfold isLegacyTarget
    rw [List.any_eq_true, pathWords_eq]
    constructor
    · rintro ⟨_, hform, hmarker⟩
      obtain ⟨word, hword, rfl⟩ := List.mem_map.mp hform
      obtain ⟨before, behind, htarget, hstretch⟩ := mem_words_iff.mp hword
      exact ⟨before, word, behind, htarget, hstretch, List.contains_iff_mem.mp hmarker⟩
    · rintro ⟨before, word, behind, htarget, hstretch, hmarker⟩
      have hword := mem_words_iff.mpr ⟨before, behind, htarget, hstretch⟩
      exact ⟨lowerCase word, List.mem_map.mpr ⟨word, hword, rfl⟩, List.contains_iff_mem.mpr hmarker⟩

theorem pathWords_exact_sample :
    Divides "lib/old".toList (pathWords "lib/oldApi2X.ts".toList) ∧
    ¬Divides "lib/oldAp".toList (pathWords "lib/oldApi2X.ts".toList) ∧
    legacyProhibition ∈ prohibitions (some "lib/oldApi2X.ts") none := by
  obtain ⟨-, -, hcuts, hlegacy⟩ := pathWords_exact "lib/oldApi2X.ts" none
  have hends : IsCut ("ol".toList ++ ['d']) ('A' :: "pi2X.ts".toList) := isCut_concat_cons.mpr (by decide +kernel)
  refine ⟨?_, ?_, ?_⟩
  · exact (hcuts "lib/ol".toList 'd' 'A' "pi2X.ts".toList rfl (by decide +kernel) (by decide +kernel)).mpr
      (by decide +kernel)
  · exact mt (hcuts "lib/oldA".toList 'p' 'i' "2X.ts".toList rfl (by decide +kernel) (by decide +kernel)).mp
      (by decide +kernel)
  · refine hlegacy.mpr ⟨"lib/".toList, "old".toList, "Api2X.ts".toList, rfl, ⟨?_, ?_, ?_, ?_, ?_⟩, ?_⟩
    · decide
    · exact List.all_eq_true.mp (by decide +kernel)
    · decide +kernel
    · exact isCut_singleton_of_separator (c := '/') (by decide +kernel) _
    · exact hends
    · decide +kernel

end GuardRail

end RepoScope
