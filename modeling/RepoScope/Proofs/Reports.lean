import Mathlib.Data.Finset.Max
import RepoScope.Proofs.Lines
import RepoScope.Proofs.Location
import RepoScope.Proofs.Resolution
import RepoScope.Proofs.Run

/-!
# Reports of changes

The version control program lists paths one to a line. A path of printable ASCII characters without quotes and
backslashes stands there as it is (`Changes.isPlain`); any other path stands between quotes, with escapes for all bytes
that are not plain (`Changes.quoted`). When a line is read it is not unquoted, and it loses the blanks at its ends, so
what is read is the path that was listed only where none of this applies (`Changes.read?_eq_self_iff`). No other
path makes up for one that is lost: what is read from a quoted path is longer than the path and would itself be quoted
(`Changes.mem_filterMap_read?_iff`).

* **`Context.reports_keepNames_iff`**: what is read from a listing are the paths that were listed if and only if each of
  them keeps its name, and then a run selects just the candidates that are reported.
* **`Context.exists_report_lost`**: a file whose name has an accent is reported as changed and not selected.
-/

namespace RepoScope

namespace Text

/-! ## ASCII text

A listing is bytes, and what is written there is of the ASCII range even where the path is not. So writing it to
bytes and reading it again is the identity, without a look at the encoding of other characters.
-/

theorem encode_of_ascii {cs : List Char} (h : ∀ c ∈ cs, c.toNat < 0x80) :
    encode cs = cs.map fun c => UInt8.ofNat c.toNat := by
  induction cs with
  | nil => rfl
  | cons c cs ih =>
    obtain ⟨hc, hcs⟩ := List.forall_mem_cons.mp h
    have hone : String.utf8EncodeChar c = [UInt8.ofNat c.toNat] := by
      unfold String.utf8EncodeChar
      exact if_pos (Nat.le_of_lt_succ hc)
    rw [encode_cons, hone, ih hcs]
    rfl

/-- A byte of the ASCII range is a character on its own. -/
theorem utf8Block_ascii {c : Char} (h : c.toNat < 0x80) (rest : Bytes) :
    utf8Block (UInt8.ofNat c.toNat) rest = ⟨some c, 0⟩ := by
  have hbyte : (UInt8.ofNat c.toNat).toNat = c.toNat := by
    rw [UInt8.toNat_ofNat']
    exact Nat.mod_eq_of_lt (Nat.lt_trans h (by decide))
  have hlow : UInt8.ofNat c.toNat < 0x80 := by
    rw [UInt8.lt_iff_toNat_lt, hbyte]
    exact h
  rw [utf8Block, followers?, if_pos hlow]
  simp [utf8Tail, leadBits, hlow, hbyte]

/-- Reading gives back a text of ASCII characters. -/
theorem decodeLossy_encode_of_ascii {cs : List Char} (h : ∀ c ∈ cs, c.toNat < 0x80) :
    decodeLossy (encode cs) = cs := by
  have hfrom : ∀ done, decodeFrom done (encode cs) = done.reverse ++ cs.map some := by
    rw [encode_of_ascii h]
    induction cs with
    | nil => simp [decodeFrom]
    | cons c cs ih =>
      intro done
      obtain ⟨hc, hcs⟩ := List.forall_mem_cons.mp h
      rw [List.map_cons, decodeFrom, utf8Block_ascii hc, List.drop_zero, ih hcs]
      simp
  rw [decodeLossy, hfrom]
  simp [Function.comp_def]

end Text

namespace Changes

open Text

/-! ## How paths are listed

This is the format of the program that lists the paths, with its own escapes: a path with any character that is not
plain is written between quotes, byte by byte.
-/

/-- Whether a character is printable and of the ASCII range. -/
def isPrintable (c : Char) : Bool := ' ' ≤ c && c ≤ '~'

/-- Whether a character can stand in a listed path as it is. -/
def isPlain (c : Char) : Bool := isPrintable c && c ≠ '"' && c ≠ '\\'

/-- The bytes that have a letter of their own behind a backslash. -/
def escapeLetters : List (UInt8 × Char) :=
  [(7, 'a'), (8, 'b'), (9, 't'), (10, 'n'), (11, 'v'), (12, 'f'), (13, 'r'), (34, '"'), (92, '\\')]

/-- A byte of a quoted path. -/
def escapeByte (b : UInt8) : List Char :=
  let c := Char.ofNat b.toNat
  if isPlain c then [c]
  else match escapeLetters.lookup b with
    | some letter => ['\\', letter]
    | none => '\\' :: [b.toNat / 64, b.toNat / 8 % 8, b.toNat % 8].map Nat.digitChar

/-- A path between quotes, byte by byte. -/
def quoted (path : String) : List Char :=
  '"' :: (encode path.toList).flatMap escapeByte ++ ['"']

/-- A path as it is listed. -/
def written (path : String) : List Char :=
  if path.toList.all isPlain then path.toList else quoted path

/-- The listing of some paths, one to a line. -/
def listing (paths : List String) : List Char :=
  paths.flatMap fun path => written path ++ ['\n']

theorem isPrintable_iff {c : Char} : isPrintable c = true ↔ 32 ≤ c.toNat ∧ c.toNat ≤ 126 := by
  rw [isPrintable, Bool.and_eq_true, decide_eq_true_eq, decide_eq_true_eq]
  exact Iff.rfl

theorem isPrintable_of_isPlain {c : Char} (h : isPlain c = true) : isPrintable c = true := by
  rw [isPlain, Bool.and_eq_true, Bool.and_eq_true] at h
  exact h.1.1

/-- The only printable blank is the space. -/
theorem isBlank_iff_of_isPrintable {c : Char} (h : isPrintable c = true) : isBlank c = true ↔ c = ' ' := by
  obtain ⟨hlow, hhigh⟩ := isPrintable_iff.mp h
  constructor
  · intro hblank
    have hspace : c.toNat = 32 := by
      simp only [isBlank, Bool.or_eq_true, Bool.and_eq_true, decide_eq_true_eq, beq_iff_eq] at hblank
      omega
    rw [← Char.ofNat_toNat c, hspace]
  · rintro rfl
    rfl

theorem escapeByte_ne_nil (b : UInt8) : escapeByte b ≠ [] := by
  unfold escapeByte
  dsimp only
  split
  · exact List.cons_ne_nil _ _
  · split <;> exact List.cons_ne_nil _ _

theorem isPrintable_of_mem_escapeByte {b : UInt8} {c : Char} (h : c ∈ escapeByte b) : isPrintable c = true := by
  have hletter : ∀ entry ∈ escapeLetters, isPrintable entry.2 = true := by decide
  have hdigit : ∀ n < 8, isPrintable (Nat.digitChar n) = true := by decide
  have hmark : isPrintable '\\' = true := by decide
  have hb : b.toNat < 256 := b.toNat_lt
  unfold escapeByte at h
  dsimp only at h
  split at h
  · next hplain => exact List.mem_singleton.mp h ▸ isPrintable_of_isPlain hplain
  · split at h
    · next letter hlookup =>
      obtain ⟨before, behind, hsplit, -⟩ := List.lookup_eq_some_iff.mp hlookup
      have hmem : (b, letter) ∈ escapeLetters := hsplit ▸ List.mem_append_right _ List.mem_cons_self
      simp only [List.mem_cons, List.not_mem_nil, or_false] at h
      rcases h with rfl | rfl
      · exact hmark
      · exact hletter _ hmem
    · simp only [List.map_cons, List.map_nil, List.mem_cons, List.not_mem_nil, or_false] at h
      rcases h with rfl | rfl | rfl | rfl
      · exact hmark
      · exact hdigit _ (by omega)
      · exact hdigit _ (by omega)
      · exact hdigit _ (by omega)

/-- All that is written for a path is printable. -/
theorem isPrintable_of_mem_written {path : String} {c : Char} (h : c ∈ written path) : isPrintable c = true := by
  rw [written] at h
  split at h
  · next hplain => exact isPrintable_of_isPlain (List.all_eq_true.mp hplain c h)
  · rw [quoted, List.mem_append, List.mem_cons, List.mem_flatMap, List.mem_singleton] at h
    rcases h with (rfl | ⟨b, -, hc⟩) | rfl
    · rfl
    · exact isPrintable_of_mem_escapeByte hc
    · rfl

/-! ## What is read

The reader knows nothing of quotes. It cuts at line feeds, takes the blanks off both ends, and turns backslashes
into slashes; the rest is a path, unless nothing is left.
-/

/-- The path that is read from the line on which a path is listed, if the line is not left out. -/
def read? (path : String) : Option String :=
  let line := trim (written path)
  if line = [] then none else some (String.ofList (replaceChar '\\' '/' line))

/-- No listed path has a line end in it, so the lines of a listing are its paths. -/
theorem lines_listing (paths : List String) : lines (listing paths) = paths.map written := by
  induction paths with
  | nil => rfl
  | cons path paths ih =>
    have hne : ∀ d : Char, isPrintable d = false → d ∉ written path := fun d hd hmem => by
      rw [isPrintable_of_mem_written hmem] at hd
      cases hd
    have hreturn : dropReturn (written path) = written path := by
      rw [dropReturn, if_neg fun hlast => hne '\r' (by decide) (List.mem_of_getLast? hlast)]
    rw [listing, List.flatMap_cons, List.append_assoc, List.singleton_append, ← listing,
      lines_append_lf (hne '\n' (by decide)), hreturn, ih, List.map_cons]

/-- A listing is read line by line. -/
theorem listedPaths_listing (paths : List String) :
    listedPaths (decodeLossy (encode (listing paths))) = paths.filterMap read? := by
  have hascii : ∀ c ∈ listing paths, c.toNat < 0x80 := by
    intro c hc
    obtain ⟨path, -, hc⟩ := List.mem_flatMap.mp hc
    rcases List.mem_append.mp hc with hc | hc
    · have := (isPrintable_iff.mp (isPrintable_of_mem_written hc)).2
      omega
    · rw [List.mem_singleton.mp hc]
      decide
  rw [decodeLossy_encode_of_ascii hascii, listedPaths, lines_listing]
  clear hascii
  induction paths with
  | nil => rfl
  | cons path paths ih =>
    rw [List.map_cons, List.map_cons, List.filter_cons, List.filterMap_cons, ← ih, read?]
    by_cases hline : trim (written path) = [] <;> simp [hline]

/-! ## Paths that keep their names

A plain path is read as itself if it has no space at its ends. A quoted path is read as something longer, and that
is not plain either, so nothing that is lost comes back under another path: this is why it is enough to ask each
path for itself (`mem_filterMap_read?_iff`).
-/

/-- Whether a path stands in a listing as it is, with no space at its ends. -/
structure KeepsName (path : String) : Prop where
  ne_empty : path ≠ ""
  isPlain : ∀ c ∈ path.toList, isPlain c = true
  head? : path.toList.head? ≠ some ' '
  getLast? : path.toList.getLast? ≠ some ' '

theorem replaceChar_of_notMem {old new : Char} {cs : List Char} (h : old ∉ cs) : replaceChar old new cs = cs := by
  rw [replaceChar]
  refine (List.map_congr_left fun c hc => ?_).trans (List.map_id cs)
  exact if_neg fun heq : c = old => h (heq ▸ hc)

/-- A path that is not quoted loses the spaces at its ends, and is left out if there is nothing else. -/
theorem read?_of_isPlain {path : String} (h : ∀ c ∈ path.toList, isPlain c = true) :
    read? path = if trim path.toList = [] then none else some (String.ofList (trim path.toList)) := by
  have hbackslash : '\\' ∉ trim path.toList := by
    intro hmem
    obtain ⟨behind, -, hcs⟩ := exists_eq_append_trim path.toList
    have hplain := h '\\' (hcs ▸ List.mem_append_left _ (List.mem_append_right _ hmem))
    cases hplain
  rw [read?, written, if_pos (List.all_eq_true.mpr h)]
  simp only [replaceChar_of_notMem hbackslash]

theorem length_le_length_flatMap {α β : Type} {f : α → List β} (h : ∀ a, f a ≠ []) (items : List α) :
    items.length ≤ (items.flatMap f).length := by
  induction items with
  | nil => exact Nat.le_refl _
  | cons a items ih =>
    have hpos := List.length_pos_iff.mpr (h a)
    rw [List.flatMap_cons, List.length_append, List.length_cons]
    omega

/-- A path that is quoted is read with its quotes, and thus as another path. -/
theorem read?_of_not_isPlain {path : String} (h : ¬∀ c ∈ path.toList, isPlain c = true) :
    ∃ read, read? path = some read ∧ '"' ∈ read.toList ∧ path.length < read.length := by
  have hwritten : written path = quoted path := if_neg fun hall => h (List.all_eq_true.mp hall)
  have hquote : isBlank '"' = false := by decide
  have htrim : trim (quoted path) = quoted path := by
    refine trim_eq_self_iff.mpr ⟨fun c hc => ?_, fun c hc => ?_⟩
    · obtain rfl : '"' = c := Option.some.inj hc
      exact hquote
    · rw [quoted, List.getLast?_concat] at hc
      obtain rfl : '"' = c := Option.some.inj hc
      exact hquote
  refine ⟨String.ofList (replaceChar '\\' '/' (quoted path)), ?_, ?_, ?_⟩
  · rw [read?, hwritten, htrim]
    exact if_neg (List.cons_ne_nil _ _)
  · rw [String.toList_ofList]
    exact List.mem_cons_self
  · have hbytes : path.toList.length ≤ (encode path.toList).length :=
      length_le_length_flatMap (fun _ => String.utf8EncodeChar_ne_nil) _
    have hescaped : (encode path.toList).length ≤ ((encode path.toList).flatMap escapeByte).length :=
      length_le_length_flatMap escapeByte_ne_nil _
    rw [String.length_ofList, replaceChar, List.length_map, quoted, List.length_append, List.length_cons,
      ← String.length_toList]
    omega

/-- What is read is the path itself only if it stands in the listing as it is, with no space at its ends. -/
theorem read?_eq_self_iff {path : String} : read? path = some path ↔ KeepsName path := by
  constructor
  · intro hread
    -- A quoted path is read as something longer than itself.
    have hplain : ∀ c ∈ path.toList, isPlain c = true := by
      by_contra hnot
      obtain ⟨read, hread', -, hlonger⟩ := read?_of_not_isPlain hnot
      rw [hread, Option.some.injEq] at hread'
      rw [hread'] at hlonger
      exact Nat.lt_irrefl _ hlonger
    rw [read?_of_isPlain hplain] at hread
    split at hread
    · cases hread
    · next hne =>
      have htrim : trim path.toList = path.toList := by
        rw [← String.toList_ofList (l := trim path.toList), Option.some.inj hread]
      obtain ⟨hhead, hlast⟩ := trim_eq_self_iff.mp htrim
      refine ⟨?_, hplain, fun h => ?_, fun h => ?_⟩
      · rintro rfl
        exact hne rfl
      · cases hhead _ h
      · cases hlast _ h
  · rintro ⟨hne, hplain, hhead, hlast⟩
    have hspace : ∀ c ∈ path.toList, c ≠ ' ' → isBlank c = false := by
      intro c hc hspace
      rw [Bool.eq_false_iff, ne_eq, isBlank_iff_of_isPrintable (isPrintable_of_isPlain (hplain c hc))]
      exact hspace
    have htrim : trim path.toList = path.toList := by
      refine trim_eq_self_iff.mpr ⟨fun c hc => ?_, fun c hc => ?_⟩
      · exact hspace c (List.mem_of_head? hc) fun heq => hhead (heq ▸ hc)
      · exact hspace c (List.mem_of_getLast? hc) fun heq => hlast (heq ▸ hc)
    rw [read?_of_isPlain hplain, htrim, if_neg (mt String.toList_eq_nil_iff.mp hne), String.ofList_toList]

/-- Reading a listing gives the paths that were listed if and only if each of them keeps its name. -/
theorem mem_filterMap_read?_iff {paths : List String} :
    (∀ path, path ∈ paths.filterMap read? ↔ path ∈ paths) ↔ ∀ path ∈ paths, KeepsName path := by
  constructor
  · intro hsame
    -- A quoted path would be read as a longer one with quotes, which would have been listed and quoted as well.
    have hplain : ∀ path ∈ paths, ∀ c ∈ path.toList, isPlain c = true := by
      by_contra hquoted
      have hsome : (paths.toFinset.filter fun p => ¬∀ c ∈ p.toList, isPlain c = true).Nonempty := by
        obtain ⟨path, hpath⟩ := not_forall.mp hquoted
        obtain ⟨hpath, hcs⟩ := Classical.not_imp.mp hpath
        exact ⟨path, Finset.mem_filter.mpr ⟨List.mem_toFinset.mpr hpath, hcs⟩⟩
      obtain ⟨longest, hlongest, hmax⟩ := Finset.exists_max_image _ String.length hsome
      rw [Finset.mem_filter, List.mem_toFinset] at hlongest
      obtain ⟨read, hread, hquote, hlonger⟩ := read?_of_not_isPlain hlongest.2
      have hlisted := (hsame read).mp (List.mem_filterMap.mpr ⟨longest, hlongest.1, hread⟩)
      have hle := hmax read (by
        rw [Finset.mem_filter, List.mem_toFinset]
        exact ⟨hlisted, fun hall => by cases hall '"' hquote⟩)
      omega
    -- All others have been trimmed, since each is read from some line.
    intro path hpath
    obtain ⟨source, hsource, hread⟩ := List.mem_filterMap.mp ((hsame path).mpr hpath)
    rw [read?_of_isPlain (hplain source hsource)] at hread
    split at hread
    · cases hread
    · next hne =>
      have htrim : path.toList = trim source.toList := by
        rw [← Option.some.inj hread, String.toList_ofList]
      refine ⟨?_, hplain path hpath, fun h => ?_, fun h => ?_⟩
      · rintro rfl
        exact hne htrim.symm
      · cases isBlank_head?_trim (htrim ▸ h)
      · cases isBlank_getLast?_trim (htrim ▸ h)
  · intro hkeeps path
    rw [List.mem_filterMap]
    constructor
    · rintro ⟨source, hsource, hread⟩
      rw [read?_eq_self_iff.mpr (hkeeps source hsource), Option.some.injEq] at hread
      exact hread ▸ hsource
    · exact fun hpath => ⟨path, hpath, read?_eq_self_iff.mpr (hkeeps path hpath)⟩

/-! ## Reports

The lists of changed and edited files are each put together from two listings. A run without a target and a focus
area selects by these lists alone, and so by the reports as far as all names are kept.
-/

/-- Whether a command of the program succeeds and lists these paths. -/
def Program.Lists (program : Program) (arguments paths : List String) : Prop :=
  ∃ answer, program = some answer ∧ (answer arguments).code = 0 ∧
    (answer arguments).output = encode (listing paths)

/-- Whether the program reports these files as changed and as being edited, each by two of its commands. -/
structure Program.Reports (program : Program) (changed edited : List String) : Prop where
  changed : ∃ modified untracked,
    program.Lists ["diff", "--name-only", "--relative", "--diff-filter=ACMR", "HEAD"] modified ∧
    program.Lists ["ls-files", "--others", "--exclude-standard"] untracked ∧ changed = modified ++ untracked
  edited : ∃ unstaged staged,
    program.Lists ["diff", "--name-only", "--relative"] unstaged ∧
    program.Lists ["diff", "--name-only", "--relative", "--cached"] staged ∧ edited = unstaged ++ staged

theorem Program.Lists.listedPaths {program : Program} {arguments paths : List String}
    (h : program.Lists arguments paths) :
    ∃ output, run program arguments = .ok output ∧ listedPaths output = paths.filterMap read? := by
  obtain ⟨answer, rfl, hcode, houtput⟩ := h
  refine ⟨decodeLossy (encode (listing paths)), ?_, listedPaths_listing paths⟩
  rw [run]
  simp only [hcode, houtput, if_true]

/-- The paths of two listings are read from either. -/
theorem exists_listBoth {program : Program} {first second : List String} {paths morePaths : List String}
    (hfirst : program.Lists first paths) (hsecond : program.Lists second morePaths) :
    ∃ listed, listBoth program first second = .ok listed ∧
      ∀ path, path ∈ listed ↔ path ∈ (paths ++ morePaths).filterMap read? := by
  obtain ⟨output, hrun, hlisted⟩ := hfirst.listedPaths
  obtain ⟨moreOutput, hmoreRun, hmoreListed⟩ := hsecond.listedPaths
  refine ⟨Sorting.ascending (paths.filterMap read? ++ morePaths.filterMap read?), ?_, fun path => ?_⟩
  · rw [listBoth, hrun, hmoreRun, ← hlisted, ← hmoreListed]
    rfl
  · rw [Sorting.mem_ascending, List.filterMap_append]

end Changes

namespace Context

open Scope Changes

/-- Whether files are selected as the reports of changed and edited files say. -/
structure FollowsReports (d : Directives) (candidates : List Candidate) (changed edited : List String)
    (selected : List ScopedFile) : Prop where
  /-- A candidate is selected if it is edited, or if it has changed where only these are asked for. -/
  mem_iff : ∀ c, (∃ f ∈ selected, f.candidate = c) ↔ c ∈ candidates ∧
    (d.gitAware = true ∧ c.path ∈ edited ∨ (d.changedOnly = true → c.path ∈ changed))
  /-- Those that are edited, or have changed where only these are asked for, are the changed ones. -/
  role_iff : ∀ f ∈ selected, f.role = .changed ↔
    d.gitAware = true ∧ f.path ∈ edited ∨ d.changedOnly = true ∧ f.path ∈ changed

/-- Selection is given the files being edited, if it is asked for them. -/
theorem activity_inputs {ctx : Context} {disk : Disk} {source : Source} {d : Directives}
    {candidates : List Candidate} {target : Option Target} {listed : List String}
    (h : source.activity = .ok listed) {path : String} (hsecret : Secret.isSensitive path = false) :
    (∃ edited, (ctx.inputs disk source d candidates target).activity = some edited ∧ path ∈ edited) ↔
      d.gitAware = true ∧ path ∈ listed := by
  cases hasked : d.gitAware <;> simp [inputs, gather, hasked, h, Sorting.mem_ascending, hsecret]

/-- Selection is given the changed files, if it is asked for them. -/
theorem changed_inputs {ctx : Context} {disk : Disk} {source : Source} {d : Directives}
    {candidates : List Candidate} {target : Option Target} {listed : List String}
    (h : source.changed = .ok listed) :
    (ctx.inputs disk source d candidates target).changed = if d.changedOnly then some listed else none := by
  cases hasked : d.changedOnly <;> simp [inputs, gather, hasked, h]

/-- A run without a target and a focus area follows what is known about changes, before files are cut off. -/
theorem StandsOn.run_followsReports {ctx : Context} {disk : Disk} {entries : Entries}
    {d : Directives} {candidates : List Candidate} {changed edited : List String}
    (h : ctx.StandsOn disk entries) (source : Source)
    (hwalk : Walk.candidates? disk.top ctx.root ctx.policy = some candidates)
    (htarget : d.target = none) (hfocus : d.focus = .none)
    (hchanged : source.changed = .ok changed) (hedited : source.activity = .ok edited) :
    ∃ outcome selected, ctx.run disk source d = .ok outcome ∧ outcome.files = rank selected d.maxFiles ∧
      FollowsReports d candidates changed edited selected := by
  refine ⟨_, _, run_of_target_eq_none source hwalk htarget, runOn_files _ _ _ _ _ _, ?_⟩
  have hsecret : ∀ c ∈ candidates, Secret.isSensitive c.path = false := by
    intro c hc
    obtain ⟨-, -, -, -, hsecret⟩ := h.exists_of_mem_candidates? hwalk hc
    exact hsecret
  have hactivity : ∀ c ∈ candidates, (∃ edited, (ctx.inputs disk source d candidates none).activity = some edited ∧
      c.path ∈ edited) ↔ d.gitAware = true ∧ c.path ∈ edited := fun c hc => activity_inputs hedited (hsecret c hc)
  have hchanges : (ctx.inputs disk source d candidates none).changed = if d.changedOnly then some changed else none :=
    changed_inputs hchanged
  have hnone : (ctx.inputs disk source d candidates none).target = none := rfl
  have hcandidates : (ctx.inputs disk source d candidates none).candidates = candidates := rfl
  generalize ctx.inputs disk source d candidates none = i at *
  have hothers : i.others d = (candidates.filter fun c => i.isEligible c && i.selects d c.path).map fun c =>
      ⟨c, i.roleOf c.path, i.contextMode d⟩ := by
    rw [Inputs.others, hnone, hcandidates]
  have hpaths : candidates.Pairwise fun a b => a.path < b.path :=
    Walk.pairwise_candidates? h.follow_root h.isProper_entries hwalk
  have hnodup : ((i.others d).map (·.path)).Nodup := by
    rw [hothers, List.map_map]
    exact List.pairwise_map.mpr ((hpaths.sublist List.filter_sublist).imp String.ne_of_lt)
  -- All candidates are eligible, as there is no target and none of them is a secret.
  have heligible : ∀ c ∈ candidates, i.isEligible c = true := by
    intro c hc
    rw [Inputs.isEligible_iff, Inputs.isTarget_eq_false_iff, hnone]
    exact ⟨by simp, hsecret c hc⟩
  have hmem : ∀ f, f ∈ (resolve i d).files ↔ ∃ c ∈ candidates, i.selects d c.path = true ∧
      ⟨c, i.roleOf c.path, i.contextMode d⟩ = f := by
    intro f
    have htargetFile : f ∉ i.targetFile := by simp [Inputs.targetFile, hnone]
    rw [mem_resolve_iff hnodup, or_iff_right htargetFile, hothers, List.mem_map]
    simp only [List.mem_filter, Bool.and_eq_true, and_assoc]
    exact exists_congr fun c => and_congr_right fun hc => and_iff_right (heligible c hc)
  have hselects : ∀ c ∈ candidates, i.selects d c.path = true ↔
      d.gitAware = true ∧ c.path ∈ edited ∨ (d.changedOnly = true → c.path ∈ changed) := by
    intro c hc
    have hpasses : (∀ paths, i.changed = some paths → c.path ∈ paths) ↔
        (d.changedOnly = true → c.path ∈ changed) := by
      rw [hchanges]
      cases d.changedOnly <;> simp
    have harea : d.focus.isMatch c.path = true := by
      rw [hfocus]
      rfl
    rw [Inputs.selects_iff, hactivity c hc, hpasses, and_iff_right harea]
  constructor
  case mem_iff =>
    intro c
    constructor
    · rintro ⟨f, hf, rfl⟩
      obtain ⟨c, hc, hselected, rfl⟩ := (hmem f).mp hf
      exact ⟨hc, (hselects c hc).mp hselected⟩
    · rintro ⟨hc, hselected⟩
      exact ⟨_, (hmem _).mpr ⟨c, hc, (hselects c hc).mpr hselected, rfl⟩, rfl⟩
  case role_iff =>
    intro f hf
    obtain ⟨c, hc, -, rfl⟩ := (hmem f).mp hf
    have hreported : (∃ paths, i.changed = some paths ∧ c.path ∈ paths) ↔
        d.changedOnly = true ∧ c.path ∈ changed := by
      rw [hchanges]
      cases d.changedOnly <;> simp
    obtain ⟨hrole, hother⟩ := i.roleOf_eq c.path
    rw [hactivity c hc, hreported] at hrole hother
    refine ⟨fun heq => ?_, hrole⟩
    by_contra hnot
    have heq : i.roleOf c.path = .changed := heq
    rw [hother hnot] at heq
    split at heq <;> cases heq

/-- Only which paths are reported counts, not how often or in which order. -/
theorem FollowsReports.congr {d : Directives} {candidates : List Candidate} {selected : List ScopedFile}
    {changed changed' edited edited' : List String} (hchanged : ∀ path, path ∈ changed ↔ path ∈ changed')
    (hedited : ∀ path, path ∈ edited ↔ path ∈ edited') (h : FollowsReports d candidates changed edited selected) :
    FollowsReports d candidates changed' edited' selected := by
  constructor
  · intro c
    rw [h.mem_iff, hchanged, hedited]
  · intro f hf
    rw [h.role_iff f hf, hchanged, hedited]

/--
What is read from a listing of some paths are these paths if and only if each of them stands there as it is, with no
space at its ends. A run without a target and a focus area then selects, before files are cut off, just the candidates
that are reported: those that have changed if only these are asked for, and those that are edited with the role of
changed files.
-/
theorem reports_keepNames_iff (paths : List String) :
    ((∀ path, path ∈ listedPaths (Text.decodeLossy (Text.encode (listing paths))) ↔ path ∈ paths) ↔
      ∀ path ∈ paths, KeepsName path) ∧
    ∀ {program : Program} {changed edited : List String} {disk : Disk} {here : List String} {root : String}
      {exclude : List String} {ctx : Context} {candidates : List Candidate} {d : Directives},
      program.Reports changed edited → (∀ path ∈ changed ++ edited, KeepsName path) →
      disk.top.isProper = true → open? disk here root exclude = .ok ctx →
      Walk.candidates? disk.top ctx.root ctx.policy = some candidates →
      d.target = none → d.focus = .none →
      ∃ outcome selected, ctx.run disk (.ofProgram program) d = .ok outcome ∧
        outcome.files = rank selected d.maxFiles ∧ FollowsReports d candidates changed edited selected := by
  refine ⟨by rw [listedPaths_listing, mem_filterMap_read?_iff], ?_⟩
  intro program changed edited disk here root exclude ctx candidates d hreports hkeeps hproper hopen hwalk htarget
    hfocus
  -- Each list is read from two listings; where all names are kept, it has the paths of both.
  obtain ⟨⟨modified, untracked, hmodified, huntracked, rfl⟩, unstaged, staged, hunstaged, hstaged, rfl⟩ := hreports
  obtain ⟨changed, hchanged, hmemChanged⟩ := exists_listBoth hmodified huntracked
  obtain ⟨edited, hedited, hmemEdited⟩ := exists_listBoth hunstaged hstaged
  obtain ⟨entries, hstands⟩ := exists_standsOn hproper hopen hwalk
  obtain ⟨outcome, selected, hrun, hfiles, hfollows⟩ :=
    hstands.run_followsReports (.ofProgram program) hwalk htarget hfocus hchanged hedited
  rw [List.forall_mem_append] at hkeeps
  refine ⟨outcome, selected, hrun, hfiles, hfollows.congr (fun path => ?_) fun path => ?_⟩
  · rw [hmemChanged, mem_filterMap_read?_iff.mpr hkeeps.1]
  · rw [hmemEdited, mem_filterMap_read?_iff.mpr hkeeps.2]

/-- A root with a file for each of some names. -/
def namedDisk (names : List String) : Disk :=
  ⟨.dir (.cons "srv" (.dir (names.foldr (fun name => .cons name (.file [])) .nil)) .nil), none⟩

def namedContext (names : List String) : Context :=
  ⟨["srv"], Ignore.Policy.load (namedDisk names) ["srv"] []⟩

/-- A program that lists the same paths whatever it is asked for. -/
def listingProgram (paths : List String) : Program :=
  some fun _ => ⟨Text.encode (listing paths), [], 0⟩

theorem reports_listingProgram (paths : List String) :
    (listingProgram paths).Reports (paths ++ paths) (paths ++ paths) := by
  have hlists : ∀ arguments, (listingProgram paths).Lists arguments paths := fun _ => ⟨_, rfl, rfl, rfl⟩
  exact ⟨⟨paths, paths, hlists _, hlists _, rfl⟩, ⟨paths, paths, hlists _, hlists _, rfl⟩⟩

/-- A request for changed files. -/
def changedDirectives : Directives := { Directives.default with changedOnly := true }

/-- A name with a space inside is kept, and only its file is selected. -/
theorem reports_keepNames_sample :
    ∃ outcome selected,
      (namedContext ["a b.ts", "c.ts"]).run (namedDisk ["a b.ts", "c.ts"]) (.ofProgram (listingProgram ["a b.ts"]))
        changedDirectives = .ok outcome ∧
      outcome.files = rank selected changedDirectives.maxFiles ∧
      FollowsReports changedDirectives [⟨"a b.ts", 0, some "ts"⟩, ⟨"c.ts", 0, some "ts"⟩]
        (["a b.ts"] ++ ["a b.ts"]) (["a b.ts"] ++ ["a b.ts"]) selected := by
  have hkeeps : ∀ path ∈ ["a b.ts"], KeepsName path := by
    refine (reports_keepNames_iff ["a b.ts"]).1.mp fun path => ?_
    rw [show listedPaths (Text.decodeLossy (Text.encode (listing ["a b.ts"]))) = ["a b.ts"] by decide +kernel]
  refine (reports_keepNames_iff ["a b.ts"]).2 (reports_listingProgram ["a b.ts"]) ?_ (by decide)
    (show open? (namedDisk ["a b.ts", "c.ts"]) [] "srv" [] = .ok (namedContext ["a b.ts", "c.ts"]) from rfl)
    (by decide +kernel) rfl rfl
  simpa using hkeeps

/-- A file whose name has an accent is reported and not selected, since its quoted name is read as another path. -/
theorem exists_report_lost :
    ∃ outcome,
      (listingProgram ["é.ts"]).Reports (["é.ts"] ++ ["é.ts"]) (["é.ts"] ++ ["é.ts"]) ∧
      Walk.candidates? (namedDisk ["é.ts"]).top ["srv"] (namedContext ["é.ts"]).policy
        = some [⟨"é.ts", 0, some "ts"⟩] ∧
      (namedContext ["é.ts"]).run (namedDisk ["é.ts"]) (.ofProgram (listingProgram ["é.ts"])) changedDirectives
        = .ok outcome ∧
      outcome.files = [] ∧
      listedPaths (Text.decodeLossy (Text.encode (listing ["é.ts"]))) = ["\"/303/251.ts\""] := by
  have hview : ((namedContext ["é.ts"]).run (namedDisk ["é.ts"]) (.ofProgram (listingProgram ["é.ts"]))
      changedDirectives).toOption.map (·.files) = some [] := by decide +kernel
  obtain ⟨outcome, hrun, hfiles⟩ := exists_eq_ok_of_view hview
  exact ⟨outcome, reports_listingProgram _, by decide +kernel, hrun, hfiles, by decide +kernel⟩

end Context

end RepoScope
