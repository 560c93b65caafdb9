import Mathlib.Algebra.GroupWithZero.Nat
import RepoScope.Bundle
import RepoScope.Content.Workers
import RepoScope.Proofs.Loading

/-!
# Every selected file is accounted for

Loading puts each selected file either among the files that are listed or among those that are skipped, and keeps
their order (`Accounts`). A file has content if it may be opened, can be read and does not look binary
(`ShowsContent`); a file that is excluded or required is listed in any case, and if a required file has no content
there is a warning that says why. Whether one worker loads the files or several, and in whatever order they finish,
makes no difference (`loadWith_eq_load`).

What becomes of one file is brought into the four cases of `LoadsAs` first. The accounts are then kept for the files
from the first to the last: one more file of either case leaves them balanced (`Accounts.push`).
-/

namespace RepoScope.Content

open Scope

/-! ## Workers

A slot is written whenever its position is finished, and always with the same. So the slots of a list are full as soon
as each position is finished at least once, whatever the order is (`workOn_eq_map`).
-/

section

variable {α β : Type} (work : α → β) (items : List α)

@[simp] theorem length_foldl_fillSlot (order : List Nat) (slots : List (Option β)) :
    (order.foldl (fillSlot work items) slots).length = slots.length := by
  induction order generalizing slots with
  | nil => rfl
  | cons i rest ih => rw [List.foldl_cons, ih, fillSlot, List.length_set]

/-- A slot is filled as soon as its position is finished, and stays so. -/
theorem getElem?_foldl_fillSlot (order : List Nat) (slots : List (Option β)) {j : Nat}
    (hj : j < slots.length) :
    (order.foldl (fillSlot work items) slots)[j]? =
      if j ∈ order then some (items[j]?.map work) else slots[j]? := by
  induction order generalizing slots with
  | nil => rfl
  | cons i rest ih =>
    have hlength : j < (fillSlot work items slots i).length := by rwa [fillSlot, List.length_set]
    rw [List.foldl_cons, ih _ hlength, fillSlot, List.getElem?_set]
    by_cases hrest : j ∈ rest
    · rw [if_pos hrest, if_pos (List.mem_cons_of_mem i hrest)]
    · rw [if_neg hrest]
      by_cases hij : i = j
      · subst hij
        rw [if_pos rfl, if_pos hj, if_pos List.mem_cons_self]
      · have hnot : j ∉ i :: rest := by
          rw [List.mem_cons, not_or]
          exact ⟨fun h => hij h.symm, hrest⟩
        rw [if_neg hij, if_neg hnot]

/-- Workers that finish every position make of each item what one worker does, in the order of the items. -/
theorem workOn_eq_map {order : List Nat} (h : ∀ i < items.length, i ∈ order) :
    workOn work items order = items.map work := by
  have hslots : order.foldl (fillSlot work items) (items.map fun _ => none) =
      items.map (some ∘ work) := by
    refine List.ext_getElem? fun j => ?_
    rcases Nat.lt_or_ge j items.length with hj | hj
    · rw [getElem?_foldl_fillSlot work items order _ (by simpa using hj), if_pos (h j hj), List.getElem?_map,
        List.getElem?_eq_getElem hj]
      rfl
    · rw [List.getElem?_eq_none (by simpa using hj), List.getElem?_eq_none (by simpa using hj)]
  rw [workOn, hslots, List.filterMap_map, Function.id_comp, List.filterMap_eq_map]

/-- Workers change nothing, however many there are, and whether they can be started or not. -/
theorem Pool.map_eq_map (pool : Pool) (jobs : Nat) : pool.map jobs work items = items.map work := by
  rw [map]
  split
  · split
    · next order horder => exact workOn_eq_map work items (pool.finished horder)
    · rfl
  · rfl

end

variable {host : Host} {repo : Repository} {countTokens : Bool} {f : ScopedFile} {files : List ScopedFile}

/-- What becomes of a file is put behind what became of those before it. -/
theorem foldl_push (loaded : List Loaded) (done : LoadedFiles) :
    loaded.foldl LoadedFiles.push done =
      { files := done.files ++ loaded.filterMap fun
          | .shown file | .listed file _ => some file
          | .skipped _ => none
        skipped := done.skipped ++ loaded.filterMap fun
          | .skipped file => some file
          | _ => none
        warnings := done.warnings ++ loaded.filterMap fun
          | .listed _ warning => some warning
          | _ => none } := by
  induction loaded generalizing done with
  | nil => simp
  | cons first rest ih =>
    rw [List.foldl_cons, ih]
    cases first <;> simp [LoadedFiles.push]

/-- However many workers load the files, the result is that of loading one by one. -/
theorem loadWith_eq_load (jobs : Nat) :
    loadWith host jobs repo countTokens files = load repo countTokens files host := by
  rw [loadWith, Pool.map_eq_map, foldl_push]
  rfl

/-! ## What is shown, listed and skipped

The cases are stated by what reading a file gives on the host, with the reasons and warnings that go with them.
They are decidable for each file, so that lists of files can be filtered by them: the accounts compare these lists
with what loading returns.
-/

/-- Whether the content of a selected file is shown. -/
def ShowsContent (host : Host) (repo : Repository) (f : ScopedFile) : Prop :=
  f.mode ≠ .excluded ∧
    (∃ bytes, repo.readFile host.access f.path = .ok bytes ∧ 0 ∉ bytes.take sniffedBytes) ∧
    (f.role.isRequired = true ∨ mayBeText host repo f.path = true)

instance (host : Host) (repo : Repository) (f : ScopedFile) :
    Decidable (∃ bytes, repo.readFile host.access f.path = .ok bytes ∧ 0 ∉ bytes.take sniffedBytes) :=
  match h : repo.readFile host.access f.path with
  | .ok bytes => decidable_of_iff (0 ∉ bytes.take sniffedBytes) (by simp)
  | .error _ => .isFalse (by simp)

instance (host : Host) (repo : Repository) : DecidablePred (ShowsContent host repo) :=
  fun _ => inferInstanceAs (Decidable (_ ∧ _ ∧ _))

/-- Whether a selected file is listed, with its content or without. -/
def IsListed (host : Host) (repo : Repository) (f : ScopedFile) : Prop :=
  f.mode = .excluded ∨ f.role.isRequired = true ∨ ShowsContent host repo f

instance (host : Host) (repo : Repository) : DecidablePred (IsListed host repo) :=
  fun _ => inferInstanceAs (Decidable (_ ∨ _ ∨ _))

/-- Whether there is a warning that a selected file has no content. -/
def IsMissed (host : Host) (repo : Repository) (f : ScopedFile) : Prop :=
  f.mode ≠ .excluded ∧ f.role.isRequired = true ∧ ¬ShowsContent host repo f

instance (host : Host) (repo : Repository) : DecidablePred (IsMissed host repo) :=
  fun _ => inferInstanceAs (Decidable (_ ∧ _ ∧ _))

/-- What is said of a required file without content. -/
def missedWarning (host : Host) (repo : Repository) (f : ScopedFile) : String :=
  match repo.readFile host.access f.path with
  | .error e => f.role.name ++ " " ++ f.path ++ " could not be read: " ++ e.message
  | .ok _ => f.role.name ++ " " ++ f.path ++ " is a binary file; its content is not shown"

/-- Why a selected file is skipped. -/
def skippedReason (host : Host) (repo : Repository) (f : ScopedFile) : String :=
  if mayBeText host repo f.path then
    match repo.readFile host.access f.path with
    | .error e => "unreadable: " ++ e.message
    | .ok _ => notText
  else notText

theorem looksBinary_eq_false_iff {bytes : Bytes} :
    looksBinary bytes = false ↔ 0 ∉ bytes.take sniffedBytes := by
  rw [looksBinary, Bool.eq_false_iff, ne_eq, List.contains_iff_mem]

/-- What becomes of a selected file, by what is known of it. -/
inductive LoadsAs (host : Host) (repo : Repository) (countTokens : Bool) (f : ScopedFile) : Loaded → Prop
  | content {bytes : Bytes} (hshows : ShowsContent host repo f) (hread : repo.readFile host.access f.path = .ok bytes) :
      LoadsAs host repo countTokens f (.shown (withText host countTokens f (shownText f (Text.decodeLossy bytes))))
  | excluded (hmode : f.mode = .excluded) : LoadsAs host repo countTokens f (.shown (bare f))
  | missed (hmissed : IsMissed host repo f) :
      LoadsAs host repo countTokens f (.listed (bare f) (missedWarning host repo f))
  | skipped (hlisted : ¬IsListed host repo f) :
      LoadsAs host repo countTokens f (.skipped ⟨f.path, skippedReason host repo f⟩)

/-- A file without content is missed if it is required, and skipped if it is not. -/
theorem LoadsAs.of_not_showsContent {loaded : Loaded} (hmode : f.mode ≠ .excluded) (hshows : ¬ShowsContent host repo f)
    (hmissed : f.role.isRequired = true → loaded = .listed (bare f) (missedWarning host repo f))
    (hskipped : f.role.isRequired ≠ true → loaded = .skipped ⟨f.path, skippedReason host repo f⟩) :
    LoadsAs host repo countTokens f loaded := by
  by_cases hrole : f.role.isRequired = true
  · rw [hmissed hrole]
    exact .missed ⟨hmode, hrole, hshows⟩
  · rw [hskipped hrole]
    exact .skipped fun hlisted => hlisted.elim hmode fun hlisted => hlisted.elim hrole hshows

/--
Loading goes through the cases in this order: the mode, what the extension says, the attempt to read, and what the
first bytes look like.
-/
theorem loadsAs_loadFile (host : Host) (repo : Repository) (countTokens : Bool) (f : ScopedFile) :
    LoadsAs host repo countTokens f (loadFile host repo countTokens f) := by
  rw [loadFile]
  by_cases hmode : f.mode = .excluded
  · rw [if_pos hmode]
    exact .excluded hmode
  rw [if_neg hmode]
  by_cases hopen : f.role.isRequired = true ∨ mayBeText host repo f.path = true
  · rw [if_neg (by simpa [Classical.or_iff_not_imp_left] using hopen)]
    cases hread : repo.readFile host.access f.path with
    | error e =>
      have hshows : ¬ShowsContent host repo f := by
        rintro ⟨-, ⟨bytes, hread', -⟩, -⟩
        rw [hread] at hread'
        cases hread'
      refine .of_not_showsContent hmode hshows (fun hrole => ?_) fun hrole => ?_
      · rw [missedWarning, hread]
        exact if_pos hrole
      · rw [skippedReason, if_pos (hopen.resolve_left hrole), hread]
        exact if_neg hrole
    | ok bytes =>
      simp only
      by_cases hbinary : looksBinary bytes = true
      · have hshows : ¬ShowsContent host repo f := by
          rintro ⟨-, ⟨bytes', hread', hzero⟩, -⟩
          rw [hread] at hread'
          cases hread'
          rw [← looksBinary_eq_false_iff, hbinary] at hzero
          cases hzero
        rw [if_pos hbinary]
        refine .of_not_showsContent hmode hshows (fun hrole => ?_) fun hrole => ?_
        · rw [missedWarning, hread]
          exact if_pos hrole
        · rw [skippedReason, if_pos (hopen.resolve_left hrole), hread]
          exact if_neg hrole
      · have hzero := looksBinary_eq_false_iff.mp (Bool.eq_false_iff.mpr hbinary)
        rw [if_neg hbinary]
        exact .content ⟨hmode, ⟨bytes, hread, hzero⟩, hopen⟩ hread
  · -- What the extension says is not looked at for required files, so such a file is none of these.
    obtain ⟨hrole, hmay⟩ := not_or.mp hopen
    rw [if_pos (by simpa using And.intro hrole hmay)]
    refine .of_not_showsContent hmode (fun hshows => hopen hshows.2.2) (fun hrole' => absurd hrole' hrole) fun _ => ?_
    rw [skippedReason, if_neg hmay]

/-- What is said of a selected file that is listed. -/
structure IsEntry (host : Host) (repo : Repository) (countTokens : Bool) (f : ScopedFile) (s : ShownFile) :
    Prop where
  same : s.path = f.path ∧ s.role = f.role ∧ s.mode = f.mode
  isSome_content : s.content.isSome ↔ ShowsContent host repo f
  content {text : String} (h : s.content = some text) :
    (∃ bytes, repo.readFile host.access f.path = .ok bytes ∧
      text.toList =
        if f.mode = .skeleton then Outline.outline (Text.decodeLossy bytes) f.candidate.extension
        else Text.decodeLossy bytes) ∧
    s.lines = (Text.lines text.toList).length ∧ s.hash = some (Digest.short (Text.encode text.toList))
  bare (h : s.content = none) : s.lines = 0 ∧ s.hash = none
  tokens : s.tokens =
    if countTokens then s.content.map fun text => host.tokenizers.count defaultEncoding text.toList
    else none

theorem isEntry_bare (h : ¬ShowsContent host repo f) : IsEntry host repo countTokens f (bare f) where
  same := ⟨rfl, rfl, rfl⟩
  isSome_content := by simp [bare, h]
  content h := by cases h
  bare _ := ⟨rfl, rfl⟩
  tokens := by cases countTokens <;> rfl

theorem isEntry_withText {bytes : Bytes} (hshows : ShowsContent host repo f)
    (hread : repo.readFile host.access f.path = .ok bytes) :
    IsEntry host repo countTokens f (withText host countTokens f (shownText f (Text.decodeLossy bytes))) where
  same := ⟨rfl, rfl, rfl⟩
  isSome_content := by simp [withText, hshows]
  content {text} h := by
    have htext : text.toList = shownText f (Text.decodeLossy bytes) := by
      rw [withText, Option.some.injEq] at h
      rw [← h, String.toList_ofList]
    have hshown : shownText f (Text.decodeLossy bytes) =
        if f.mode = .skeleton then Outline.outline (Text.decodeLossy bytes) f.candidate.extension
        else Text.decodeLossy bytes := by
      rw [shownText]
      cases hmode : f.mode <;> rfl
    exact ⟨⟨bytes, hread, htext.trans hshown⟩, by rw [htext]; rfl, by rw [htext]; rfl⟩
  bare h := by cases h
  tokens := by simp only [withText, Option.map_some, String.toList_ofList]

/--
Whether loaded files account for the selected files: each is listed or skipped, in the order of the selection, and
there is one warning for each required file whose content is missed.
-/
structure Accounts (host : Host) (repo : Repository) (countTokens : Bool) (files : List ScopedFile)
    (loaded : LoadedFiles) : Prop where
  listed : List.Forall₂ (IsEntry host repo countTokens) (files.filter (IsListed host repo ·)) loaded.files
  skipped : loaded.skipped =
    (files.filter (¬IsListed host repo ·)).map fun f => ⟨f.path, skippedReason host repo f⟩
  warned : loaded.warnings = (files.filter (IsMissed host repo ·)).map (missedWarning host repo)

namespace Accounts

variable {loaded : LoadedFiles}

/-- One more file that is listed without a warning leaves the accounts balanced. -/
theorem push_listed {s : ShownFile} (h : Accounts host repo countTokens files loaded) (hlisted : IsListed host repo f)
    (hmissed : ¬IsMissed host repo f) (hentry : IsEntry host repo countTokens f s) :
    Accounts host repo countTokens (files ++ [f]) (loaded.push (.shown s)) where
  listed := by
    rw [List.filter_append, List.filter_cons_of_pos (by simpa using hlisted)]
    exact List.rel_append h.listed (.cons hentry .nil)
  skipped := by simpa [LoadedFiles.push, List.filter_cons, hlisted] using h.skipped
  warned := by simpa [LoadedFiles.push, List.filter_cons, hmissed] using h.warned

/-- Files that are accounted for stay so when one more file is loaded. -/
theorem push {item : Loaded} (h : Accounts host repo countTokens files loaded) (hitem : LoadsAs host repo countTokens f item) :
    Accounts host repo countTokens (files ++ [f]) (loaded.push item) := by
  cases hitem with
  | content hshows hread =>
    exact h.push_listed (.inr (.inr hshows)) (fun hmissed => hmissed.2.2 hshows)
      (isEntry_withText hshows hread)
  | excluded hmode =>
    exact h.push_listed (.inl hmode) (fun hmissed => hmissed.1 hmode)
      (isEntry_bare fun hshows => hshows.1 hmode)
  | missed hmissed =>
    have hlisted : IsListed host repo f := .inr (.inl hmissed.2.1)
    refine ⟨?_, by simpa [LoadedFiles.push, List.filter_cons, hlisted] using h.skipped,
      by simpa [LoadedFiles.push, List.filter_cons, hmissed] using h.warned⟩
    rw [List.filter_append, List.filter_cons_of_pos (by simpa using hlisted)]
    exact List.rel_append h.listed (.cons (isEntry_bare hmissed.2.2) .nil)
  | skipped hnot =>
    have hmissed : ¬IsMissed host repo f := fun hmissed => hnot (.inr (.inl hmissed.2.1))
    exact ⟨by simpa [LoadedFiles.push, List.filter_cons, hnot] using h.listed,
      by simpa [LoadedFiles.push, List.filter_cons, hnot, List.map_append] using h.skipped,
      by simpa [LoadedFiles.push, List.filter_cons, hmissed] using h.warned⟩

end Accounts

/-- Loading files one by one keeps the accounts, by induction from the first file to the last. -/
theorem accounts_load (host : Host) (repo : Repository) (countTokens : Bool) (files : List ScopedFile) :
    Accounts host repo countTokens files (load repo countTokens files host) := by
  -- The files are loaded from the first to the last, behind those that are accounted for.
  have hrun : ∀ (rest done : List ScopedFile) (loaded : LoadedFiles), Accounts host repo countTokens done loaded →
      Accounts host repo countTokens (done ++ rest)
        ((rest.map (loadFile host repo countTokens)).foldl LoadedFiles.push loaded) := by
    intro rest
    induction rest with
    | nil =>
      intro done loaded h
      rwa [List.append_nil]
    | cons f rest ih =>
      intro done loaded h
      rw [List.append_cons]
      exact ih _ _ (h.push (loadsAs_loadFile host repo countTokens f))
  have hload := hrun files [] ⟨[], [], []⟩ ⟨.nil, rfl, rfl⟩
  rw [foldl_push] at hload
  exact hload

/-- The number of files is that of those listed and those skipped. -/
theorem Accounts.length_eq {loaded : LoadedFiles} (h : Accounts host repo countTokens files loaded) :
    loaded.files.length + loaded.skipped.length = files.length := by
  have hskipped := congrArg List.length h.skipped
  rw [List.length_map] at hskipped
  rw [← h.listed.length_eq, hskipped, files.length_eq_length_filter_add (IsListed host repo ·)]
  simp

theorem isListed_of_required (h : f.mode = .excluded ∨ f.role = .target ∨ f.role = .dependency) :
    IsListed host repo f := by
  rcases h with h | h | h
  · exact .inl h
  · exact .inr (.inl (by rw [h]; rfl))
  · exact .inr (.inl (by rw [h]; rfl))

/--
Loading accounts for every selected file, on every host and whatever workers do it, and a bundle has what is loaded of
the files of its outcome: these files, those skipped, the warnings about them, and the numbers of both.
-/
theorem load_accounts (host : Host) (repo : Repository) (countTokens : Bool) (files : List ScopedFile) :
    (∀ (pool : Pool) (jobs : Nat),
      loadWith { host with pool } jobs repo countTokens files = load repo countTokens files host) ∧
    Accounts host repo countTokens files (load repo countTokens files host) ∧
    (∀ f ∈ files, f.mode = .excluded ∨ f.role = .target ∨ f.role = .dependency →
      IsListed host repo f) ∧
    ∀ (ctx : Context) (disk : Disk) (outcome : Outcome) (d : Directives) (options : Bundle.Options),
      let bundle := Bundle.build ctx disk outcome d options host
      let loaded := load (ctx.repository disk) options.countTokens outcome.files host
      (bundle.files = loaded.files ∧ bundle.skipped = loaded.skipped ∧
        bundle.warnings = outcome.warnings.map Warning.message ++ loaded.warnings) ∧
      bundle.filesShown = loaded.files.length ∧
      bundle.filesShown + bundle.skipped.length = outcome.files.length ∧
      bundle.totalLines = (loaded.files.map (·.lines)).sum := by
  refine ⟨fun pool jobs => ?_, accounts_load host repo countTokens files,
    fun f _ hf => isListed_of_required hf, fun ctx disk outcome d options => ?_⟩
  · rw [loadWith_eq_load]
    rfl
  · have hload : loadWith host options.jobs (ctx.repository disk) options.countTokens outcome.files =
        load (ctx.repository disk) options.countTokens outcome.files host := loadWith_eq_load options.jobs
    have hlength := (accounts_load host (ctx.repository disk) options.countTokens outcome.files).length_eq
    simp only [Bundle.build, hload]
    refine ⟨⟨trivial, trivial, trivial⟩, trivial, hlength, ?_⟩
    rw [List.sum_eq_foldr, List.foldr_map]

/-- Workers that finish the positions from the last to the first. -/
def Pool.inReverse (processors : Nat) : Pool where
  processors
  order? _ length := some (List.range length).reverse
  finished h i hi := by
    cases h
    exact List.mem_reverse.mpr (List.mem_range.mpr hi)

/-- A repository with a text, a binary file, a link to itself and a directory. -/
def guardedRepository : Repository where
  disk := ⟨.dir (.cons "srv" (.dir (
    .cons "a.md" (.file (Text.encode "one\ntwo\n".toList)) <|
    .cons "b.bin" (.file [0, 1]) <|
    .cons "c.md" (.file [99]) <|
    .cons "loop.md" (.link "loop.md") <|
    .cons "vault" (.dir (.cons "d.md" (.file [100]) .nil)) .nil)) .nil), none⟩
  root := ["srv"]

/-- A host that keeps a directory closed and does not give out one file. -/
def guardingHost : Host where
  access :=
    { enters := (· ≠ ["srv", "vault"])
      refusal? := fun place => if place = ["srv", "c.md"] then some "Input/output error (os error 5)" else none }
  tokenizers := { cl100k? := some List.length }
  pool := .inReverse 3

/-- A target that can be read, dependencies that cannot be shown, a file that is refused, and one that is excluded. -/
def guardedFiles : List ScopedFile := [
  ⟨⟨"a.md", 8, some "md"⟩, .target, .full⟩,
  ⟨⟨"b.bin", 2, some "bin"⟩, .dependency, .skeleton⟩,
  ⟨⟨"vault/d.md", 1, some "md"⟩, .dependency, .full⟩,
  ⟨⟨"a.md/e.md", 1, some "md"⟩, .dependency, .full⟩,
  ⟨⟨"loop.md", 1, some "md"⟩, .dependency, .full⟩,
  ⟨⟨"c.md", 1, some "md"⟩, .normal, .full⟩,
  ⟨⟨".env", 1, none⟩, .normal, .excluded⟩]

/-- Two workers load what one does, and each way to fail shows in the warnings or the skipped files. -/
theorem load_accounts_sample :
    let loaded := load guardedRepository true guardedFiles guardingHost
    loadWith guardingHost 2 guardedRepository true guardedFiles = loaded ∧
    Accounts guardingHost guardedRepository true guardedFiles loaded ∧
    loaded.files.map (fun s => (s.path, s.lines, s.tokens)) =
      [("a.md", 2, some 8), ("b.bin", 0, none), ("vault/d.md", 0, none), ("a.md/e.md", 0, none),
        ("loop.md", 0, none), (".env", 0, none)] ∧
    loaded.skipped = [⟨"c.md", "unreadable: Input/output error (os error 5)"⟩] ∧
    loaded.warnings =
      ["dependency b.bin is a binary file; its content is not shown",
        "dependency vault/d.md could not be read: Permission denied (os error 13)",
        "dependency a.md/e.md could not be read: Not a directory (os error 20)",
        "dependency loop.md could not be read: Too many levels of symbolic links (os error 40)"] := by
  obtain ⟨hworkers, haccounts, -, -⟩ := load_accounts guardingHost guardedRepository true guardedFiles
  exact ⟨hworkers (.inReverse 3) 2, haccounts, by decide +kernel, by decide +kernel, by decide +kernel⟩

end RepoScope.Content
