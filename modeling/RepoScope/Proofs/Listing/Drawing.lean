import Mathlib.Data.List.Basic
import Mathlib.Order.Basic
import RepoScope.Proofs.Listing.Forest

/-!
# The drawing of a listing

What is drawn for a list of files is told by the files alone: which entries there are, which of two siblings comes
first, and which is the last of its directory. From the top down, a directory comes before what stands below it, and
all of that before the next sibling; there is only one way to go through the entries like that (`IsTraversal.eq`). The
branches are drawn in this order (`Branch.Spans.pairwise_entriesAll`), and the text for an entry is a row (`row`): the
guides of the directories that lead to it, the connector and the label.

* **`tree_meaning`**: a tree has one row for each entry of its files, in this order, and the order in which the files
  are given makes no difference.
-/

namespace RepoScope.Listing

open Scope

/-! ## The order of entries

The order is said of files and paths alone, with no mention of branches: two entries are compared where the ways to
them part, by the two siblings there. A list of all entries in this order is unique, so that a tree is determined
by it (`IsTraversal.eq`).
-/

/-- The best of some positions of roles. -/
def best (ranks : List Nat) : Nat := ranks.foldr min Role.normal.rank

/-- A position is no later than the best one if it is no later than each of them and than that of a normal file. -/
theorem le_best_iff {ranks : List Nat} {n : Nat} : n ≤ best ranks ↔ n ≤ Role.normal.rank ∧ ∀ m ∈ ranks, n ≤ m := by
  induction ranks with
  | nil => simp [best]
  | cons m ranks ih =>
    rw [best] at ih ⊢
    rw [List.foldr_cons, Nat.le_min, ih, List.forall_mem_cons, and_left_comm]

/-- The position of the most important role of the files at or below an entry. -/
def standing (files : List ScopedFile) (e : Entry) : Nat :=
  best ((files.filter fun f => e.names.isPrefixOf (Path.pieces f.path)).map (·.role.rank))

/--
A position is no later than the standing of an entry if it is no later than that of each file at or below it and
than that of a normal file.
-/
theorem le_standing_iff {files : List ScopedFile} {e : Entry} {n : Nat} :
    n ≤ standing files e ↔
      n ≤ Role.normal.rank ∧ ∀ f ∈ files, e.names <+: Path.pieces f.path → n ≤ f.role.rank := by
  rw [standing, le_best_iff, List.forall_mem_map]
  simp only [List.mem_filter, List.isPrefixOf_iff_prefix, and_imp]

/-- Whether the one of two siblings comes before the other: by the best role, then by name. -/
def ComesFirst (files : List ScopedFile) (e e' : Entry) : Prop :=
  Earlier (standing files e) (standing files e') e.name e'.name

instance (files : List ScopedFile) (e e' : Entry) : Decidable (ComesFirst files e e') :=
  inferInstanceAs (Decidable (Earlier _ _ _ _))

/--
Whether an entry comes before another from the top down: it leads to the other, or of the two siblings that lead to them
its own comes first.
-/
def Before (files : List ScopedFile) (e e' : Entry) : Prop :=
  (e.names <+: e'.names ∧ e ≠ e') ∨
    ∃ first second : Entry, first.above = second.above ∧ ComesFirst files first second ∧
      first.names <+: e.names ∧ second.names <+: e'.names

/-- Of two siblings only one comes first. -/
theorem ComesFirst.asymm {files : List ScopedFile} {e e' : Entry} (h : ComesFirst files e e') :
    ¬ComesFirst files e' e := Earlier.asymm h

theorem ComesFirst.ne {files : List ScopedFile} {e e' : Entry} (h : ComesFirst files e e') : e ≠ e' := by
  rintro rfl
  exact h.asymm h

/-- An entry is told by the names that lead to it. -/
theorem Entry.names_injective {e e' : Entry} (h : e.names = e'.names) : e = e' := by
  obtain ⟨habove, hname⟩ := List.append_inj' h rfl
  obtain ⟨above, name⟩ := e
  obtain ⟨above', name'⟩ := e'
  obtain rfl : above = above' := habove
  obtain rfl : name = name' := List.singleton_inj.mp hname
  rfl

/-- Siblings that lead to the same path are the same. -/
theorem Entry.eq_of_names_isPrefix {e e' : Entry} (habove : e.above = e'.above) {path : List String}
    (h : e.names <+: path) (h' : e'.names <+: path) : e = e' := by
  obtain ⟨above, name⟩ := e
  obtain ⟨_, name'⟩ := e'
  obtain rfl : above = _ := habove
  obtain rfl : name = name' := eq_of_isPrefix_concat h h'
  rfl

/-- Siblings that lead to two entries part their ways no higher than others that do. -/
theorem length_above_le {first second third fourth : Entry} {path path' : List String} (hne : first ≠ second)
    (habove : first.above = second.above) (hfirst : first.names <+: path) (hsecond : second.names <+: path')
    (habove' : third.above = fourth.above) (hthird : third.names <+: path) (hfourth : fourth.names <+: path') :
    third.above.length ≤ first.above.length := by
  by_contra hlt
  have hlonger : first.above.length + 1 ≤ third.above.length := Nat.not_le.mp hlt
  have hshared : first.names <+: third.above := by
    refine List.prefix_of_prefix_length_le hfirst ((List.prefix_append _ _).trans hthird) ?_
    simpa [Entry.names] using hlonger
  have hshared' : second.names <+: third.above := by
    refine List.prefix_of_prefix_length_le hsecond (habove' ▸ (List.prefix_append _ _).trans hfourth) ?_
    simpa [Entry.names, ← habove] using hlonger
  exact hne (Entry.eq_of_names_isPrefix habove hshared hshared')

/-- No entry comes both before and after another. -/
theorem Before.asymm {files : List ScopedFile} {e e' : Entry} (h : Before files e e') : ¬Before files e' e := by
  intro h'
  rcases h with ⟨hdown, hne⟩ | ⟨first, second, habove, hcomes, hfirst, hsecond⟩ <;>
    rcases h' with ⟨hdown', -⟩ | ⟨third, fourth, habove', hcomes', hthird, hfourth⟩
  · exact hne (Entry.names_injective (hdown.eq_of_length (Nat.le_antisymm hdown.length_le hdown'.length_le)))
  · exact hcomes'.ne (Entry.eq_of_names_isPrefix habove' hthird (hfourth.trans hdown))
  · exact hcomes.ne (Entry.eq_of_names_isPrefix habove hfirst (hsecond.trans hdown'))
  · -- Both pairs of siblings stand where the two paths part, so they are the same pair.
    have hle := length_above_le hcomes.ne habove hfirst hsecond habove'.symm hfourth hthird
    have hle' := length_above_le hcomes'.ne.symm habove'.symm hfourth hthird habove hfirst hsecond
    have hlength : first.above.length = fourth.above.length := Nat.le_antisymm hle' hle
    have hsame : first = fourth := Entry.names_injective <|
      (List.prefix_of_prefix_length_le hfirst hfourth (by simp [Entry.names, hlength])).eq_of_length
        (by simp [Entry.names, hlength])
    have hsame' : second = third := Entry.names_injective <|
      (List.prefix_of_prefix_length_le hsecond hthird (by simp [Entry.names, ← habove, habove', hlength])).eq_of_length
        (by simp [Entry.names, ← habove, habove', hlength])
    exact hcomes.asymm (hsame ▸ hsame' ▸ hcomes')

theorem Before.ne {files : List ScopedFile} {e e' : Entry} (h : Before files e e') : e ≠ e' := by
  rintro rfl
  exact h.asymm h

/-- All entries of some files from the top down. -/
structure IsTraversal (files : List ScopedFile) (entries : List Entry) : Prop where
  mem_iff (e : Entry) : e ∈ entries ↔ IsEntry files e
  order : entries.Pairwise (Before files)

/-- From the top down, each entry comes once. -/
theorem IsTraversal.nodup {files : List ScopedFile} {entries : List Entry} (h : IsTraversal files entries) :
    entries.Nodup :=
  h.order.imp Before.ne

/-- There is no other way through the entries. -/
theorem IsTraversal.eq {files : List ScopedFile} {entries entries' : List Entry} (h : IsTraversal files entries)
    (h' : IsTraversal files entries') : entries = entries' :=
  Sorting.eq_of_pairwise_of_mem_iff (fun _ _ => Before.asymm) h.order h'.order fun e =>
    (h.mem_iff e).trans (h'.mem_iff e).symm

/-- Whether no sibling comes after an entry. -/
def IsLastChild (files : List ScopedFile) (e : Entry) : Prop :=
  ∀ sibling : Entry, sibling.above = e.above → IsEntry files sibling → ¬ComesFirst files e sibling

/-- The entries of a place, each once for each file at or below it. -/
def entriesOf (files : List ScopedFile) (above : List String) : List Entry :=
  files.filterMap fun f =>
    if above.isPrefixOf (Path.pieces f.path) then (Path.pieces f.path)[above.length]?.map (⟨above, ·⟩) else none

/-- The entries of a place are found among the files. -/
theorem mem_entriesOf {files : List ScopedFile} {above : List String} {e : Entry} :
    e ∈ entriesOf files above ↔ e.above = above ∧ IsEntry files e := by
  rw [entriesOf, List.mem_filterMap]
  constructor
  · rintro ⟨f, hf, hsome⟩
    rw [Option.ite_none_right_eq_some, List.isPrefixOf_iff_prefix, Option.map_eq_some_iff] at hsome
    obtain ⟨⟨rest, hrest⟩, name, hname, rfl⟩ := hsome
    rw [← hrest, List.getElem?_append_right (Nat.le_refl _), Nat.sub_self] at hname
    obtain ⟨below, rfl⟩ : ∃ below, rest = name :: below := by
      cases rest with
      | nil => cases hname
      | cons first below => exact ⟨below, by simpa using hname⟩
    exact ⟨rfl, f, hf, below, by simpa [Entry.names] using hrest⟩
  · rintro ⟨rfl, f, hf, below, hbelow⟩
    have hpath : Path.pieces f.path = e.above ++ e.name :: below := by simpa [Entry.names] using hbelow.symm
    refine ⟨f, hf, ?_⟩
    simp [hpath]

instance (files : List ScopedFile) (e : Entry) : Decidable (IsLastChild files e) :=
  decidable_of_iff (∀ sibling ∈ entriesOf files e.above, ¬ComesFirst files e sibling) <| by
    simp only [mem_entriesOf, and_imp]
    rfl

/-! ## Rows

A row is put together from what the files say of its entry: for each directory on the way a guide, which depends on
whether the directory is the last of its own, then a connector and a label.
-/

/-- The guides below a place, of the directories on the way to it. -/
def guidesFrom (files : List ScopedFile) (top : List String) : List String → String
  | [] => ""
  | name :: rest =>
    (if IsLastChild files ⟨top, name⟩ then "    " else "│   ") ++ guidesFrom files (top ++ [name]) rest

/-- The label of an entry: that of the file with its path, or that of a directory. -/
def entryLabel (files : List ScopedFile) (e : Entry) : String :=
  match files.find? fun f => Path.pieces f.path = e.names with
  | some f => fileLabel .plain f.role f.mode e.name
  | none => dirLabel .plain e.name

/-- The text for an entry. -/
def row (files : List ScopedFile) (e : Entry) : String :=
  guidesFrom files [] e.above ++ (if IsLastChild files e then "└── " else "├── ") ++ entryLabel files e

namespace Branch

/-! ## The entries of branches

The entries are listed from the branches in the order in which these are drawn. If the branches span the files,
this is the order of the entries (`pairwise_entriesAll`): siblings by induction, and all that stands below one of
them before all that stands below the next.
-/

mutual

/-- The entry of a branch with all below it, from the top down. -/
def entries (above : List String) : Branch → List Entry
  | mk name _ children => ⟨above, name⟩ :: entriesAll (above ++ [name]) children

/-- The entries of the branches of one place with all below them. -/
def entriesAll (above : List String) : List Branch → List Entry
  | [] => []
  | b :: rest => entries above b ++ entriesAll above rest

end

/-- A branch comes before what stands below it. -/
theorem entries_eq (above : List String) (b : Branch) :
    entries above b = ⟨above, b.name⟩ :: entriesAll (above ++ [b.name]) b.children := by
  cases b
  rw [entries]
  rfl

/-- Branches come with all below them, one after the other. -/
theorem entriesAll_eq_flatMap (above : List String) (branches : List Branch) :
    entriesAll above branches = branches.flatMap (entries above) := by
  induction branches with
  | nil => rfl
  | cons b rest ih => rw [entriesAll, ih, List.flatMap_cons]

/-- An entry is that of a branch, or one below it. -/
theorem mem_entriesAll_iff {above : List String} {branches : List Branch} {e : Entry} :
    e ∈ entriesAll above branches ↔
      ∃ b ∈ branches, e = ⟨above, b.name⟩ ∨ e ∈ entriesAll (above ++ [b.name]) b.children := by
  rw [entriesAll_eq_flatMap, List.mem_flatMap]
  exact exists_congr fun b => and_congr_right fun _ => by rw [entries_eq, List.mem_cons]

/-- The best role of several branches is the best of theirs. -/
theorem bestRankOf_eq_best (branches : List Branch) : bestRankOf branches = best (branches.map bestRank) := by
  induction branches with
  | nil => rfl
  | cons b rest ih =>
    rw [bestRankOf, ih]
    rfl

/-- The best role of a branch is that of its file or the best below it. -/
theorem bestRank_eq (b : Branch) :
    b.bestRank = min ((b.file.map (·.1.rank)).getD Role.normal.rank) (bestRankOf b.children) := by
  cases b
  rw [bestRank]
  rfl

namespace Spans

variable {r : Branch → Branch → Prop} {files : List ScopedFile} {above : List String}
  {branches : List Branch} {b : Branch}

/-- The entries are those of the files below the place. -/
theorem mem_entriesAll (h : Spans r files above branches) {e : Entry} :
    e ∈ entriesAll above branches ↔ above <+: e.above ∧ IsEntry files e := by
  induction h with
  | @intro above branches _ names _ _ ih =>
    rw [mem_entriesAll_iff]
    constructor
    · rintro ⟨b, hb, rfl | he⟩
      · exact ⟨List.prefix_rfl, (names b.name).mp ⟨b, hb, rfl⟩⟩
      · obtain ⟨hbelow, hentry⟩ := (ih b hb).mp he
        exact ⟨(List.prefix_append _ _).trans hbelow, hentry⟩
    · rintro ⟨⟨rest, hrest⟩, hentry⟩
      obtain ⟨f, hf, hpath⟩ := id hentry
      cases rest with
      | nil =>
        obtain ⟨eabove, ename⟩ := e
        obtain rfl : above = eabove := by simpa using hrest
        obtain ⟨b, hb, rfl⟩ := (names ename).mpr hentry
        exact ⟨b, hb, .inl rfl⟩
      | cons name rest =>
        have hbelow : above ++ [name] <+: e.above := ⟨rest, by simpa using hrest⟩
        have hname : IsEntry files ⟨above, name⟩ :=
          ⟨f, hf, hbelow.trans ((List.prefix_append _ _).trans hpath)⟩
        obtain ⟨b, hb, rfl⟩ := (names name).mpr hname
        exact ⟨b, hb, .inr ((ih b hb).mpr ⟨hbelow, hentry⟩)⟩

/-- The best role at or below a branch is that of the files at or below its entry. -/
theorem bestRank_eq_standing (h : Spans r files above branches) (hb : b ∈ branches) :
    b.bestRank = standing files ⟨above, b.name⟩ := by
  induction h generalizing b with
  | @intro above branches _ _ file children ih =>
    refine eq_of_forall_le_iff fun n => ?_
    rw [bestRank_eq, bestRankOf_eq_best, Nat.le_min, le_best_iff, List.forall_mem_map, le_standing_iff]
    constructor
    · rintro ⟨hown, hnormal, hchildren⟩
      refine ⟨hnormal, fun f hf hpath => ?_⟩
      obtain ⟨rest, hrest⟩ := hpath
      -- A file at or below the entry stands at it, or below one of the branches under it.
      cases rest with
      | nil =>
        have hfile := (file b hb (f.role, f.mode)).mpr ⟨f, hf, by simpa using hrest.symm, rfl⟩
        simpa [hfile] using hown
      | cons name rest =>
        have hpath : above ++ [b.name] ++ [name] <+: Path.pieces f.path :=
          ⟨rest, by simpa [Entry.names] using hrest⟩
        obtain ⟨c, hc, rfl⟩ := (children b hb).names.mpr ⟨f, hf, hpath⟩
        have hbelow := hchildren c hc
        rw [ih b hb hc, le_standing_iff] at hbelow
        exact hbelow.2 f hf hpath
    · rintro ⟨hnormal, hfiles⟩
      refine ⟨?_, hnormal, fun c hc => ?_⟩
      · cases hfile : b.file with
        | none => exact hnormal
        | some info =>
          obtain ⟨f, hf, hpath, rfl⟩ := (file b hb info).mp hfile
          exact hfiles f hf (hpath ▸ List.prefix_rfl)
      · rw [ih b hb hc, le_standing_iff]
        exact ⟨hnormal, fun f hf hpath => hfiles f hf ((List.prefix_append _ _).trans hpath)⟩

/-- Branches that span files are compared as their entries are. -/
theorem comesFirst_iff (h : Spans r files above branches) {c : Branch} (hb : b ∈ branches) (hc : c ∈ branches) :
    ComesFirst files ⟨above, b.name⟩ ⟨above, c.name⟩ ↔ Precedes b c := by
  rw [ComesFirst, Precedes, h.bestRank_eq_standing hb, h.bestRank_eq_standing hc]

/-- From the top down, the entries come in their order. -/
theorem pairwise_entriesAll (h : Spans Precedes files above branches) :
    (entriesAll above branches).Pairwise (Before files) := by
  induction h with
  | @intro above branches order names file children ih =>
    have h : Spans Precedes files above branches := ⟨order, names, file, children⟩
    have hbelow : ∀ b ∈ branches, ∀ e ∈ entriesAll (above ++ [b.name]) b.children, above ++ [b.name] <+: e.above :=
      fun b hb e he => ((children b hb).mem_entriesAll.mp he).1
    have hprefix : ∀ b ∈ branches, ∀ e ∈ entries above b, above ++ [b.name] <+: e.names := by
      intro b hb e he
      rw [entries_eq] at he
      rcases List.mem_cons.mp he with rfl | he
      · exact List.prefix_rfl
      · exact (hbelow b hb e he).trans (List.prefix_append _ _)
    rw [entriesAll_eq_flatMap, List.pairwise_flatMap]
    refine ⟨fun b hb => ?_, order.imp_of_mem fun {b c} hb hc hbc e he e' he' => ?_⟩
    · rw [entries_eq, List.pairwise_cons]
      refine ⟨fun e he => .inl ⟨(hbelow b hb e he).trans (List.prefix_append _ _), ?_⟩, ih b hb⟩
      rintro rfl
      exact absurd (hbelow b hb _ he).length_le (by simp)
    · exact .inr ⟨⟨above, b.name⟩, ⟨above, c.name⟩, rfl, (h.comesFirst_iff hb hc).mpr hbc,
        hprefix b hb e he, hprefix c hc e' he'⟩

/-- The last branch of a place is the one that no other stands behind. -/
theorem isLastChild_iff (h : Spans Precedes files above branches) {before rest : List Branch}
    (hsplit : branches = before ++ b :: rest) : IsLastChild files ⟨above, b.name⟩ ↔ rest = [] := by
  have hb : b ∈ branches := hsplit ▸ List.mem_append_right _ List.mem_cons_self
  obtain ⟨-, hrest, hbefore⟩ := List.pairwise_append.mp (hsplit ▸ h.order)
  constructor
  · intro hlast
    cases rest with
    | nil => rfl
    | cons c rest =>
      have hc : c ∈ branches := by simp [hsplit]
      have hbc : Precedes b c := (List.pairwise_cons.mp hrest).1 c List.mem_cons_self
      exact absurd ((h.comesFirst_iff hb hc).mpr hbc) (hlast ⟨above, c.name⟩ rfl (h.isEntry hc))
  · rintro rfl ⟨_, name⟩ rfl hentry hfirst
    obtain ⟨c, hc, rfl⟩ := h.names.mpr hentry
    have hbc := (h.comesFirst_iff hb hc).mp hfirst
    rcases List.mem_append.mp (hsplit ▸ hc) with hc | hc
    · exact (hbefore c hc b List.mem_cons_self).asymm hbc
    · obtain rfl := List.mem_singleton.mp hc
      exact hbc.asymm hbc

end Spans

end Branch

/-! ## Drawing

What is drawn carries the guides along from above, while a row puts them together from the files. They agree since
whether a branch is the last one of its place is the same as whether its entry is (`isLastChild_iff`); the
induction is over the branches, with the guides so far kept general.
-/

/-- Files with distinct paths, of which none leads through the place of another one or through a dot. -/
structure IsListable (files : List ScopedFile) : Prop where
  distinct : (files.map (·.path)).Nodup
  named : ∀ f ∈ files, ∀ name ∈ Path.pieces f.path, name ≠ "."
  apart : ∀ f ∈ files, ∀ g ∈ files, Path.pieces f.path <+: Path.pieces g.path → f = g

/-- One directory further down, there is one more guide. -/
theorem guidesFrom_concat {files : List ScopedFile} {top above : List String} {name : String} :
    guidesFrom files top (above ++ [name])
      = guidesFrom files top above ++ if IsLastChild files ⟨top ++ above, name⟩ then "    " else "│   " := by
  induction above generalizing top with
  | nil => simp [guidesFrom]
  | cons first above ih => simp [guidesFrom, ih, String.append_assoc]

namespace Branch

/-- Branches are drawn one after the other, and only the last one as such. -/
theorem drawAll_eq_flatMap {ink : Ink} {above : String} {branches : List Branch} {isLast : Branch → Bool}
    (h : ∀ before b rest, branches = before ++ b :: rest → isLast b = rest.isEmpty) :
    drawAll ink above branches = branches.flatMap fun b => draw ink above (isLast b) b := by
  induction branches with
  | nil => rfl
  | cons b rest ih =>
    rw [drawAll, List.flatMap_cons, h [] b rest rfl]
    exact congrArg _ (ih fun before c behind heq => h (b :: before) c behind (by rw [heq]; rfl))

/-- A branch is drawn as its row and what stands below it, with one more guide. -/
theorem draw_eq {ink : Ink} {above : String} {isLast : Bool} {b : Branch} (hdot : b.name ≠ ".") :
    draw ink above isLast b = (above ++ (if isLast then "└── " else "├── ") ++ label ink b) ::
      drawAll ink (above ++ if isLast then "    " else "│   ") b.children := by
  obtain ⟨name, file, children⟩ := b
  have hdot : name ≠ "." := hdot
  rw [draw, if_neg hdot, guides, if_neg hdot]
  rfl

namespace Spans

variable {files : List ScopedFile} {above : List String} {branches : List Branch} {b : Branch}

/-- No branch is named by a dot, which would be drawn without a row. -/
theorem name_ne_dot {r : Branch → Branch → Prop} (h : Spans r files above branches) (hfiles : IsListable files)
    (hb : b ∈ branches) : b.name ≠ "." := by
  obtain ⟨f, hf, hpath⟩ := h.isEntry hb
  exact hfiles.named f hf b.name (hpath.subset (by simp [Entry.names]))

/-- Nothing stands below a file. -/
theorem children_eq_nil {r : Branch → Branch → Prop} (h : Spans r files above branches) (hfiles : IsListable files)
    (hb : b ∈ branches) {file : Role × Mode} (hfile : b.file = some file) : b.children = [] := by
  obtain ⟨f, hf, hpath, -⟩ := (h.file hb).mp hfile
  refine List.eq_nil_iff_forall_not_mem.mpr fun c hc => ?_
  obtain ⟨g, hg, hbelow⟩ := (h.children hb).isEntry hc
  have hprefix : Path.pieces f.path <+: Path.pieces g.path := hpath ▸ (List.prefix_append _ _).trans hbelow
  obtain rfl := hfiles.apart f hf g hg hprefix
  exact absurd (hpath ▸ hbelow).length_le (by simp [Entry.names])

/-- The label of a branch is that of its entry. -/
theorem label_eq {r : Branch → Branch → Prop} (h : Spans r files above branches) (hfiles : IsListable files)
    (hb : b ∈ branches) : label .plain b = entryLabel files ⟨above, b.name⟩ := by
  rw [entryLabel]
  cases hfind : files.find? fun f => Path.pieces f.path = Entry.names ⟨above, b.name⟩ with
  | some f =>
    have hfile : b.file = some (f.role, f.mode) :=
      (h.file hb).mpr ⟨f, List.mem_of_find?_eq_some hfind, by simpa using List.find?_some hfind, rfl⟩
    have hchildren := h.children_eq_nil hfiles hb hfile
    obtain ⟨name, file, children⟩ := b
    obtain rfl : file = some (f.role, f.mode) := hfile
    obtain rfl : children = [] := hchildren
    rfl
  | none =>
    have hfile : b.file = none := by
      refine Option.eq_none_iff_forall_ne_some.mpr fun info hinfo => ?_
      obtain ⟨f, hf, hpath, -⟩ := (h.file hb).mp hinfo
      simpa [hpath] using List.find?_eq_none.mp hfind f hf
    obtain ⟨name, file, children⟩ := b
    obtain rfl : file = none := hfile
    rfl

/-- What is drawn for branches are the rows of their entries. -/
theorem drawAll_eq (h : Spans Precedes files above branches) (hfiles : IsListable files) :
    drawAll .plain (guidesFrom files [] above) branches = (entriesAll above branches).map (row files) := by
  induction h with
  | @intro above branches order names file children ih =>
    have h : Spans Precedes files above branches := ⟨order, names, file, children⟩
    have hlast : ∀ before b rest, branches = before ++ b :: rest →
        decide (IsLastChild files ⟨above, b.name⟩) = rest.isEmpty := by
      intro before b rest hsplit
      rw [Bool.eq_iff_iff, decide_eq_true_iff, h.isLastChild_iff hsplit, List.isEmpty_iff]
    rw [drawAll_eq_flatMap hlast, entriesAll_eq_flatMap, List.map_flatMap]
    refine List.flatMap_congr fun b hb => ?_
    have hbelow := ih b hb
    rw [guidesFrom_concat, List.nil_append] at hbelow
    rw [draw_eq (h.name_ne_dot hfiles hb), entries_eq, List.map_cons, row, h.label_eq hfiles hb]
    simp only [decide_eq_true_eq]
    rw [hbelow]

end Spans

end Branch

/--
The tree of some files consists of one row for each entry, that is, for each file and for each directory on the way to
one. There is one order in which they can come: an entry before those below it, and siblings by the best role at or
below them and then by name. The order of the files makes no difference.
-/
theorem tree_meaning {files : List ScopedFile} (hfiles : IsListable files) :
    ∃ entries : List Entry, IsTraversal files entries ∧ entries.Nodup ∧
      (∀ other, IsTraversal files other → other = entries) ∧
      tree .plain files = unlines (entries.map (row files)) ∧
      ∀ files' : List ScopedFile, files'.Perm files → tree .plain files' = tree .plain files := by
  have h := Branch.spans_ofFiles hfiles.distinct
  have htraversal : IsTraversal files (Branch.entriesAll [] (Branch.ofFiles files)) :=
    { mem_iff := fun e => by rw [h.mem_entriesAll, and_iff_right List.nil_prefix]
      order := h.pairwise_entriesAll }
  refine ⟨_, htraversal, htraversal.nodup, fun other hother => hother.eq htraversal,
    congrArg unlines (h.drawAll_eq hfiles), fun files' hperm => ?_⟩
  rw [tree, tree, Branch.ofFiles_perm hfiles.distinct hperm]

/-- Files of two directories, of which the inner one holds the target. -/
def sampleFiles : List ScopedFile :=
  [⟨⟨"a/x.md", 0, some "md"⟩, .normal, .full⟩, ⟨⟨"b.md", 0, some "md"⟩, .config, .full⟩,
    ⟨⟨"a/src/t.rs", 0, some "rs"⟩, .target, .skeleton⟩]

/-- A tree of three files, with its rows and their order, and the same tree for the files in reverse. -/
theorem tree_meaning_sample :
    ∃ entries : List Entry, IsTraversal sampleFiles entries ∧ ⟨["a"], "src"⟩ ∈ entries ∧
      unlines (entries.map (row sampleFiles))
        = "├── a/\n│   ├── src/\n│   │   └── [target]     t.rs (skeleton)\n│   └── [normal]     x.md\n" ++
          "└── [config]     b.md\n" ∧
      tree .plain sampleFiles.reverse = tree .plain sampleFiles := by
  have hfiles : IsListable sampleFiles := ⟨by decide +kernel, by decide +kernel, by decide +kernel⟩
  obtain ⟨entries, htraversal, -, -, htree, hperm⟩ := tree_meaning hfiles
  refine ⟨entries, htraversal, (htraversal.mem_iff _).mpr ?_, htree ▸ ?_, hperm _ (List.reverse_perm _)⟩
  · exact ⟨sampleFiles[2], by decide, by decide +kernel⟩
  · decide +kernel

end RepoScope.Listing
