import RepoScope.FileTree
import RepoScope.Proofs.Names

/-!
# Places in a file tree

A file tree as a file system has it is *proper*: each name in it can be the name of a file, and no
directory has a name twice (`Node.isProper`). In a proper tree the names on the way to a node say
where it stands, and following a path is tied to looking a place up:

* whatever a path leads to stands at the place that following reports (`lookup_of_follow`);
* a place that can be looked up without a link at its end is reached without following any link
  (`follow_of_lookup`), so nothing else can be read there.
-/

namespace RepoScope

mutual

/-- Whether all names below a node can be names of files, and no directory has a name twice. -/
def Node.isProper : Node → Bool
  | .file _ => true
  | .link _ => true
  | .dir entries => entries.isProper

/-- Whether all names of and below the entries can be names of files, and no directory has a name twice. -/
def Entries.isProper : Entries → Bool
  | .nil => true
  | .cons name node rest =>
    decide (Path.IsName name) && (rest.find? name).isNone && node.isProper && rest.isProper

end

namespace Entries

theorem isProper_cons {name : String} {node : Node} {rest : Entries} :
    (cons name node rest).isProper = true ↔
      Path.IsName name ∧ rest.find? name = none ∧ node.isProper = true ∧ rest.isProper = true := by
  simp [isProper, and_assoc]

/-- What proper entries hold has the name of a file and is proper itself. -/
theorem isProper_of_find? {entries : Entries} {name : String} {node : Node}
    (h : entries.isProper = true) (hfind : entries.find? name = some node) :
    Path.IsName name ∧ node.isProper = true := by
  match entries with
  | .nil => simp [find?] at hfind
  | .cons other child rest =>
    obtain ⟨hname, -, hchild, hrest⟩ := isProper_cons.mp h
    rw [find?] at hfind
    split at hfind
    · next heq =>
      subst heq
      cases hfind
      exact ⟨hname, hchild⟩
    · exact isProper_of_find? hrest hfind

end Entries

namespace Node

/-! ## Looking up

Looking a place up takes one name at a time, and never goes through a file or a link. In a proper tree a name
stands for one entry, so the names on the way determine the node.
-/

@[simp] theorem lookup_nil (node : Node) : node.lookup [] = some node := by
  cases node <;> rfl

@[simp] theorem lookup_file_cons (content : Bytes) (name : String) (rest : List String) :
    (file content).lookup (name :: rest) = none := rfl

@[simp] theorem lookup_link_cons (target name : String) (rest : List String) :
    (link target).lookup (name :: rest) = none := rfl

theorem lookup_dir_cons (entries : Entries) (name : String) (rest : List String) :
    (dir entries).lookup (name :: rest) = (entries.find? name).bind (·.lookup rest) := by
  rw [lookup]
  cases entries.find? name <;> rfl

/-- A place below another is looked up from there. -/
theorem lookup_append (node : Node) (above below : List String) :
    node.lookup (above ++ below) = (node.lookup above).bind (·.lookup below) := by
  induction above generalizing node with
  | nil => simp
  | cons name rest ih =>
    cases node with
    | file content => simp
    | link target => simp
    | dir entries =>
      rw [List.cons_append, lookup_dir_cons, lookup_dir_cons]
      cases entries.find? name with
      | none => rfl
      | some child => exact ih child

theorem lookup_concat {top : Node} {here : List String} {entries : Entries}
    (h : top.lookup here = some (dir entries)) (name : String) :
    top.lookup (here ++ [name]) = entries.find? name := by
  rw [lookup_append, h, Option.bind_some, lookup_dir_cons]
  cases entries.find? name <;> simp

/-- The names on the way to a node of a proper tree are names of files, and the node is proper. -/
theorem isProper_of_lookup {top node : Node} {place : List String} (h : top.isProper = true)
    (hl : top.lookup place = some node) :
    (∀ name ∈ place, Path.IsName name) ∧ node.isProper = true := by
  induction place generalizing top with
  | nil =>
    rw [lookup_nil, Option.some.injEq] at hl
    exact ⟨by simp, hl ▸ h⟩
  | cons name rest ih =>
    cases top with
    | file content => simp at hl
    | link target => simp at hl
    | dir entries =>
      rw [lookup_dir_cons, Option.bind_eq_some_iff] at hl
      obtain ⟨child, hfind, hrest⟩ := hl
      obtain ⟨hname, hchild⟩ := Entries.isProper_of_find? (by simpa [isProper] using h) hfind
      obtain ⟨hnames, hnode⟩ := ih hchild hrest
      exact ⟨fun n hn => (List.mem_cons.mp hn).elim (· ▸ hname) (hnames n), hnode⟩

/-- Whatever leads on from a node is a directory. -/
theorem exists_dir_of_lookup_cons {top node : Node} {here : List String} {name : String}
    {rest : List String} (h : top.lookup (here ++ name :: rest) = some node) :
    ∃ entries, top.lookup here = some (dir entries) := by
  rw [lookup_append, Option.bind_eq_some_iff] at h
  obtain ⟨hereNode, hhere, hrest⟩ := h
  cases hereNode with
  | file content => simp at hrest
  | link target => simp at hrest
  | dir entries => exact ⟨entries, hhere⟩

/-! ## Following

Following a path also goes through links, a limited number of them. Both lemmas on it are shown for the pieces of a
path first, with what a link leads to as a parameter, and then by induction on the number of links: the links in
what a link leads to are fewer.
-/

/-- If links lead to places where nodes stand, paths do. -/
theorem lookup_of_followPieces {top : Node} {onward : List String → List String → Option Place}
    (honward : ∀ here pieces place, onward here pieces = some place →
      top.lookup place.names = some place.node)
    {here pieces : List String} {place : Place}
    (h : followPieces top onward here pieces = some place) :
    top.lookup place.names = some place.node := by
  induction pieces generalizing here with
  | nil =>
    rw [followPieces, Option.map_eq_some_iff] at h
    obtain ⟨node, hnode, rfl⟩ := h
    exact hnode
  | cons piece rest ih =>
    rw [followPieces] at h
    split at h
    · split at h
      -- Nothing and `.` stay, `..` goes up, and a name leads to an entry, which may be a link.
      · exact ih h
      · split at h
        · exact ih h
        · split at h
          · cases h
          · exact honward _ _ _ h
          · exact ih h
    · cases h

theorem lookup_of_followFrom {top : Node} {links : Nat} {here pieces : List String} {place : Place}
    (h : followFrom top links here pieces = some place) :
    top.lookup place.names = some place.node := by
  -- With no link left to follow, a link leads nowhere.
  induction links generalizing here pieces place with
  | zero => exact lookup_of_followPieces (fun _ _ _ h => by cases h) h
  | succ links ih => exact lookup_of_followPieces (fun _ _ _ h => ih h) h

/-- What a path leads to stands at the place that is reported. -/
theorem lookup_of_follow {top : Node} {pieces : List String} {place : Place}
    (h : top.follow pieces = some place) : top.lookup place.names = some place.node := by
  rw [follow] at h
  split at h
  · exact lookup_of_followFrom h
  · cases h

/-- Below a directory that stands in a tree, the directory above it and the top are directories too. -/
theorem exists_dir_of_lookup_append {top : Node} {above below : List String} {entries : Entries}
    (h : top.lookup (above ++ below) = some (dir entries)) :
    ∃ entries, top.lookup above = some (dir entries) := by
  cases below with
  | nil => exact ⟨entries, by simpa using h⟩
  | cons name rest => exact exists_dir_of_lookup_cons h

/-- Whether something other than a link stands at a place. -/
def IsSettled (top : Node) (place : List String) : Prop :=
  ∀ target, top.lookup place ≠ some (link target)

theorem isSettled_of_lookup {top : Node} {place : List String} {entries : Entries}
    (h : top.lookup place = some (dir entries)) : IsSettled top place := by
  intro target hlink
  rw [h] at hlink
  cases hlink

/-- If links do not lead to links, paths from a settled place do not. -/
theorem isSettled_of_followPieces {top : Node} {onward : List String → List String → Option Place}
    (honward : ∀ here pieces place, IsSettled top here → onward here pieces = some place →
      IsSettled top place.names)
    {here pieces : List String} {place : Place} (hhere : IsSettled top here)
    (h : followPieces top onward here pieces = some place) : IsSettled top place.names := by
  induction pieces generalizing here with
  | nil =>
    rw [followPieces, Option.map_eq_some_iff] at h
    obtain ⟨node, -, rfl⟩ := h
    exact hhere
  | cons piece rest ih =>
    rw [followPieces] at h
    split at h
    · next entries hdir =>
      split at h
      · exact ih hhere h
      · split at h
        · refine ih ?_ h
          -- What stands above a directory is a directory.
          by_cases hne : here = []
          · subst hne
            exact hhere
          · rw [← List.dropLast_concat_getLast hne] at hdir
            obtain ⟨_, habove⟩ := exists_dir_of_lookup_append hdir
            exact isSettled_of_lookup habove
        · split at h
          · cases h
          · refine honward _ _ _ ?_ h
            -- The target of a link is followed from the top, or from where the link stands.
            split
            · obtain ⟨_, htop⟩ : ∃ entries, top.lookup [] = some (dir entries) :=
                exists_dir_of_lookup_append (by simpa using hdir)
              exact isSettled_of_lookup htop
            · exact hhere
          · next child hlink hchild =>
            refine ih ?_ h
            intro target htarget
            rw [lookup_concat hdir, hchild, Option.some.injEq] at htarget
            exact hlink target htarget
    · cases h

theorem isSettled_of_followFrom {top : Node} {links : Nat} {here pieces : List String}
    {place : Place} (hhere : IsSettled top here)
    (h : followFrom top links here pieces = some place) : IsSettled top place.names := by
  induction links generalizing here pieces place with
  | zero => exact isSettled_of_followPieces (fun _ _ _ _ h => by cases h) hhere h
  | succ links ih => exact isSettled_of_followPieces (fun _ _ _ hs h => ih hs h) hhere h

theorem isSettled_of_follow {top : Node} {pieces : List String} {place : Place}
    (htop : IsSettled top []) (h : top.follow pieces = some place) : IsSettled top place.names := by
  rw [follow] at h
  split at h
  · exact isSettled_of_followFrom htop h
  · cases h

/-- A place that can be looked up is reached name by name, unless a link stands there. -/
theorem followPieces_of_lookup {top node : Node} {here names : List String}
    (onward : List String → List String → Option Place) (hnames : ∀ n ∈ names, Path.IsName n)
    (hl : top.lookup (here ++ names) = some node) (hlink : ∀ target, node ≠ link target) :
    followPieces top onward here names = some ⟨here ++ names, node⟩ := by
  -- Induction on the names that are left, with those passed collected in `here`.
  induction names generalizing here with
  | nil =>
    rw [List.append_nil] at hl ⊢
    rw [followPieces, hl]
    rfl
  | cons name rest ih =>
    obtain ⟨hempty, hdot, hup, -⟩ := hnames name List.mem_cons_self
    obtain ⟨entries, hdir⟩ := exists_dir_of_lookup_cons hl
    have hnext : here ++ name :: rest = (here ++ [name]) ++ rest := by simp
    have hrest : followPieces top onward (here ++ [name]) rest
        = some ⟨(here ++ [name]) ++ rest, node⟩ :=
      ih (fun n hn => hnames n (List.mem_cons_of_mem _ hn)) (hnext ▸ hl)
    rw [hnext, lookup_append, lookup_concat hdir, Option.bind_eq_some_iff] at hl
    obtain ⟨child, hfind, hchild⟩ := hl
    rw [followPieces, hdir]
    simp only [hempty, hdot, hup, or_self, if_false, hfind]
    -- A link is no directory, and by `hlink` it does not stand at the end either.
    cases child with
    | link target =>
      cases rest with
      | nil =>
        rw [lookup_nil, Option.some.injEq] at hchild
        exact absurd hchild.symm (hlink target)
      | cons next rest => simp at hchild
    | file content => simpa using hrest
    | dir entries => simpa using hrest

theorem followFrom_of_lookup {top node : Node} {here names : List String} (links : Nat)
    (hnames : ∀ n ∈ names, Path.IsName n) (hl : top.lookup (here ++ names) = some node)
    (hlink : ∀ target, node ≠ link target) :
    followFrom top links here names = some ⟨here ++ names, node⟩ := by
  cases links with
  | zero => exact followPieces_of_lookup _ hnames hl hlink
  | succ links => exact followPieces_of_lookup _ hnames hl hlink

/-- A path that is followed to a place without links ends there. -/
theorem follow_of_lookup {top node : Node} {names : List String} {place : Place}
    (hproper : top.isProper = true) (hl : top.lookup names = some node)
    (hlink : ∀ target, node ≠ link target) (h : top.follow names = some place) :
    place = ⟨names, node⟩ := by
  rw [follow] at h
  split at h
  · have hfollow : followFrom top linkLimit [] names = some ⟨[] ++ names, node⟩ :=
      followFrom_of_lookup linkLimit (isProper_of_lookup hproper hl).1 hl hlink
    rw [hfollow, Option.some.injEq] at h
    exact h.symm
  · cases h

end Node

end RepoScope
