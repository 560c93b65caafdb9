import RepoScope.Proofs.Access
import RepoScope.Proofs.Location

/-!
# Trees that agree apart from secrets

Two trees agree below a root (`AgreeBelow`) if the same names lead to nodes of the same kind everywhere,
links have the same targets, and files have the same bytes unless their paths, as seen from the root, are
secrets. Paths then lead to the same places (`follow_names`), and whatever access a program has, it reaches the
same places and fails for the same reasons (`reach_names`). So a walk of the root lists the same candidates
(`StandsOn.candidates?_agree`): the sizes of secrets are never asked for.
-/

namespace RepoScope

/-- Whether a place is that of a secret below the root. -/
def IsSecretPlace (root place : List String) : Prop :=
  ∃ names, place = root ++ names ∧ Secret.isSensitive (Path.join names) = true

namespace Node

/-- What may stand at the same place of two trees, of which the bytes of files may differ or not. -/
inductive Alike (mayDiffer : Prop) : Option Node → Option Node → Prop
  | nothing : Alike mayDiffer none none
  | link (target : String) : Alike mayDiffer (some (.link target)) (some (.link target))
  | dir (entries entries' : Entries) : Alike mayDiffer (some (.dir entries)) (some (.dir entries'))
  | file (content content' : Bytes) (h : mayDiffer ∨ content = content') :
      Alike mayDiffer (some (.file content)) (some (.file content'))

/-- Whether two trees differ at most in the bytes of secrets below the root. -/
def AgreeBelow (root : List String) (top top' : Node) : Prop :=
  ∀ place, Alike (IsSecretPlace root place) (top.lookup place) (top'.lookup place)

theorem Alike.symm {mayDiffer : Prop} {node node' : Option Node} (h : Alike mayDiffer node node') :
    Alike mayDiffer node' node := by
  cases h with
  | nothing => exact .nothing
  | link target => exact .link target
  | dir entries entries' => exact .dir entries' entries
  | file content content' h => exact .file content' content (h.imp_right Eq.symm)

theorem AgreeBelow.symm {root : List String} {top top' : Node} (h : AgreeBelow root top top') :
    AgreeBelow root top' top :=
  fun place => (h place).symm

/-! ## Agreement node by node

For trees that are given in full, agreement is checked along their nodes. This is how the samples are seen to
agree.
-/

/-- Whether what stands at and below `here` in two trees differs at most in the bytes of secrets. -/
def AgreeAt (root here : List String) (node node' : Node) : Prop :=
  ∀ place, Alike (IsSecretPlace root (here ++ place)) (node.lookup place) (node'.lookup place)

/-- Trees that agree from the top agree below the root. -/
theorem AgreeAt.agreeBelow {root : List String} {top top' : Node} (h : AgreeAt root [] top top') :
    AgreeBelow root top top' := h

/-- Every tree agrees with itself. -/
theorem AgreeAt.refl (root here : List String) (node : Node) : AgreeAt root here node node := by
  intro place
  cases node.lookup place with
  | none => exact .nothing
  | some node =>
    cases node with
    | file content => exact .file content content (.inr rfl)
    | link target => exact .link target
    | dir entries => exact .dir entries entries

/-- A secret agrees with every other content. -/
theorem AgreeAt.secret {root names : List String} (h : Secret.isSensitive (Path.join names) = true)
    (content content' : Bytes) : AgreeAt root (root ++ names) (file content) (file content') := by
  intro place
  cases place with
  | nil =>
    rw [List.append_nil]
    exact .file content content' (.inl ⟨names, rfl, h⟩)
  | cons name rest => exact .nothing

/-- Directories agree entry by entry. -/
theorem AgreeAt.cons {root here : List String} {name : String} {node node' : Node}
    {rest rest' : Entries} (hnode : AgreeAt root (here ++ [name]) node node')
    (hrest : AgreeAt root here (dir rest) (dir rest')) :
    AgreeAt root here (dir (.cons name node rest)) (dir (.cons name node' rest')) := by
  intro place
  cases place with
  | nil => exact .dir _ _
  | cons first below =>
    have hbelow := hrest (first :: below)
    rw [lookup_dir_cons, lookup_dir_cons] at hbelow ⊢
    rw [Entries.find?, Entries.find?]
    split
    · next heq =>
      subst heq
      have halike := hnode below
      rw [List.append_assoc] at halike
      exact halike
    · exact hbelow

/-! ## Following in two trees

Following a path looks at names, at the kinds of nodes and at the targets of links, and at nothing else of the two
trees. So it takes the same way in both. What it ends at may be a file with other bytes, if this is a secret.
-/

/-- The entries of two directories at the same place are alike, name by name. -/
theorem AgreeBelow.find? {root : List String} {top top' : Node} (h : AgreeBelow root top top')
    {here : List String} {entries entries' : Entries} (hdir : top.lookup here = some (dir entries))
    (hdir' : top'.lookup here = some (dir entries')) (name : String) :
    Alike (IsSecretPlace root (here ++ [name])) (entries.find? name) (entries'.find? name) := by
  have halike := h (here ++ [name])
  rw [lookup_concat hdir, lookup_concat hdir'] at halike
  exact halike

/--
If links lead to the same places in both trees, or fail for the same reason, paths do. The access is to both trees,
so it is the same directories that may be entered.
-/
theorem reachPieces_names {access : Access} {root : List String} {top top' : Node}
    (h : AgreeBelow root top top') {onward onward' : List String → List String → Except ReadError Place}
    (honward : ∀ here pieces,
      (onward here pieces).map (·.names) = (onward' here pieces).map (·.names))
    (here pieces : List String) :
    (reachPieces access top onward here pieces).map (·.names)
      = (reachPieces access top' onward' here pieces).map (·.names) := by
  induction pieces generalizing here with
  | nil =>
    have halike := h here
    rw [reachPieces, reachPieces]
    generalize top.lookup here = node, top'.lookup here = node' at halike
    cases halike <;> rfl
  | cons piece rest ih =>
    have halike := h here
    rw [reachPieces, reachPieces]
    generalize hnode : top.lookup here = node at halike
    generalize hnode' : top'.lookup here = node' at halike
    -- Only a directory leads on, and then the other tree has a directory here too.
    cases halike with
    | nothing => rfl
    | link target => rfl
    | file content content' _ => rfl
    | dir entries entries' =>
      simp only []
      split
      · exact ih here
      · split
        · rfl
        · split
          · exact ih here
          · split
            · exact ih here.dropLast
            · have hfind := h.find? hnode hnode' piece
              generalize entries.find? piece = child, entries'.find? piece = child' at hfind
              cases hfind with
              | nothing => rfl
              | link target => exact honward _ _
              | file content content' _ => exact ih _
              | dir inner inner' => exact ih _

theorem reachFrom_names {access : Access} {root : List String} {top top' : Node}
    (h : AgreeBelow root top top') (links : Nat) (here pieces : List String) :
    (reachFrom access top links here pieces).map (·.names)
      = (reachFrom access top' links here pieces).map (·.names) := by
  induction links generalizing here pieces with
  | zero => exact reachPieces_names h (fun _ _ => rfl) here pieces
  | succ links ih => exact reachPieces_names h ih here pieces

/-- A path reaches the same place in both trees, or fails for the same reason. -/
theorem reach_names (access : Access) {root : List String} {top top' : Node}
    (h : AgreeBelow root top top') (pieces : List String) :
    (top.reach access pieces).map (·.names) = (top'.reach access pieces).map (·.names) := by
  rw [reach, reach]
  split
  · rfl
  · split
    · exact reachFrom_names h linkLimit [] pieces
    · rfl

/-- Following is reaching with access to everything, so it leads to the same places too. -/
theorem followFrom_names {root : List String} {top top' : Node} (h : AgreeBelow root top top')
    (links : Nat) (here pieces : List String) :
    (followFrom top links here pieces).map (·.names)
      = (followFrom top' links here pieces).map (·.names) := by
  have htoOption (reached : Except ReadError Place) :
      (reached.map (·.names)).toOption = reached.toOption.map (·.names) := by
    cases reached <;> rfl
  rw [← toOption_reachFrom, ← toOption_reachFrom, ← htoOption, ← htoOption, reachFrom_names h]

/-- A path leads to the same place in both trees. -/
theorem follow_names {root : List String} {top top' : Node} (h : AgreeBelow root top top')
    (pieces : List String) :
    (top.follow pieces).map (·.names) = (top'.follow pieces).map (·.names) := by
  rw [follow, follow]
  split
  · exact followFrom_names h linkLimit [] pieces
  · rfl

namespace AgreeBelow

variable {root : List String} {top top' : Node} (h : AgreeBelow root top top')

include h

/-- A path that leads nowhere in one tree leads nowhere in the other. -/
theorem follow_eq_none {pieces : List String} (hnone : top.follow pieces = none) :
    top'.follow pieces = none := by
  have hnames := follow_names h pieces
  rw [hnone, Option.map_none, eq_comm, Option.map_eq_none_iff] at hnames
  exact hnames

/-- Where a path leads in one tree, it leads in the other, to something alike. -/
theorem follow_alike {pieces : List String} {place : Place} (hfollow : top.follow pieces = some place) :
    ∃ node', top'.follow pieces = some ⟨place.names, node'⟩ ∧
      Alike (IsSecretPlace root place.names) (some place.node) (some node') := by
  have hnames := follow_names h pieces
  rw [hfollow, Option.map_some, eq_comm, Option.map_eq_some_iff] at hnames
  obtain ⟨place', hfollow', hplace⟩ := hnames
  refine ⟨place'.node, by rw [hfollow', ← hplace], ?_⟩
  have halike := h place.names
  rw [lookup_of_follow hfollow, ← hplace, lookup_of_follow hfollow'] at halike
  rw [← hplace]
  exact halike

/-- A path that leads to the same in both trees is reached alike, or fails for the same reason. -/
theorem reach_eq (access : Access) {pieces : List String}
    (hfollow : top.follow pieces = top'.follow pieces) :
    top.reach access pieces = top'.reach access pieces := by
  have hnames := reach_names access h pieces
  cases hreach : top.reach access pieces with
  | error e =>
    cases hreach' : top'.reach access pieces with
    | error e' =>
      rw [hreach, hreach'] at hnames
      cases hnames
      rfl
    | ok place' =>
      rw [hreach, hreach'] at hnames
      cases hnames
  | ok place =>
    cases hreach' : top'.reach access pieces with
    | error e' =>
      rw [hreach, hreach'] at hnames
      cases hnames
    | ok place' =>
      rw [follow_of_reach hreach, follow_of_reach hreach', Option.some.injEq] at hfollow
      rw [hfollow]

/-- A path that leads to a directory leads to the same directory in the other tree. -/
theorem follow_dir {pieces names : List String} {entries : Entries}
    (hfollow : top.follow pieces = some ⟨names, .dir entries⟩) :
    ∃ entries', top'.follow pieces = some ⟨names, .dir entries'⟩ := by
  obtain ⟨node', hfollow', halike⟩ := h.follow_alike hfollow
  cases halike with
  | dir entries entries' => exact ⟨entries', hfollow'⟩

/--
A path that leads to a file leads to the same file in the other tree, with the same bytes unless it is a secret.
-/
theorem follow_file {pieces names : List String} {content : Bytes}
    (hfollow : top.follow pieces = some ⟨names, .file content⟩) :
    ∃ content', top'.follow pieces = some ⟨names, .file content'⟩ ∧
      (IsSecretPlace root names ∨ content = content') := by
  obtain ⟨node', hfollow', halike⟩ := h.follow_alike hfollow
  cases halike with
  | file content content' hsame => exact ⟨content', hfollow', hsame⟩

end AgreeBelow

end Node

/-! ## Walks of two trees

The walk enters the same directories in both trees, and asks files for their sizes only after it has admitted them,
so not those of secrets.
-/

theorem not_isSecretPlace {root names : List String}
    (h : Secret.isSensitive (Path.join names) = false) : ¬IsSecretPlace root (root ++ names) := by
  rintro ⟨names', heq, hsecret⟩
  rw [List.append_cancel_left_eq] at heq
  rw [← heq, h] at hsecret
  cases hsecret

namespace Context

variable {ctx : Context} {disk disk' : Disk}

/-- A context is open on both of two trees that agree. -/
theorem IsOpenOn.agree (hopen : ctx.IsOpenOn disk)
    (h : Node.AgreeBelow ctx.root disk.top disk'.top) : ctx.IsOpenOn disk' := by
  obtain ⟨pieces, place, hfollow, hroot⟩ := hopen
  obtain ⟨node', hfollow', -⟩ := h.follow_alike hfollow
  exact ⟨pieces, ⟨place.names, node'⟩, hfollow', hroot⟩

variable {entries entries' : Entries}

/-- A file that is no secret stands in both of two trees that agree. -/
theorem StandsOn.lookup_file_agree (h : Node.AgreeBelow ctx.root disk.top disk'.top)
    (hstands : ctx.StandsOn disk entries) (hstands' : ctx.StandsOn disk' entries')
    {names : List String} {content : Bytes} (hsecret : Secret.isSensitive (Path.join names) = false)
    (hl : (Node.dir entries).lookup names = some (.file content)) :
    (Node.dir entries').lookup names = some (.file content) := by
  have halike := h (ctx.root ++ names)
  rw [hstands.lookup_below, hstands'.lookup_below, hl] at halike
  generalize (Node.dir entries').lookup names = node' at halike ⊢
  cases halike with
  | file content content' hsame =>
    rw [hsame.resolve_left (not_isSecretPlace hsecret)]

/-- The walk lists the same candidates in two trees that agree. -/
theorem StandsOn.candidates?_agree (h : Node.AgreeBelow ctx.root disk.top disk'.top)
    (hstands : ctx.StandsOn disk entries) (hstands' : ctx.StandsOn disk' entries') :
    Walk.candidates? disk.top ctx.root ctx.policy
      = Walk.candidates? disk'.top ctx.root ctx.policy := by
  have hwalk := Walk.candidates?_eq_some ctx.policy hstands.follow_root
  have hwalk' := Walk.candidates?_eq_some ctx.policy hstands'.follow_root
  rw [hwalk, hwalk', Option.some.injEq]
  -- Both lists are strictly in order, so it is enough that they have the same members.
  refine Sorting.eq_of_mem_iff
    (Walk.pairwise_candidates? hstands.follow_root hstands.isProper_entries hwalk)
    (Walk.pairwise_candidates? hstands'.follow_root hstands'.isProper_entries hwalk') fun c => ?_
  rw [Walk.mem_candidates? hstands.follow_root hstands.isProper_entries hwalk,
    Walk.mem_candidates? hstands'.follow_root hstands'.isProper_entries hwalk',
    Walk.isListed_root_iff hstands.isProper_entries,
    Walk.isListed_root_iff hstands'.isProper_entries]
  constructor
  · rintro ⟨names, content, hl, rfl, hsecret, hignored⟩
    exact ⟨names, content, hstands.lookup_file_agree h hstands' hsecret hl, rfl, hsecret, hignored⟩
  · rintro ⟨names, content, hl, rfl, hsecret, hignored⟩
    exact ⟨names, content, hstands'.lookup_file_agree h.symm hstands hsecret hl, rfl, hsecret,
      hignored⟩

/-- The path of a candidate leads to the same in two trees that agree. -/
theorem StandsOn.follow_candidate_agree (h : Node.AgreeBelow ctx.root disk.top disk'.top)
    (hstands : ctx.StandsOn disk entries) {candidates : List Candidate}
    (hwalk : Walk.candidates? disk.top ctx.root ctx.policy = some candidates) {c : Candidate}
    (hc : c ∈ candidates) :
    (ctx.repository disk).follow c.path = (ctx.repository disk').follow c.path := by
  obtain ⟨names, content, hl, hc, hsecret⟩ := hstands.exists_of_mem_candidates? hwalk hc
  have hpath : c.path = Path.join names := congrArg Candidate.path hc
  rw [hpath] at hsecret ⊢
  cases hfollow : (ctx.repository disk).follow (Path.join names) with
  | none => exact (h.follow_eq_none hfollow).symm
  | some place =>
    have hplace := hstands.follow_file hl hfollow
    subst hplace
    obtain ⟨content', hfollow', hsame⟩ := h.follow_file hfollow
    rw [← hsame.resolve_left (not_isSecretPlace hsecret)] at hfollow'
    exact hfollow'.symm

end Context

end RepoScope
