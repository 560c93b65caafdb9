import Mathlib.Algebra.Order.BigOperators.Group.List
import Mathlib.Algebra.Order.Ring.Nat
import RepoScope.GuardRail
import RepoScope.Proofs.Agreement

/-!
# Pins and secrets

Pins are read from the manifests at the root by their names, and a path is followed through links. So secrets show
in the pins if and only if one of these names leads to a secret (`pins_keepSecrets_iff`). If none does, trees that
differ in the bytes of secrets alone have the same pins. If one does, the bytes of this secret decide whether the
manifest has any pins at all: without bytes it has none, and for each manifest there are bytes with which it has
some (`exists_contentPins_ne_nil`).

A link named like a manifest is enough (`exists_pins_reveal`).
-/

namespace RepoScope

/-! ## Trees with one file replaced

To show that a secret decides something, its bytes are replaced and nothing else. The tree with one file replaced
is built by insertion at the place of the file, and every other lookup is the same.
-/

theorem Entries.find?_insert (entries : Entries) (name : String) (node : Node) (other : String) :
    (entries.insert name node).find? other = if name = other then some node else entries.find? other := by
  match entries with
  | .nil => rfl
  | .cons first old rest =>
    have ih := Entries.find?_insert rest name node other
    rw [insert]
    split
    · next heq =>
      subst heq
      rw [find?, find?]
      split <;> rfl
    · next hne =>
      rw [find?, find?, ih]
      split
      · next heq =>
        subst heq
        rw [if_neg fun h => hne h.symm]
      · rfl

namespace Node

theorem Alike.mono {P Q : Prop} {node node' : Option Node} (h : Alike P node node') (himp : P → Q) :
    Alike Q node node' := by
  cases h with
  | nothing => exact .nothing
  | link target => exact .link target
  | dir entries entries' => exact .dir entries entries'
  | file content content' h => exact .file content content' (h.imp_left himp)

theorem Alike.refl (P : Prop) (node : Option Node) : Alike P node node := by
  cases node with
  | none => exact .nothing
  | some node =>
    cases node with
    | file content => exact .file content content (.inr rfl)
    | link target => exact .link target
    | dir entries => exact .dir entries entries

theorem lookup_insert_self (top : Node) (place : List String) (new : Node) :
    (top.insert place new).lookup place = some new := by
  induction place generalizing top with
  | nil => rw [insert, lookup_nil]
  | cons name rest ih =>
    -- What is no directory is replaced by one.
    have hmade : (dir (.cons name (insert emptyDir rest new) .nil)).lookup (name :: rest) = some new := by
      rw [lookup_dir_cons, Entries.find?, if_pos rfl, Option.bind_some, ih]
    cases top with
    | dir entries => rw [insert, lookup_dir_cons, Entries.find?_insert, if_pos rfl, Option.bind_some, ih]
    | file content => exact hmade
    | link target => exact hmade

/-- Replacing a file changes nothing but its bytes. -/
theorem alike_insert_file {top : Node} {place : List String} {old : Bytes}
    (h : top.lookup place = some (file old)) (new : Bytes) (other : List String) :
    Alike (other = place) (top.lookup other) ((top.insert place (file new)).lookup other) := by
  induction place generalizing top other with
  | nil =>
    rw [lookup_nil, Option.some.injEq] at h
    subst h
    cases other with
    | nil => exact .file old new (.inl rfl)
    | cons name rest => exact .nothing
  | cons name rest ih =>
    cases top with
    | file content => simp at h
    | link target => simp at h
    | dir entries =>
      rw [lookup_dir_cons, Option.bind_eq_some_iff] at h
      obtain ⟨child, hchild, hold⟩ := h
      rw [insert, hchild, Option.getD_some]
      cases other with
      | nil => exact .dir _ _
      | cons first below =>
        rw [lookup_dir_cons, lookup_dir_cons, Entries.find?_insert]
        by_cases hname : name = first
        · subst hname
          rw [if_pos rfl, hchild]
          exact (ih hold below).mono fun heq => by rw [heq]
        · rw [if_neg hname]
          exact .refl _ _

variable {root place : List String} {top : Node} {old : Bytes}

theorem agreeBelow_insert_secret (hplace : IsSecretPlace root place) (h : top.lookup place = some (file old))
    (new : Bytes) : AgreeBelow root top (top.insert place (file new)) :=
  fun other => (alike_insert_file h new other).mono fun heq => heq ▸ hplace

/-- When the bytes of a secret are replaced, the new ones are read where a path leads to it, and nowhere else. -/
theorem read?_insert_secret (hplace : IsSecretPlace root place) (h : top.lookup place = some (file old))
    (new : Bytes) (pieces : List String) :
    (top.insert place (file new)).read? pieces =
      if (top.follow pieces).map (·.names) = some place then some new else top.read? pieces := by
  have hagree := agreeBelow_insert_secret hplace h new
  rw [read?, read?]
  cases hfollow : top.follow pieces with
  | none => rw [hagree.follow_eq_none hfollow, if_neg (by simp)]
  | some found =>
    obtain ⟨names, node⟩ := found
    obtain ⟨node', hfollow', -⟩ := hagree.follow_alike hfollow
    have halike := alike_insert_file h new names
    have hlookup := lookup_of_follow hfollow
    have hlookup' := lookup_of_follow hfollow'
    simp only at hlookup hlookup' halike
    rw [hfollow']
    simp only [Option.map_some, Option.some.injEq]
    -- The path leads to the same place in both trees: to the secret itself, or to something that has not been
    -- replaced.
    by_cases hnames : names = place
    · rw [hnames, lookup_insert_self, Option.some.injEq] at hlookup'
      rw [if_pos hnames, ← hlookup']
    · rw [hlookup, hlookup'] at halike
      rw [if_neg hnames]
      cases halike with
      | link target => rfl
      | dir entries entries' => rfl
      | file content content' hsame => rw [hsame.resolve_left hnames]

end Node

/-! ## Pins

The pins of the manifests stand one behind the other, each list computed from the bytes of one file. If all lists
are to keep their lengths together, each has to; with no bytes a manifest has no pins, and with some it has one, so
a single secret among the manifests makes the total grow.
-/

namespace GuardRail

/-- The manifests that have pins, with what reads these from their texts. -/
def manifests : List (String × (List Char → List String)) := [
  ("package.json", packagePins),
  ("requirements.txt", fun text => (Text.lines text).flatMap requirementPins),
  ("pyproject.toml", projectPins),
  ("Cargo.toml", cratePins)]

/-- The pins of the bytes of a manifest, if there are any. -/
def contentPins (read : List Char → List String) (content : Option Bytes) : List String :=
  ((content.bind Text.decode?).map read).getD []

/-- The pins of a repository are those of its manifests. -/
theorem pins_eq_flatMap (repo : Repository) :
    pins repo = manifests.flatMap fun m => contentPins m.2 (repo.read? m.1) := by
  simp only [manifests, List.flatMap_cons, List.flatMap_nil, List.append_nil, ← List.append_assoc]
  rfl

/-- Without bytes, a manifest has no pins. -/
theorem contentPins_nil : ∀ m ∈ manifests, contentPins m.2 (some []) = [] := by
  simp only [manifests, List.forall_mem_cons]
  exact ⟨by decide +kernel, by decide +kernel, by decide +kernel, by decide +kernel, by simp⟩

/-- Every manifest can have pins. -/
theorem exists_contentPins_ne_nil : ∀ m ∈ manifests, ∃ content, contentPins m.2 (some content) ≠ [] := by
  simp only [manifests, List.forall_mem_cons]
  exact ⟨⟨Text.encode "\x7b\"dependencies\": \x7b\"react\": \"18.2.0\"\x7d\x7d".toList, by decide +kernel⟩,
    ⟨Text.encode "flask==3.0\n".toList, by decide +kernel⟩,
    ⟨Text.encode "requires-python = \"3.11\"\n".toList, by decide +kernel⟩,
    ⟨Text.encode "[package]\nedition = \"2021\"\n".toList, by decide +kernel⟩, by simp⟩

/-- Whether no change of the bytes of secrets changes the pins. -/
def KeepsSecrets (repo : Repository) : Prop :=
  ∀ disk' : Disk, Node.AgreeBelow repo.root repo.disk.top disk'.top → pins ⟨disk', repo.root⟩ = pins repo

/-- Whether the path of a manifest leads to a secret. -/
def LeadsToSecret (repo : Repository) (path : String) : Prop :=
  ∃ place content, repo.follow path = some ⟨place, .file content⟩ ∧ IsSecretPlace repo.root place

/-- A manifest that leads to no secret is read alike in trees that agree. -/
theorem read?_congr {repo : Repository} {path : String} (hpath : ¬LeadsToSecret repo path) {disk' : Disk}
    (h : Node.AgreeBelow repo.root repo.disk.top disk'.top) :
    (⟨disk', repo.root⟩ : Repository).read? path = repo.read? path := by
  rw [Repository.read?, Repository.read?, Node.read?, Node.read?]
  cases hfollow : repo.disk.top.follow (Path.piecesFrom repo.root path) with
  | none => rw [h.follow_eq_none hfollow]
  | some found =>
    obtain ⟨names, node⟩ := found
    obtain ⟨node', hfollow', halike⟩ := h.follow_alike hfollow
    rw [hfollow']
    cases halike with
    | link target => rfl
    | dir entries entries' => rfl
    | file content content' hsame =>
      rcases hsame with hsecret | rfl
      · exact absurd ⟨names, content, hfollow, hsecret⟩ hpath
      · rfl

/-- With bytes in place of none in a secret that a manifest leads to, there are more pins. -/
theorem length_pins_lt {repo : Repository} {place : List String} {old new : Bytes}
    (hplace : IsSecretPlace repo.root place) (hold : repo.disk.top.lookup place = some (.file old))
    {m : String × (List Char → List String)} (hm : m ∈ manifests)
    (hfollow : repo.follow m.1 = some ⟨place, .file old⟩) (hnew : contentPins m.2 (some new) ≠ []) :
    (pins ⟨⟨repo.disk.top.insert place (.file []), repo.disk.home⟩, repo.root⟩).length <
      (pins ⟨⟨repo.disk.top.insert place (.file new), repo.disk.home⟩, repo.root⟩).length := by
  -- A manifest is read as the new bytes if it leads to the secret too, and as before if not.
  have hread : ∀ (bytes : Bytes) (path : String),
      (⟨⟨repo.disk.top.insert place (.file bytes), repo.disk.home⟩, repo.root⟩ : Repository).read? path =
        if (repo.follow path).map (·.names) = some place then some bytes else repo.read? path :=
    fun bytes path => Node.read?_insert_secret hplace hold bytes _
  rw [pins_eq_flatMap, pins_eq_flatMap, List.length_flatMap, List.length_flatMap]
  refine List.sum_lt_sum _ _ (fun other hother => ?_) ⟨m, hm, ?_⟩
  · rw [hread, hread]
    split
    · rw [contentPins_nil other hother]
      exact Nat.zero_le _
    · exact Nat.le_refl _
  · rw [hread, hread, hfollow, Option.map_some, if_pos rfl, if_pos rfl, contentPins_nil m hm]
    exact List.length_pos_iff.mpr hnew

/-- The pins keep secrets if and only if no manifest leads to one. -/
theorem pins_keepSecrets_iff (repo : Repository) :
    KeepsSecrets repo ↔ ∀ m ∈ manifests, ¬LeadsToSecret repo m.1 := by
  constructor
  · rintro hkeeps m hm ⟨place, old, hfollow, hplace⟩
    have hold : repo.disk.top.lookup place = some (.file old) := Node.lookup_of_follow hfollow
    obtain ⟨new, hnew⟩ := exists_contentPins_ne_nil m hm
    have hlt := length_pins_lt hplace hold hm hfollow hnew
    -- Whatever bytes the secret has, the pins would be those of the repository.
    have hsame : ∀ bytes,
        pins ⟨⟨repo.disk.top.insert place (.file bytes), repo.disk.home⟩, repo.root⟩ = pins repo :=
      fun bytes => hkeeps _ (Node.agreeBelow_insert_secret hplace hold bytes)
    rw [hsame, hsame] at hlt
    exact absurd hlt (Nat.lt_irrefl _)
  · intro hnone disk' hagree
    rw [pins_eq_flatMap, pins_eq_flatMap]
    refine List.flatMap_congr fun m hm => ?_
    exact congrArg (contentPins m.2) (read?_congr (hnone m hm) hagree)

/-- A repository whose requirements are a link to its environment file. -/
def linkedTop (environment : Bytes) : Node :=
  .dir (.cons "repo" (.dir (.cons "requirements.txt" (.link ".env")
    (.cons ".env" (.file environment) .nil))) .nil)

/-- A line of a secret is a pin, and there is none when the secret is empty. -/
theorem exists_pins_reveal :
    ∃ disk disk' : Disk, Node.AgreeBelow ["repo"] disk.top disk'.top ∧
      pins ⟨disk, ["repo"]⟩ = ["Framework (Django): DJANGO_SECRET_KEY=abc123"] ∧
      pins ⟨disk', ["repo"]⟩ = [] := by
  refine ⟨⟨linkedTop (Text.encode "DJANGO_SECRET_KEY=abc123\n".toList), none⟩, ⟨linkedTop [], none⟩,
    Node.AgreeAt.agreeBelow (.cons ?_ (.refl _ _ _)), by decide +kernel, by decide +kernel⟩
  have hsecret : Secret.isSensitive (Path.join [".env"]) = true := by decide +kernel
  exact .cons (.refl _ _ _) (.cons (.secret hsecret _ _) (.refl _ _ _))

end GuardRail

end RepoScope
