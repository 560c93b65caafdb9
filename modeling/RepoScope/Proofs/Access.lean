import RepoScope.Access
import RepoScope.Proofs.FileTree

/-!
# What can be reached

Reaching a path is following it with the failures told apart: at each piece of the path both do the same, but for the
test whether the directory may be entered (`agrees_reachPieces`). This is shown under the assumption that it holds where
a link leads on, and then by induction on the number of links that may still be followed (`agrees_reachFrom`).

So what is reached is what the path leads to, whatever access a program has (`follow_of_reach`), and with access to
everything nothing that the path leads to stays out of reach (`reach_of_follow`): the bytes of every regular file can
be read (`readFile_full_eq_ok_iff`).
-/

namespace RepoScope

namespace Node

variable {access : Access} {top : Node} {place : Place}

/--
How reaching stands to following: both come to the same place or to none, unless the program is denied a directory
that is closed to it.
-/
def Access.Agrees (access : Access) (reached : Except ReadError Place) (followed : Option Place) : Prop :=
  reached.toOption = followed ∨ (∃ here, access.enters here = false) ∧ reached = .error .denied

/-- If links are reached where they lead or denied, paths are. -/
theorem agrees_reachPieces {onward : List String → List String → Option Place}
    {onward' : List String → List String → Except ReadError Place}
    (honward : ∀ here pieces, access.Agrees (onward' here pieces) (onward here pieces))
    (here pieces : List String) :
    access.Agrees (reachPieces access top onward' here pieces) (followPieces top onward here pieces) := by
  induction pieces generalizing here with
  | nil =>
    rw [reachPieces, followPieces]
    cases top.lookup here <;> exact .inl rfl
  | cons piece rest ih =>
    rw [reachPieces, followPieces]
    cases top.lookup here with
    | none => exact .inl rfl
    | some node =>
      cases node with
      | file content => exact .inl rfl
      | link target => exact .inl rfl
      | dir entries =>
        -- Of the tests on a piece, only that for access has no counterpart in following.
        simp only
        by_cases hempty : piece = ""
        · rw [if_pos hempty, if_pos (.inl hempty)]
          exact ih here
        rw [if_neg hempty]
        by_cases hclosed : access.enters here = false
        · rw [if_pos hclosed]
          exact .inr ⟨⟨here, hclosed⟩, rfl⟩
        rw [if_neg hclosed]
        by_cases hdot : piece = "."
        · rw [if_pos hdot, if_pos (.inr hdot)]
          exact ih here
        rw [if_neg hdot, if_neg (not_or.mpr ⟨hempty, hdot⟩)]
        by_cases hup : piece = ".."
        · rw [if_pos hup, if_pos hup]
          exact ih here.dropLast
        rw [if_neg hup, if_neg hup]
        cases entries.find? piece with
        | none => exact .inl rfl
        | some child =>
          cases child with
          | link target => exact honward _ _
          | file content => exact ih _
          | dir inner => exact ih _

/-- Reaching agrees with following, whatever number of links may be passed. -/
theorem agrees_reachFrom (links : Nat) (here pieces : List String) :
    access.Agrees (reachFrom access top links here pieces) (followFrom top links here pieces) := by
  induction links generalizing here pieces with
  | zero => exact agrees_reachPieces (fun _ _ => .inl rfl) here pieces
  | succ links ih => exact agrees_reachPieces ih here pieces

/-- What is reached is what the path leads to. -/
theorem follow_of_reach {pieces : List String} (h : top.reach access pieces = .ok place) :
    top.follow pieces = some place := by
  rw [reach] at h
  rw [follow]
  split at h
  · cases h
  · split at h
    · next hsize =>
      rw [if_pos hsize]
      rcases @agrees_reachFrom access top linkLimit [] pieces with hsame | ⟨-, hdenied⟩
      · rw [← hsame, h]
        rfl
      · rw [h] at hdenied
        cases hdenied
    · cases h

/-! ## Access to everything

Without anything that keeps a program out, the only failures are those of following itself, so reaching and
following are the same function up to the reason of a failure.
-/

/-- With access to everything, reaching with a number of links is following with it. -/
theorem toOption_reachFrom (links : Nat) (here pieces : List String) :
    (reachFrom .full top links here pieces).toOption = followFrom top links here pieces := by
  rcases @agrees_reachFrom .full top links here pieces with hsame | ⟨⟨_, hclosed⟩, -⟩
  · exact hsame
  · cases hclosed

/-- With access to everything, a path without the character that ends it reaches what it leads to. -/
theorem reach_of_follow {pieces : List String} (hnul : ∀ piece ∈ pieces, '\x00' ∉ piece.toList)
    (h : top.follow pieces = some place) : top.reach .full pieces = .ok place := by
  have hany : ¬pieces.any (·.toList.contains '\x00') = true := by
    simpa using hnul
  rw [follow] at h
  rw [reach, if_neg hany]
  split at h
  · next hsize =>
    rw [if_pos hsize]
    rw [← toOption_reachFrom] at h
    generalize reachFrom .full top linkLimit [] pieces = reached at h ⊢
    cases reached with
    | ok place' =>
      cases h
      rfl
    | error e => cases h
  · cases h

end Node

namespace Repository

/-- Bytes that can be read are those of the regular file that the path leads to. -/
theorem follow_of_readFile {access : Node.Access} {repo : Repository} {path : String} {content : Bytes}
    (h : repo.readFile access path = .ok content) :
    ∃ names, repo.follow path = some ⟨names, .file content⟩ := by
  rw [readFile] at h
  split at h
  · cases h
  · next names node hreach =>
    split at h
    · cases h
    · cases h
      exact ⟨names, Node.follow_of_reach hreach⟩
    · cases h

/-- With access to everything, the bytes of every regular file can be read. -/
theorem readFile_full_eq_ok_iff {repo : Repository} {path : String} {content : Bytes}
    (hnul : ∀ piece ∈ Path.piecesFrom repo.root path, '\x00' ∉ piece.toList) :
    repo.readFile .full path = .ok content ↔ repo.read? path = some content := by
  constructor
  · intro h
    obtain ⟨names, hfollow⟩ := follow_of_readFile h
    rw [follow] at hfollow
    rw [read?, Node.read?, hfollow]
  · intro h
    rw [read?, Node.read?] at h
    split at h
    · next names bytes hfollow =>
      cases h
      have hreach : repo.reach .full path = .ok ⟨names, .file content⟩ := Node.reach_of_follow hnul hfollow
      rw [readFile, hreach]
      rfl
    · cases h

end Repository

end RepoScope
