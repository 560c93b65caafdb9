/-!
# Work that is shared out

A list of items can be worked on by several workers at once. They share out its positions, and finish them in
whatever order; each writes what it has made of an item into the slot of that item, and the slots are read in order
when all are done. If the workers cannot be started, the items are worked on one by one.
-/

namespace RepoScope.Content

/-- What starts workers on the positions of a list. -/
structure Pool where
  /-- How many workers are started unless the request says otherwise. -/
  processors : Nat
  /-- The order in which so many workers finish the positions of a list, if they can be started. -/
  order? : (workers length : Nat) → Option (List Nat)
  /-- The workers finish every position. -/
  finished {workers length : Nat} {order : List Nat} (h : order? workers length = some order) (i : Nat)
    (hi : i < length) : i ∈ order

/-- Workers that finish the positions from the first to the last. -/
def Pool.inOrder (processors : Nat) : Pool where
  processors
  order? _ length := some (List.range length)
  finished h i hi := by
    cases h
    exact List.mem_range.mpr hi

/-- The slots when the item at position `i` has been worked on. -/
def fillSlot {α β : Type} (work : α → β) (items : List α) (slots : List (Option β)) (i : Nat) :
    List (Option β) :=
  slots.set i (items[i]?.map work)

/-- What workers make of items that they finish in this order. -/
def workOn {α β : Type} (work : α → β) (items : List α) (order : List Nat) : List β :=
  (order.foldl (fillSlot work items) (items.map fun _ => none)).filterMap id

/-- The number of workers that a request for `jobs` asks for. -/
def Pool.workers (pool : Pool) (jobs : Nat) : Nat :=
  if jobs = 0 then pool.processors else jobs

/-- What is made of each of the items, with several workers if the request asks for them. -/
def Pool.map {α β : Type} (pool : Pool) (jobs : Nat) (work : α → β) (items : List α) : List β :=
  if pool.workers jobs > 1 then
    match pool.order? (pool.workers jobs) items.length with
    | some order => workOn work items order
    | none => items.map work
  else items.map work

end RepoScope.Content
