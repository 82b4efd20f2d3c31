/-
# The store

A store holds the current snapshot of a collection and its subscribers. A snapshot is never
changed, only replaced, and it is told apart from every other one by its serial number: equal
collections made at different times are different snapshots. Each replacement gives every
subscriber one notice, in the order in which they subscribed, whether or not the snapshot was the
current one before.
-/

import ContractBlocks.History.Edit

namespace ContractBlocks

/-- A collection as it was made at one time. -/
structure Snapshot where
  serial : Nat
  components : List Placed
deriving DecidableEq, Repr

/-- Whose doing a replacement is. -/
inductive Origin where
  /-- An edit by the user. -/
  | edit
  /-- A step of a history. -/
  | history
deriving DecidableEq, Repr

/-- What a subscriber is told of a replacement. -/
structure Notice where
  handle : Nat
  snapshot : Snapshot
  origin : Origin
deriving DecidableEq, Repr

/-- The owner of the current snapshot. -/
structure Store where
  current : Snapshot
  /-- The serial number of the next snapshot. -/
  nextSerial : Nat
  /-- The handles of the subscribers, in the order in which they subscribed. -/
  subscribers : List Nat
  /-- The handle of the next subscriber. -/
  nextHandle : Nat
deriving DecidableEq, Repr

namespace Store

/-- A store without subscribers. -/
def ofComponents (components : List Placed) : Store := ⟨⟨0, components⟩, 1, [], 0⟩

/-- The current collection. -/
def components (s : Store) : List Placed := s.current.components

/-- Makes a snapshot that is not yet current. -/
def snapshot (s : Store) (components : List Placed) : Store × Snapshot :=
  ({ s with nextSerial := s.nextSerial + 1 }, ⟨s.nextSerial, components⟩)

/-- Makes a snapshot current and tells every subscriber. -/
def replace (s : Store) (next : Snapshot) (origin : Origin) : Store × List Notice :=
  ({ s with current := next }, s.subscribers.map fun h => ⟨h, next, origin⟩)

/-- Makes a new snapshot current. -/
def replaceNew (s : Store) (components : List Placed) (origin : Origin) : Store × List Notice :=
  let (s, next) := s.snapshot components
  s.replace next origin

/-- A new subscriber with its handle. -/
def subscribe (s : Store) : Store × Nat :=
  ({ s with subscribers := s.subscribers ++ [s.nextHandle], nextHandle := s.nextHandle + 1 },
    s.nextHandle)

/-- The handle is that of a subscriber. -/
def isSubscribed (s : Store) (handle : Nat) : Bool := s.subscribers.contains handle

/-- Ends the subscription of a handle. -/
def unsubscribe (s : Store) (handle : Nat) : Store :=
  { s with subscribers := s.subscribers.filter fun h => h != handle }

/-- Ends the subscription of a handle and says whether there was one: then fewer are left. -/
def release (s : Store) (handle : Nat) : Store × Bool :=
  let s' := s.unsubscribe handle
  (s', s'.subscribers.length != s.subscribers.length)

/-- Fewer subscribers are left exactly if the handle was that of one. -/
theorem release_found (s : Store) (handle : Nat) :
    (s.release handle).2 = s.isSubscribed handle := by
  have hkept : (s.subscribers.filter fun h => h != handle).length = s.subscribers.length ↔
      handle ∉ s.subscribers := by
    rw [List.length_filter_eq_length_iff]
    exact ⟨fun hall hh => bne_iff_ne.1 (hall handle hh) rfl,
      fun hnot h hh => bne_iff_ne.2 fun heq => hnot (heq ▸ hh)⟩
  show ((s.subscribers.filter fun h => h != handle).length != s.subscribers.length) = _
  rw [Bool.eq_iff_iff, bne_iff_ne, ne_eq, hkept, isSubscribed, List.contains_iff_mem,
    Decidable.not_not]

/-- Edits the collection. An idle edit replaces nothing. -/
def edit (s : Store) (e : Edit) : Except EditError (Store × List Notice) :=
  match e.run s.components with
  | .error error => .error error
  | .ok next => .ok (if e.isIdle then (s, []) else s.replaceNew next .edit)

end Store

end ContractBlocks
