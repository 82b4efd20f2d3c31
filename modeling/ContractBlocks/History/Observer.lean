/-
# Histories on a store

A history is a timeline that subscribes to a store. It records the snapshots that edits bring, and
ignores those that a step of any history brings; its own steps make the store's snapshot its
present. A studio is a store with any number of histories on it.
-/

import ContractBlocks.History.Timeline

namespace ContractBlocks

/-- A timeline on a store; once detached it has no handle and records nothing. -/
structure History where
  timeline : Timeline
  handle : Option Nat
deriving DecidableEq, Repr

namespace History

/-- Takes a notice: a snapshot that an edit has made current is recorded. -/
def receive (h : History) (n : Notice) : History :=
  if h.handle = some n.handle ∧ n.origin = .edit then
    { h with timeline := h.timeline.record n.snapshot }
  else h

/-- Takes notices in order. -/
def receiveAll (h : History) (ns : List Notice) : History := ns.foldl receive h

/-- Starts a history at the current snapshot of a store. -/
def attach (s : Store) : Store × History :=
  let (s', handle) := s.subscribe
  (s', ⟨.start s.current, some handle⟩)

/-- Ends the subscription; the timeline stays. -/
def detach (h : History) (s : Store) : Store × History :=
  match h.handle with
  | some handle => (s.unsubscribe handle, { h with handle := none })
  | none => (s, h)

/-- Forgets everything but the present. -/
def clear (h : History) : History := { h with timeline := h.timeline.clear }

end History

/-- A store with histories on it. -/
structure Studio where
  store : Store
  histories : List History
deriving DecidableEq, Repr

namespace Studio

/-- A studio without histories. -/
def ofComponents (components : List Placed) : Studio := ⟨.ofComponents components, []⟩

/-- The studio after a replacement in its store, with the notices of it. -/
def publish (s : Studio) (r : Store × List Notice) : Studio × List Notice :=
  (⟨r.1, s.histories.map fun h => h.receiveAll r.2⟩, r.2)

/-- Edits the collection. -/
def edit (s : Studio) (e : Edit) : Except EditError (Studio × List Notice) :=
  (s.store.edit e).map s.publish

/-- Makes a new snapshot current. -/
def replaceNew (s : Studio) (components : List Placed) (origin : Origin) : Studio × List Notice :=
  s.publish (s.store.replaceNew components origin)

/-- Makes a given snapshot current. -/
def replace (s : Studio) (next : Snapshot) (origin : Origin) : Studio × List Notice :=
  s.publish (s.store.replace next origin)

/-- Starts a history. -/
def attach (s : Studio) : Studio :=
  let (store, h) := History.attach s.store
  ⟨store, s.histories ++ [h]⟩

/-- Detaches the history of the given number. -/
def detach (s : Studio) (i : Nat) : Studio :=
  match s.histories[i]? with
  | none => s
  | some h =>
    let (store, h) := h.detach s.store
    ⟨store, s.histories.set i h⟩

/-- Clears the history of the given number. -/
def clear (s : Studio) (i : Nat) : Studio :=
  { s with histories := s.histories.modify i History.clear }

/-- Steps the history of the given number along its timeline and makes its present current. -/
def step (s : Studio) (i : Nat) (move : Timeline → Option Timeline) :
    Option (Studio × List Notice) := do
  let h ← s.histories[i]?
  let t ← move h.timeline
  let stepped : Studio := { s with histories := s.histories.set i { h with timeline := t } }
  return stepped.publish (s.store.replace t.present .history)

/-- Steps the history of the given number back. -/
def undo? (s : Studio) (i : Nat) : Option (Studio × List Notice) := s.step i Timeline.undo?

/-- Steps the history of the given number forward. -/
def redo? (s : Studio) (i : Nat) : Option (Studio × List Notice) := s.step i Timeline.redo?

end Studio

end ContractBlocks
