/-
# Workspaces

A workspace is a store with one history. Every edit goes through the store and is recorded; undo and
redo go through the history. An operation is an edit as a script keeps it, or a step of the history;
a block that a script adds without an identity is given one from outside.
-/

import ContractBlocks.History.Observer
import ContractBlocks.Block.Seed

namespace ContractBlocks

/-- One operation of a script. -/
inductive Operation where
  | add (tagName : String) (id : Option BlockId) (seed : Option Seed) (position : Position)
  | update (id : BlockId) (patch : Patch)
  | move (id : BlockId) (position : Position)
  | remove (id : BlockId)
  | undo
  | redo
deriving DecidableEq, Repr

/-- A store with its history. -/
structure Workspace where
  store : Store
  history : History
deriving DecidableEq, Repr

namespace Workspace

/-- A workspace whose history starts at the given collection. -/
def ofComponents (components : List Placed) : Workspace :=
  let (store, history) := History.attach (.ofComponents components)
  ⟨store, history⟩

/-- The current collection. -/
def components (w : Workspace) : List Placed := w.store.components

/-- The timeline of the workspace. -/
def timeline (w : Workspace) : Timeline := w.history.timeline

/-- The workspace after a replacement in its store. -/
def publish (w : Workspace) (r : Store × List Notice) : Workspace :=
  ⟨r.1, w.history.receiveAll r.2⟩

/-- Makes a given snapshot current, as an edit. -/
def replace (w : Workspace) (next : Snapshot) : Workspace := w.publish (w.store.replace next .edit)

/-- Makes a new snapshot of the given collection current, as an edit. -/
def replaceNew (w : Workspace) (components : List Placed) : Workspace :=
  w.publish (w.store.replaceNew components .edit)

/-- Edits the collection. -/
def edit (w : Workspace) (e : Edit) : Except EditError Workspace := (w.store.edit e).map w.publish

/-- Removes the first block of an identity and gives it away. -/
def take (w : Workspace) (id : BlockId) : Except EditError (Workspace × Placed) :=
  match Placed.find? w.components id with
  | some p => (w.edit (.remove id)).map fun w' => (w', p)
  | none => .error (.missingBlock id)

/-- Makes a block of a tag name and adds it. -/
def add (w : Workspace) (id : BlockId) (tagName : String) (seed : Seed) (position : Position) :
    Except EditError Workspace := do
  let b ← Block.create id tagName seed
  w.edit (.add (b.place position))

/-- Steps the history and makes its present current, if there is a step to take. -/
def step? (w : Workspace) (move : Timeline → Option Timeline) : Option Workspace :=
  (move w.timeline).map fun t =>
    publish ⟨w.store, { w.history with timeline := t }⟩ (w.store.replace t.present .history)

/-- Steps back, if there is a snapshot behind. -/
def undo? (w : Workspace) : Option Workspace := w.step? Timeline.undo?

/-- Steps forward, if there is a snapshot ahead. -/
def redo? (w : Workspace) : Option Workspace := w.step? Timeline.redo?

/-- Steps back; with no snapshot behind nothing changes. -/
def undo (w : Workspace) : Workspace := w.undo?.getD w

/-- Steps forward; with no snapshot ahead nothing changes. -/
def redo (w : Workspace) : Workspace := w.redo?.getD w

/-- Forgets everything but the present. -/
def clearHistory (w : Workspace) : Workspace := { w with history := w.history.clear }

/-- Applies one operation; a block without an identity is given `fresh`. -/
def apply (w : Workspace) (fresh : BlockId) : Operation → Except EditError Workspace
  | .add tagName id seed position => w.add (id.getD fresh) tagName (seed.getD .empty) position
  | .update id patch => w.edit (.update id patch)
  | .move id position => w.edit (.move id position)
  | .remove id => w.edit (.remove id)
  | .undo => .ok w.undo
  | .redo => .ok w.redo

end Workspace

end ContractBlocks
