/-
# Edits of a collection

A collection is a list of placed blocks whose identities are meant to be distinct. An edit adds a
block behind the others, or patches, moves or removes the first block of an identity. It is refused
if the identity is taken, or if there is no block of it.
-/

import ContractBlocks.Block.Patch
import ContractBlocks.Block.EditError

namespace ContractBlocks

/-- An edit of a collection. -/
inductive Edit where
  | add (p : Placed)
  | update (id : BlockId) (patch : Patch)
  | move (id : BlockId) (position : Position)
  | remove (id : BlockId)
deriving DecidableEq, Repr

/-- The first placed block of an identity. -/
def Placed.find? (components : List Placed) (id : BlockId) : Option Placed :=
  components.find? fun p => p.id == id

/-- Changes the first placed block of an identity. -/
def Placed.modifyFirst (id : BlockId) (f : Placed → Placed) : List Placed → List Placed
  | [] => []
  | p :: ps => if p.id = id then f p :: ps else p :: modifyFirst id f ps

/-- Changing nothing in a block changes nothing in the collection. -/
theorem Placed.modifyFirst_id (id : BlockId) (ps : List Placed) :
    modifyFirst id (fun p => p) ps = ps := by
  induction ps with
  | nil => rfl
  | cons p ps ih => simp [modifyFirst, ih]

namespace Edit

/-- The identity that an edit is about. -/
def target : Edit → BlockId
  | .add p => p.id
  | .update id _ | .move id _ | .remove id => id

/-- An edit that changes nothing where it is not refused: an update by the empty patch. -/
def isIdle : Edit → Bool
  | .update _ patch => patch.isEmpty
  | _ => false

/-- The collection after an edit that is not refused. -/
def perform (components : List Placed) : Edit → List Placed
  | .add p => components ++ [p]
  | .update id patch =>
    Placed.modifyFirst id (fun p => { p with block := p.block.patch patch }) components
  | .move id position => Placed.modifyFirst id (fun p => { p with position := position }) components
  | .remove id => components.eraseP fun p => p.id == id

/-- Why an edit is refused, if it is. -/
def refusal? (components : List Placed) : Edit → Option EditError
  | .add p => if (Placed.find? components p.id).isSome then some (.duplicateBlock p.id) else none
  | .update id _ | .move id _ | .remove id =>
    if (Placed.find? components id).isSome then none else some (.missingBlock id)

/-- The collection after an edit, or why the edit is refused. -/
def run (components : List Placed) (e : Edit) : Except EditError (List Placed) :=
  match e.refusal? components with
  | some error => .error error
  | none => .ok (e.perform components)

/-- An idle edit leaves the collection as it is. -/
theorem perform_of_isIdle {e : Edit} (h : e.isIdle) (components : List Placed) :
    e.perform components = components := by
  cases e with
  | update id patch =>
    obtain rfl : patch = Patch.empty := by simpa [isIdle, Patch.isEmpty] using h
    simp [perform, Placed.modifyFirst_id]
  | _ => simp [isIdle] at h

/-- An idle edit that is not refused comes to the same collection. -/
theorem eq_of_run_of_isIdle {e : Edit} (h : e.isIdle) {components next : List Placed}
    (hr : e.run components = .ok next) : components = next := by
  unfold run at hr
  split at hr
  · cases hr
  · rw [perform_of_isIdle h] at hr
    exact Except.ok.inj hr

end Edit

end ContractBlocks
