/-
# Timelines

A timeline is a present snapshot with the snapshots behind and ahead of it. Recording a snapshot
other than the present one puts the present behind it and drops what was ahead; stepping back and
forward moves along the line without changing it.
-/

import ContractBlocks.History.Store

namespace ContractBlocks

/-- A line of snapshots with a place on it. -/
structure Timeline where
  /-- The snapshots behind, nearest first. -/
  past : List Snapshot
  present : Snapshot
  /-- The snapshots ahead, nearest first. -/
  future : List Snapshot
deriving DecidableEq, Repr

namespace Timeline

/-- The timeline that starts at a snapshot. -/
def start (s : Snapshot) : Timeline := ⟨[], s, []⟩

/-- All snapshots of the line, oldest first. -/
def toList (t : Timeline) : List Snapshot := t.past.reverse ++ t.present :: t.future

/-- The place of the present on the line. -/
def cursor (t : Timeline) : Nat := t.past.length

/-- There is a snapshot behind. -/
def canUndo (t : Timeline) : Bool := !t.past.isEmpty

/-- There is a snapshot ahead. -/
def canRedo (t : Timeline) : Bool := !t.future.isEmpty

/-- Records a snapshot, unless it is the present one. -/
def record (t : Timeline) (s : Snapshot) : Timeline :=
  if s.serial = t.present.serial then t else ⟨t.present :: t.past, s, []⟩

/-- One step back, if there is a snapshot behind. -/
def undo? (t : Timeline) : Option Timeline :=
  match t.past with
  | [] => none
  | s :: past => some ⟨past, s, t.present :: t.future⟩

/-- One step forward, if there is a snapshot ahead. -/
def redo? (t : Timeline) : Option Timeline :=
  match t.future with
  | [] => none
  | s :: future => some ⟨t.present :: t.past, s, future⟩

/-- The timeline with nothing behind and ahead. -/
def clear (t : Timeline) : Timeline := start t.present

/-- The present stands at the cursor. -/
@[simp]
theorem toList_getElem?_cursor (t : Timeline) : t.toList[t.cursor]? = some t.present := by
  simp [toList, cursor]

/-- Recording the present snapshot changes nothing. -/
theorem record_of_serial_eq {t : Timeline} {s : Snapshot} (h : s.serial = t.present.serial) :
    t.record s = t := by
  simp [record, h]

/-- Recording another snapshot drops what was ahead and puts it at the end of the line. -/
theorem toList_record {t : Timeline} {s : Snapshot} (h : s.serial ≠ t.present.serial) :
    (t.record s).toList = t.toList.take (t.cursor + 1) ++ [s] := by
  have hl : (t.past.reverse ++ [t.present]).length = t.past.length + 1 := by simp
  have ht : t.toList = (t.past.reverse ++ [t.present]) ++ t.future := by simp [toList]
  rw [ht, cursor, ← hl, List.take_left]
  simp [record, h, toList]

/-- Recording another snapshot moves the cursor one place on. -/
theorem cursor_record {t : Timeline} {s : Snapshot} (h : s.serial ≠ t.present.serial) :
    (t.record s).cursor = t.cursor + 1 := by
  simp [record, h, cursor]

/-- A step back keeps the line and moves the cursor one place back. -/
theorem toList_undo? {t u : Timeline} (h : t.undo? = some u) :
    u.toList = t.toList ∧ u.cursor + 1 = t.cursor := by
  obtain ⟨past, present, future⟩ := t
  cases past with
  | nil => simp [undo?] at h
  | cons s past =>
    simp only [undo?, Option.some.injEq] at h
    subst h
    simp [toList, cursor]

/-- A step forward keeps the line and moves the cursor one place on. -/
theorem toList_redo? {t u : Timeline} (h : t.redo? = some u) :
    u.toList = t.toList ∧ u.cursor = t.cursor + 1 := by
  obtain ⟨past, present, future⟩ := t
  cases future with
  | nil => simp [redo?] at h
  | cons s future =>
    simp only [redo?, Option.some.injEq] at h
    subst h
    simp [toList, cursor]

/-- The snapshots behind stand before the cursor, oldest first. -/
theorem take_cursor_toList (t : Timeline) : t.toList.take t.cursor = t.past.reverse := by
  rw [toList, cursor, ← List.length_reverse, List.take_left]

/-- The snapshots ahead stand after the cursor. -/
theorem drop_cursor_toList (t : Timeline) : t.toList.drop (t.cursor + 1) = t.future := by
  have hl : t.past.length + 1 = t.past.reverse.length + 1 := by simp
  rw [toList, cursor, hl, List.drop_length_add_append, List.drop_one, List.tail_cons]

theorem canUndo_iff (t : Timeline) : t.canUndo ↔ 0 < t.cursor := by
  simp [canUndo, cursor, List.length_pos_iff]

theorem canRedo_iff (t : Timeline) : t.canRedo ↔ t.cursor + 1 < t.toList.length := by
  simp [canRedo, cursor, toList, List.length_pos_iff]

@[simp]
theorem isSome_undo? (t : Timeline) : t.undo?.isSome = t.canUndo := by
  obtain ⟨past, present, future⟩ := t
  cases past <;> rfl

@[simp]
theorem isSome_redo? (t : Timeline) : t.redo?.isSome = t.canRedo := by
  obtain ⟨past, present, future⟩ := t
  cases future <;> rfl

/-- Recording brings no snapshot to the line but the recorded one. -/
theorem mem_toList_record {t : Timeline} {s x : Snapshot} (h : x ∈ (t.record s).toList) :
    x ∈ t.toList ∨ x = s := by
  by_cases hs : s.serial = t.present.serial
  · rw [record_of_serial_eq hs] at h
    exact Or.inl h
  · rw [toList_record hs, List.mem_append, List.mem_singleton] at h
    exact h.imp_left List.mem_of_mem_take

theorem present_mem_toList (t : Timeline) : t.present ∈ t.toList := by simp [toList]

end Timeline

end ContractBlocks
