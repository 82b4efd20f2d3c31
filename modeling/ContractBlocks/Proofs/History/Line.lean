/-
# A line of snapshots with a place on it

A timeline keeps what is behind its present and what is ahead of it apart, the nearest first.  Read
as one line of snapshots, oldest first, and a place on it (`Timeline.line`), recording cuts the line
behind the place and goes on from there, steps move the place and leave the snapshots alone, and
clearing keeps the snapshot at the place.
-/

import ContractBlocks.History.Timeline

namespace ContractBlocks

/-- A line of snapshots, oldest first, and a place on it. -/
structure Line where
  snapshots : List Snapshot
  place : Nat

namespace Line

/-- The line that starts at a snapshot. -/
def start (s : Snapshot) : Line := ⟨[s], 0⟩

/-- Puts a snapshot behind the place and moves onto it, unless it is the one at the place. -/
def record (l : Line) (s : Snapshot) : Line :=
  if l.snapshots[l.place]?.map Snapshot.serial = some s.serial then l
  else ⟨l.snapshots.take (l.place + 1) ++ [s], l.place + 1⟩

/-- One place back, except from the first. -/
def back (l : Line) : Line := { l with place := l.place - 1 }

/-- One place on, except from the last. -/
def forth (l : Line) : Line :=
  { l with place := if l.place + 1 < l.snapshots.length then l.place + 1 else l.place }

/-- Keeps the snapshot at the place alone. -/
def clear (l : Line) : Line := ⟨l.snapshots[l.place]?.toList, 0⟩

end Line

namespace Timeline

/-- The snapshots of a timeline as a line, and the cursor as the place on it. -/
def line (t : Timeline) : Line := ⟨t.toList, t.cursor⟩

theorem line_record (t : Timeline) (s : Snapshot) : (t.record s).line = t.line.record s := by
  unfold Line.record line
  simp only [toList_getElem?_cursor, Option.map_some, Option.some.injEq]
  by_cases h : s.serial = t.present.serial
  · rw [record_of_serial_eq h, if_pos h.symm]
  · rw [toList_record h, cursor_record h, if_neg fun he => h he.symm]

theorem line_undo? (t : Timeline) : (t.undo?.getD t).line = t.line.back := by
  cases hu : t.undo? with
  | none =>
    have hc : t.cursor = 0 := by
      have hn := t.isSome_undo?
      rw [hu, Option.isSome_none] at hn
      have := t.canUndo_iff
      rw [← hn] at this
      simpa using this
    show (⟨t.toList, t.cursor⟩ : Line) = ⟨t.toList, t.cursor - 1⟩
    rw [hc]
  | some u =>
    obtain ⟨hl, hc⟩ := toList_undo? hu
    show (⟨u.toList, u.cursor⟩ : Line) = ⟨t.toList, t.cursor - 1⟩
    rw [hl, ← hc, Nat.add_sub_cancel]

theorem line_redo? (t : Timeline) : (t.redo?.getD t).line = t.line.forth := by
  cases hr : t.redo? with
  | none =>
    have hc : ¬t.cursor + 1 < t.toList.length := by
      rw [← t.canRedo_iff, ← t.isSome_redo?, hr]
      exact Bool.false_ne_true
    show t.line = ⟨t.toList, if t.cursor + 1 < t.toList.length then t.cursor + 1 else t.cursor⟩
    rw [if_neg hc]
    rfl
  | some u =>
    obtain ⟨hl, hc⟩ := toList_redo? hr
    have hlt : t.cursor + 1 < t.toList.length := by
      rw [← t.canRedo_iff, ← t.isSome_redo?, hr]
      rfl
    show u.line = ⟨t.toList, if t.cursor + 1 < t.toList.length then t.cursor + 1 else t.cursor⟩
    rw [if_pos hlt, ← hl, ← hc]
    rfl

theorem line_clear (t : Timeline) : t.clear.line = t.line.clear := by
  unfold Line.clear line
  rw [toList_getElem?_cursor]
  rfl

/-- Recording a snapshot again changes nothing. -/
theorem record_record (t : Timeline) (s : Snapshot) : (t.record s).record s = t.record s := by
  refine record_of_serial_eq ?_
  by_cases h : s.serial = t.present.serial
  · rw [record_of_serial_eq h, h]
  · simp [record, h]

end Timeline

end ContractBlocks
