/-
# What every operation on a workspace keeps

A workspace is sound if its history alone subscribes to its store, the store holds the present of
the timeline, and every snapshot of the line was made before the next one will be
(`Workspace.Sound`).  A new workspace is sound, and every operation keeps it so.

In a sound workspace each operation has a plain description.  A replacement records the given
snapshot (`Workspace.Sound.replace_eq`), an edit that is neither refused nor idle replaces the
current snapshot by a new one (`Workspace.edit_eq`), and a step moves along the line and makes the
snapshot it comes to current, which the history itself does not record (`Workspace.step?_eq`).
-/

import ContractBlocks.History.Workspace

namespace ContractBlocks

/-- **A history ignores what a history does.**  Notices of steps leave it as it is, whether or not
it is subscribed. -/
theorem History.receiveAll_of_history (h : History) {ns : List Notice}
    (hn : ∀ n ∈ ns, n.origin = .history) : h.receiveAll ns = h := by
  induction ns with
  | nil => rfl
  | cons n ns ih =>
    have hr : h.receive n = h := by simp [receive, hn n]
    rw [receiveAll, List.foldl_cons, hr]
    exact ih fun m hm => hn m (List.mem_cons_of_mem _ hm)

namespace Operation

/-- The edit that an operation asks for, or why there is none; a step of the history asks for no
edit at all. -/
def edit? (fresh : BlockId) : Operation → Option (Except EditError Edit)
  | .add tagName id seed position =>
    some ((Block.create (id.getD fresh) tagName (seed.getD .empty)).map
      fun b => .add (b.place position))
  | .update id patch => some (.ok (.update id patch))
  | .move id position => some (.ok (.move id position))
  | .remove id => some (.ok (.remove id))
  | .undo | .redo => none

theorem edit?_eq_none_iff {fresh : BlockId} {op : Operation} :
    op.edit? fresh = none ↔ op = .undo ∨ op = .redo := by
  cases op <;> simp [edit?]

end Operation

namespace Workspace

variable {w w' : Workspace}

/-- The history alone subscribes to the store, the store holds the present, and the snapshots of
the line were made before the next one. -/
structure Sound (w : Workspace) : Prop where
  observed : ∃ handle, w.history.handle = some handle ∧ w.store.subscribers = [handle]
  current_eq : w.store.current = w.timeline.present
  serial_lt : ∀ s ∈ w.timeline.toList, s.serial < w.store.nextSerial

theorem sound_ofComponents (components : List Placed) : (ofComponents components).Sound := by
  refine ⟨⟨0, rfl, rfl⟩, rfl, fun s hs => ?_⟩
  have hs : s ∈ [(⟨0, components⟩ : Snapshot)] := hs
  rw [List.mem_singleton] at hs
  rw [hs]
  exact Nat.zero_lt_one

/-- The present was made before the next snapshot. -/
theorem Sound.present_serial_lt (h : w.Sound) :
    w.timeline.present.serial < w.store.nextSerial :=
  h.serial_lt _ w.timeline.present_mem_toList

/-! ### Replacements -/

/-- **A replacement is recorded.**  The only subscriber is told of it once, as an edit. -/
theorem Sound.replace_eq (h : w.Sound) (next : Snapshot) :
    w.replace next =
      ⟨{ w.store with current := next },
        { w.history with timeline := w.timeline.record next }⟩ := by
  obtain ⟨handle, hh, hs⟩ := h.observed
  simp [replace, publish, Store.replace, hs, History.receiveAll, History.receive, hh, timeline]

/-- A replacement keeps a workspace sound if the snapshot has been made and is the present one
wherever it has the serial number of the present. -/
theorem Sound.replace (h : w.Sound) {next : Snapshot} (hn : next.serial < w.store.nextSerial)
    (hp : next.serial = w.timeline.present.serial → next = w.timeline.present) :
    (w.replace next).Sound := by
  rw [h.replace_eq]
  refine ⟨h.observed, ?_, fun s hs => ?_⟩
  · show next = (w.timeline.record next).present
    by_cases he : next.serial = w.timeline.present.serial
    · rw [Timeline.record_of_serial_eq he, hp he]
    · simp [Timeline.record, he]
  · rcases Timeline.mem_toList_record hs with hs | rfl
    · exact h.serial_lt s hs
    · exact hn

/-- Replacing the current snapshot by itself changes nothing. -/
theorem Sound.replace_present (h : w.Sound) : w.replace w.timeline.present = w := by
  rw [h.replace_eq, Timeline.record_of_serial_eq rfl, ← h.current_eq]
  rfl

/-- A snapshot is made, but does not become current. -/
def make (w : Workspace) (components : List Placed) : Workspace :=
  { w with store := (w.store.snapshot components).1 }

theorem Sound.make (h : w.Sound) (components : List Placed) : (w.make components).Sound :=
  ⟨h.observed, h.current_eq, fun s hs => Nat.lt_succ_of_lt (h.serial_lt s hs)⟩

/-- A replacement by a new snapshot is a replacement by one made just before. -/
theorem replaceNew_eq (w : Workspace) (components : List Placed) :
    w.replaceNew components = (w.make components).replace ⟨w.store.nextSerial, components⟩ :=
  rfl

/-- A new snapshot is never the present one. -/
theorem Sound.nextSerial_ne (h : w.Sound) :
    w.store.nextSerial ≠ w.timeline.present.serial :=
  (Nat.ne_of_lt h.present_serial_lt).symm

theorem Sound.replaceNew (h : w.Sound) (components : List Placed) :
    (w.replaceNew components).Sound := by
  rw [replaceNew_eq]
  exact (h.make components).replace (Nat.lt_succ_self _) fun he => absurd he h.nextSerial_ne

/-- **A new snapshot is recorded.**  It becomes the present, the former present goes behind it and
nothing stays ahead. -/
theorem Sound.timeline_replaceNew (h : w.Sound) (components : List Placed) :
    (w.replaceNew components).timeline =
      ⟨w.timeline.present :: w.timeline.past, ⟨w.store.nextSerial, components⟩, []⟩ := by
  rw [replaceNew_eq, (h.make components).replace_eq]
  show w.timeline.record ⟨w.store.nextSerial, components⟩ = _
  simp [Timeline.record, h.nextSerial_ne]

@[simp]
theorem components_replaceNew (w : Workspace) (components : List Placed) :
    (w.replaceNew components).components = components := rfl

/-! ### Edits -/

/-- **An edit is a replacement by a new snapshot,** unless it is refused or idle. -/
theorem edit_eq (w : Workspace) (e : Edit) :
    w.edit e = (e.run w.components).map fun next => if e.isIdle then w else w.replaceNew next := by
  have hc : w.components = w.store.components := rfl
  rw [edit, Store.edit, hc]
  cases e.run w.store.components with
  | error error => rfl
  | ok next =>
    by_cases hi : e.isIdle
    · simp only [hi, if_true]
      rfl
    · simp only [hi]
      rfl

theorem edit_eq_ok {e : Edit} (h : w.edit e = .ok w') :
    ∃ next, e.run w.components = .ok next ∧ w' = if e.isIdle then w else w.replaceNew next := by
  rw [edit_eq] at h
  cases hr : e.run w.components with
  | error error => rw [hr] at h; cases h
  | ok next => rw [hr] at h; exact ⟨next, rfl, (Except.ok.inj h).symm⟩

/-! ### Steps of the history -/

/-- **A step is not recorded.**  It moves along the line, and the snapshot it comes to becomes
current. -/
theorem step?_eq (w : Workspace) (move : Timeline → Option Timeline) :
    w.step? move = (move w.timeline).map fun t =>
      ⟨{ w.store with current := t.present }, { w.history with timeline := t }⟩ := by
  unfold step? publish
  congr 1
  funext t
  have hn : ∀ n ∈ (w.store.replace t.present .history).2, n.origin = .history := by
    intro n hn
    obtain ⟨handle, -, rfl⟩ := List.mem_map.1 hn
    rfl
  rw [History.receiveAll_of_history _ hn]
  rfl

/-- **Undoing stays on the line.**  It goes one place back, except from the first. -/
theorem toList_undo (w : Workspace) :
    w.undo.timeline.toList = w.timeline.toList ∧
      w.undo.timeline.cursor = w.timeline.cursor - 1 ∧
        w.undo.store.nextSerial = w.store.nextSerial := by
  unfold undo undo?
  rw [step?_eq]
  cases hu : w.timeline.undo? with
  | none =>
    have hp : w.timeline.canUndo = false := by rw [← Timeline.isSome_undo?, hu]; rfl
    have hc : ¬0 < w.timeline.cursor := by rw [← Timeline.canUndo_iff, hp]; exact Bool.false_ne_true
    exact ⟨rfl, show w.timeline.cursor = _ by omega, rfl⟩
  | some t =>
    obtain ⟨ht, hc⟩ := Timeline.toList_undo? hu
    exact ⟨ht, show t.cursor = _ by omega, rfl⟩

/-- **Redoing stays on the line.**  It goes one place on, except from the last. -/
theorem toList_redo (w : Workspace) :
    w.redo.timeline.toList = w.timeline.toList ∧
      w.redo.timeline.cursor =
          (if w.timeline.cursor + 1 < w.timeline.toList.length then w.timeline.cursor + 1
          else w.timeline.cursor) ∧
        w.redo.store.nextSerial = w.store.nextSerial := by
  unfold redo redo?
  rw [step?_eq]
  cases hr : w.timeline.redo? with
  | none =>
    have hp : w.timeline.canRedo = false := by rw [← Timeline.isSome_redo?, hr]; rfl
    have hc : ¬w.timeline.cursor + 1 < w.timeline.toList.length := by
      rw [← Timeline.canRedo_iff, hp]
      exact Bool.false_ne_true
    exact ⟨rfl, (if_neg hc).symm, rfl⟩
  | some t =>
    obtain ⟨ht, hc⟩ := Timeline.toList_redo? hr
    have hl : w.timeline.cursor + 1 < w.timeline.toList.length := by
      rw [← Timeline.canRedo_iff, ← Timeline.isSome_redo?, hr]
      rfl
    exact ⟨ht, by rw [if_pos hl]; exact hc, rfl⟩

/-- A step that stays on the line keeps a workspace sound. -/
theorem Sound.step? (h : w.Sound) {move : Timeline → Option Timeline}
    (hm : ∀ t, move w.timeline = some t → t.toList = w.timeline.toList)
    (hs : w.step? move = some w') : w'.Sound := by
  rw [step?_eq] at hs
  obtain ⟨t, ht, rfl⟩ := Option.map_eq_some_iff.1 hs
  exact ⟨h.observed, rfl, fun s hs => h.serial_lt s (hm t ht ▸ hs)⟩

theorem Sound.undo? (h : w.Sound) (hu : w.undo? = some w') : w'.Sound :=
  h.step? (fun _ ht => (Timeline.toList_undo? ht).1) hu

theorem Sound.redo? (h : w.Sound) (hr : w.redo? = some w') : w'.Sound :=
  h.step? (fun _ ht => (Timeline.toList_redo? ht).1) hr

theorem Sound.undo (h : w.Sound) : w.undo.Sound := by
  unfold Workspace.undo
  cases hu : w.undo? with
  | none => exact h
  | some u => exact h.undo? hu

theorem Sound.redo (h : w.Sound) : w.redo.Sound := by
  unfold Workspace.redo
  cases hr : w.redo? with
  | none => exact h
  | some u => exact h.redo? hr

theorem Sound.clearHistory (h : w.Sound) : w.clearHistory.Sound := by
  refine ⟨h.observed, h.current_eq, fun s hs => ?_⟩
  have hs : s ∈ [w.timeline.present] := hs
  rw [List.mem_singleton.1 hs]
  exact h.present_serial_lt

/-! ### Operations -/

/-- An operation that asks for an edit is that edit, if there is one. -/
theorem apply_of_edit? {fresh : BlockId} {op : Operation} {r : Except EditError Edit}
    (h : op.edit? fresh = some r) : w.apply fresh op = r.bind w.edit := by
  cases op with
  | add tagName id seed position =>
    obtain rfl := Option.some.inj h
    show w.add _ _ _ _ = _
    unfold add
    cases Block.create (id.getD fresh) tagName (seed.getD .empty) <;> rfl
  | update | move | remove => obtain rfl := Option.some.inj h; rfl
  | undo | redo => simp [Operation.edit?] at h

/-- **What a successful operation does.**  It changes nothing, replaces the current snapshot by a
new one, or is a step of the history. -/
theorem apply_cases {fresh : BlockId} {op : Operation} (h : w.apply fresh op = .ok w') :
    w' = w ∨ (∃ components, w' = w.replaceNew components) ∨
      (op = .undo ∧ w' = w.undo) ∨ (op = .redo ∧ w' = w.redo) := by
  cases he : op.edit? fresh with
  | none =>
    rcases Operation.edit?_eq_none_iff.1 he with rfl | rfl
    · exact Or.inr (Or.inr (Or.inl ⟨rfl, (Except.ok.inj h).symm⟩))
    · exact Or.inr (Or.inr (Or.inr ⟨rfl, (Except.ok.inj h).symm⟩))
  | some r =>
    rw [apply_of_edit? he] at h
    cases r with
    | error error => cases h
    | ok e =>
      obtain ⟨next, -, rfl⟩ := edit_eq_ok h
      by_cases hi : e.isIdle
      · exact Or.inl (if_pos hi)
      · exact Or.inr (Or.inl ⟨next, if_neg hi⟩)

theorem Sound.apply (h : w.Sound) {fresh : BlockId} {op : Operation}
    (ha : w.apply fresh op = .ok w') : w'.Sound := by
  rcases apply_cases ha with rfl | ⟨components, rfl⟩ | ⟨-, rfl⟩ | ⟨-, rfl⟩
  · exact h
  · exact h.replaceNew components
  · exact h.undo
  · exact h.redo

end Workspace

end ContractBlocks
