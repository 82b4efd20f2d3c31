/-
# A workspace is a place on a line of snapshots

A session is a workspace in the hands of its user, together with every snapshot that has been made
so far, in order of serial number.  The user may make snapshots, replace the current snapshot by any
that has been made, apply operations, which fail or succeed, and clear the history, in any order
(`Session.run`).

Whatever was done, there are a line `T` of snapshots and a place `k` on it such that the snapshots
behind are those before `k`, the present one is that at `k`, which the store holds, and the
snapshots ahead are those after `k` (`Workspace.StandsAt`).  `Session.run_standsAt` says so and says
what every operation makes of the line and the place.
-/

import ContractBlocks.Proofs.History.Sound
import Mathlib.Data.List.Nodup

namespace ContractBlocks

/-- A workspace and every snapshot made so far, the one of serial number `i` at place `i`. -/
structure Session where
  workspace : Workspace
  made : List Snapshot

/-- What the user of a workspace may do. -/
inductive Action where
  /-- A snapshot is made, but does not become current. -/
  | make (components : List Placed)
  /-- The snapshot of the serial number replaces the current one. -/
  | replace (serial : Nat)
  /-- The operation is applied; a block without an identity is given `fresh`. -/
  | apply (fresh : BlockId) (op : Operation)
  | clear

namespace Session

/-- A session that starts at a collection. -/
def start (components : List Placed) : Session :=
  ⟨.ofComponents components, [⟨0, components⟩]⟩

/-- The session with the workspace that an operation has led to.  If the operation has made a
snapshot, that one is current. -/
def follow (s : Session) (w : Workspace) : Session where
  workspace := w
  made :=
    if s.workspace.store.nextSerial < w.store.nextSerial then s.made ++ [w.store.current]
    else s.made

/-- The session after an action.  A failed operation leaves it as it is. -/
def step (s : Session) : Action → Session
  | .make components =>
    ⟨s.workspace.make components, s.made ++ [⟨s.workspace.store.nextSerial, components⟩]⟩
  | .replace serial => match s.made[serial]? with
    | some next => { s with workspace := s.workspace.replace next }
    | none => s
  | .apply fresh op => match s.workspace.apply fresh op with
    | .ok w => s.follow w
    | .error _ => s
  | .clear => { s with workspace := s.workspace.clearHistory }

/-- The session after actions in order. -/
def run (s : Session) (actions : List Action) : Session := actions.foldl step s

/-- The workspace is sound, the snapshots that have been made stand at the places of their serial
numbers, and those of the line are among them. -/
structure Sound (s : Session) : Prop where
  workspace : s.workspace.Sound
  serials : s.made.map Snapshot.serial = List.range s.workspace.store.nextSerial
  line_subset : ∀ x ∈ s.workspace.timeline.toList, x ∈ s.made

variable {s : Session}

theorem sound_start (components : List Placed) : (start components).Sound :=
  ⟨Workspace.sound_ofComponents components, rfl, fun _ hx => hx⟩

/-- The present snapshot has been made. -/
theorem Sound.present_mem (h : s.Sound) : s.workspace.timeline.present ∈ s.made :=
  h.line_subset _ s.workspace.timeline.present_mem_toList

/-- What has been made has a smaller serial number than what will be made. -/
theorem Sound.serial_lt (h : s.Sound) {x : Snapshot} (hx : x ∈ s.made) :
    x.serial < s.workspace.store.nextSerial := by
  have hm : x.serial ∈ s.made.map Snapshot.serial := List.mem_map_of_mem hx
  rw [h.serials] at hm
  exact List.mem_range.1 hm

/-- **A serial number stands for one snapshot.** -/
theorem Sound.eq_of_serial_eq (h : s.Sound) {x y : Snapshot} (hx : x ∈ s.made) (hy : y ∈ s.made)
    (he : x.serial = y.serial) : x = y := by
  have hn : (s.made.map Snapshot.serial).Nodup := h.serials ▸ List.nodup_range
  exact List.inj_on_of_nodup_map hn hx hy he

/-- Replacing the current snapshot by one that has been made keeps a session sound. -/
theorem Sound.replace (h : s.Sound) {next : Snapshot} (hn : next ∈ s.made) :
    Sound { s with workspace := s.workspace.replace next } := by
  have hw : (s.workspace.replace next).Sound :=
    h.workspace.replace (h.serial_lt hn) (h.eq_of_serial_eq hn h.present_mem)
  refine ⟨hw, ?_, fun x hx => ?_⟩
  · show s.made.map Snapshot.serial = List.range (s.workspace.replace next).store.nextSerial
    rw [h.workspace.replace_eq]
    exact h.serials
  · replace hx : x ∈ (s.workspace.replace next).timeline.toList := hx
    rw [h.workspace.replace_eq] at hx
    rcases Timeline.mem_toList_record hx with hx | rfl
    · exact h.line_subset x hx
    · exact hn

/-- Making a snapshot keeps a session sound. -/
theorem Sound.make (h : s.Sound) (components : List Placed) :
    Sound ⟨s.workspace.make components,
      s.made ++ [⟨s.workspace.store.nextSerial, components⟩]⟩ := by
  refine ⟨h.workspace.make components, ?_, fun x hx => ?_⟩
  · show (s.made ++ [_]).map Snapshot.serial = List.range (s.workspace.store.nextSerial + 1)
    rw [List.map_append, h.serials, List.range_succ]
    rfl
  · exact List.mem_append_left _ (h.line_subset x hx)

/-- A workspace that has made no snapshot and stays on the line keeps a session sound. -/
theorem Sound.follow_of_line (h : s.Sound) {w : Workspace} (hw : w.Sound)
    (hl : w.timeline.toList = s.workspace.timeline.toList)
    (hn : w.store.nextSerial = s.workspace.store.nextSerial) : (s.follow w).Sound := by
  have hm : (s.follow w).made = s.made := by
    unfold follow
    rw [hn]
    exact if_neg (Nat.lt_irrefl _)
  refine ⟨hw, ?_, fun x hx => ?_⟩
  · show (s.follow w).made.map Snapshot.serial = List.range w.store.nextSerial
    rw [hm, h.serials, hn]
  · rw [hm]
    exact h.line_subset x (hl ▸ hx)

/-- Following a replacement by a new snapshot is making that one and replacing by it. -/
theorem follow_replaceNew (s : Session) (components : List Placed) :
    s.follow (s.workspace.replaceNew components) =
      ⟨(s.workspace.make components).replace ⟨s.workspace.store.nextSerial, components⟩,
        s.made ++ [⟨s.workspace.store.nextSerial, components⟩]⟩ := by
  unfold follow
  congr 1
  exact if_pos (Nat.lt_succ_self _)

/-- An operation keeps a session sound. -/
theorem Sound.apply (h : s.Sound) {fresh : BlockId} {op : Operation} {w : Workspace}
    (ha : s.workspace.apply fresh op = .ok w) : (s.follow w).Sound := by
  rcases Workspace.apply_cases ha with rfl | ⟨components, rfl⟩ | ⟨-, rfl⟩ | ⟨-, rfl⟩
  · exact h.follow_of_line h.workspace rfl rfl
  · rw [follow_replaceNew]
    exact (h.make components).replace (List.mem_append_right _ (List.mem_singleton_self _))
  · obtain ⟨hl, -, hn⟩ := s.workspace.toList_undo
    exact h.follow_of_line h.workspace.undo hl hn
  · obtain ⟨hl, -, hn⟩ := s.workspace.toList_redo
    exact h.follow_of_line h.workspace.redo hl hn

theorem Sound.clear (h : s.Sound) :
    Sound { s with workspace := s.workspace.clearHistory } := by
  refine ⟨h.workspace.clearHistory, h.serials, fun x hx => ?_⟩
  replace hx : x ∈ [s.workspace.timeline.present] := hx
  rw [List.mem_singleton.1 hx]
  exact h.present_mem

/-- **Every action keeps a session sound.** -/
theorem Sound.step (h : s.Sound) (a : Action) : (s.step a).Sound := by
  cases a with
  | make components => exact h.make components
  | replace serial =>
    simp only [Session.step]
    cases hn : s.made[serial]? with
    | none => exact h
    | some next => exact h.replace (List.mem_of_getElem? hn)
  | apply fresh op =>
    simp only [Session.step]
    cases ha : s.workspace.apply fresh op with
    | error error => exact h
    | ok w => exact h.apply ha
  | clear => exact h.clear

/-- Every run keeps a session sound. -/
theorem Sound.run (h : s.Sound) (actions : List Action) : (s.run actions).Sound := by
  induction actions generalizing s with
  | nil => exact h
  | cons a actions ih => exact ih (h.step a)

end Session

/-! ### The line and the place -/

/-- **The workspace stands at place `k` of the line `T`.**  What is behind stands before `k`, nearest
last, the present stands at `k` and is what the store holds, and what is ahead stands after `k`. -/
structure Workspace.StandsAt (w : Workspace) (T : List Snapshot) (k : Nat) : Prop where
  past_eq : w.timeline.past.reverse = T.take k
  present_eq : T[k]? = some w.timeline.present
  future_eq : w.timeline.future = T.drop (k + 1)
  current_eq : w.store.current = w.timeline.present

namespace Workspace

variable {w : Workspace}

/-- A workspace whose store holds the present stands at the cursor of its timeline. -/
theorem standsAt_of_timeline {T : List Snapshot} {k : Nat}
    (hc : w.store.current = w.timeline.present) (hT : w.timeline.toList = T)
    (hk : w.timeline.cursor = k) : w.StandsAt T k := by
  subst hT hk
  exact ⟨w.timeline.take_cursor_toList.symm, w.timeline.toList_getElem?_cursor,
    w.timeline.drop_cursor_toList.symm, hc⟩

theorem Sound.standsAt (h : w.Sound) : w.StandsAt w.timeline.toList w.timeline.cursor :=
  standsAt_of_timeline h.current_eq rfl rfl

/-- **A replacement by another snapshot** drops what stands after the place, puts the snapshot behind
the rest and moves onto it. -/
theorem Sound.standsAt_replace (h : w.Sound) {next : Snapshot}
    (hn : next.serial < w.store.nextSerial) (hp : next.serial ≠ w.store.current.serial) :
    (w.replace next).StandsAt (w.timeline.toList.take (w.timeline.cursor + 1) ++ [next])
      (w.timeline.cursor + 1) := by
  rw [h.current_eq] at hp
  have hs : (w.replace next).Sound := h.replace hn fun he => absurd he hp
  have ht : (w.replace next).timeline = w.timeline.record next := by rw [h.replace_eq]; rfl
  refine standsAt_of_timeline hs.current_eq ?_ ?_
  · rw [ht, Timeline.toList_record hp]
  · rw [ht, Timeline.cursor_record hp]

/-- A replacement by a new snapshot is one by another snapshot. -/
theorem Sound.standsAt_replaceNew (h : w.Sound) (components : List Placed) :
    (w.replaceNew components).StandsAt
      (w.timeline.toList.take (w.timeline.cursor + 1) ++ [⟨w.store.nextSerial, components⟩])
      (w.timeline.cursor + 1) := by
  rw [replaceNew_eq]
  refine (h.make components).standsAt_replace (Nat.lt_succ_self _) ?_
  rw [(h.make components).current_eq]
  exact h.nextSerial_ne

theorem Sound.standsAt_undo (h : w.Sound) :
    w.undo.StandsAt w.timeline.toList (w.timeline.cursor - 1) := by
  obtain ⟨hl, hc, -⟩ := w.toList_undo
  exact standsAt_of_timeline h.undo.current_eq hl hc

theorem Sound.standsAt_redo (h : w.Sound) :
    w.redo.StandsAt w.timeline.toList
      (if w.timeline.cursor + 1 < w.timeline.toList.length then w.timeline.cursor + 1
      else w.timeline.cursor) := by
  obtain ⟨hl, hc, -⟩ := w.toList_redo
  exact standsAt_of_timeline h.redo.current_eq hl hc

/-- There is a step back exactly if there is a snapshot behind, and it says so. -/
theorem isSome_undo? (w : Workspace) : w.undo?.isSome ↔ 0 < w.timeline.cursor := by
  rw [undo?, step?, Option.isSome_map, Timeline.isSome_undo?, Timeline.canUndo_iff]

/-- There is a step forward exactly if there is a snapshot ahead, and it says so. -/
theorem isSome_redo? (w : Workspace) :
    w.redo?.isSome ↔ w.timeline.cursor + 1 < w.timeline.toList.length := by
  rw [redo?, step?, Option.isSome_map, Timeline.isSome_redo?, Timeline.canRedo_iff]

end Workspace

/-- **A workspace is a place on a line of snapshots.**  After every run from every collection there
are a line `T` and a place `k` on it at which the workspace stands.  A replacement by a snapshot
other than that at `k` drops what stands after `k`, puts the snapshot behind the rest and moves onto
it, and a replacement by the same one changes nothing; a new snapshot is never the same.  An
operation that asks for an edit is, where the edit is neither refused nor idle, a replacement by a
new snapshot.  Undo and redo move along the line as far as it goes and say whether they have moved,
which is foretold, and clearing leaves the snapshot at `k` alone. -/
theorem Session.run_standsAt (components : List Placed) (actions : List Action) :
    let s := (start components).run actions
    let w := s.workspace
    ∃ T k, w.StandsAt T k ∧
      (∀ next ∈ s.made, next.serial ≠ w.store.current.serial →
        (w.replace next).StandsAt (T.take (k + 1) ++ [next]) (k + 1)) ∧
      (∀ next ∈ s.made, next.serial = w.store.current.serial → w.replace next = w) ∧
      (∀ made ∈ s.made, made.serial ≠ w.store.nextSerial) ∧
      (∀ components, (w.replaceNew components).StandsAt
        (T.take (k + 1) ++ [⟨w.store.nextSerial, components⟩]) (k + 1)) ∧
      (∀ fresh op r, op.edit? fresh = some r →
        w.apply fresh op = r.bind fun e =>
          (e.run w.components).map fun next => if e.isIdle then w else w.replaceNew next) ∧
      ((w.undo?.isSome ↔ 0 < k) ∧ w.undo.StandsAt T (k - 1)) ∧
      ((w.redo?.isSome ↔ k + 1 < T.length) ∧
        w.redo.StandsAt T (if k + 1 < T.length then k + 1 else k)) ∧
      w.clearHistory.StandsAt [w.timeline.present] 0 ∧
      (w.timeline.canUndo ↔ 0 < k) ∧ (w.timeline.canRedo ↔ k + 1 < T.length) := by
  intro s w
  have h : s.Sound := (sound_start components).run actions
  have hw : w.Sound := h.workspace
  refine ⟨w.timeline.toList, w.timeline.cursor, hw.standsAt, ?_, ?_, ?_,
    hw.standsAt_replaceNew, ?_, ⟨w.isSome_undo?, hw.standsAt_undo⟩,
    ⟨w.isSome_redo?, hw.standsAt_redo⟩, ?_, w.timeline.canUndo_iff, w.timeline.canRedo_iff⟩
  · exact fun next hn hp => hw.standsAt_replace (h.serial_lt hn) hp
  · intro next hn hp
    rw [hw.current_eq] at hp
    rw [h.eq_of_serial_eq hn h.present_mem hp]
    exact hw.replace_present
  · exact fun made hm => Nat.ne_of_lt (h.serial_lt hm)
  · intro fresh op r hr
    rw [Workspace.apply_of_edit? hr]
    exact congrArg r.bind (funext w.edit_eq)
  · exact Workspace.standsAt_of_timeline hw.clearHistory.current_eq rfl rfl

end ContractBlocks
