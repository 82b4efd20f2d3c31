/-
# Undoing and redoing amount to leaving operations out

A script is applied operation by operation, past the ones that fail.  Beside it two stacks are kept:
on `done` lie the operations that have changed the collection and have not been undone, on `undone`
those that have been and may be redone.  An operation that fails and an update by the empty patch
touch neither (`Stacks.after`).  What lies on `done` is the effective script.

`Workspace.play_effective` says that the effective script alone leads from the same start to the
same collection, and that each of its operations succeeds on the way.  The two stacks together, the
undone operations behind the done ones, lead along the line of snapshots (`Follows`), and the number
of done operations is the place on it; undo and redo change the place only.
-/

import ContractBlocks.Proofs.History.Sound
import ContractBlocks.Command.Run

namespace ContractBlocks

namespace Operation

/-- The operation with the identity of the block that it adds settled. -/
def settle (fresh : BlockId) : Operation → Operation
  | .add tagName id seed position => .add tagName (some (id.getD fresh)) seed position
  | op => op

/-- An operation that changes nothing where it succeeds: an update by the empty patch. -/
def isIdle : Operation → Bool
  | .update _ patch => patch.isEmpty
  | _ => false

/-- The operation asks for an edit that makes `b` of the collection `a`, whatever identity a new
block would be given. -/
def Leads (op : Operation) (a b : List Placed) : Prop :=
  ∀ fresh, ∃ e, op.edit? fresh = some (.ok e) ∧ e.run a = .ok b

/-- A settled operation asks for the same edit, whatever identity a new block would be given. -/
theorem edit?_settle (op : Operation) (fresh other : BlockId) :
    (op.settle fresh).edit? other = op.edit? fresh := by
  cases op <;> rfl

theorem leads_settle {op : Operation} {fresh : BlockId} {e : Edit} {a b : List Placed}
    (he : op.edit? fresh = some (.ok e)) (hr : e.run a = .ok b) : (op.settle fresh).Leads a b :=
  fun other => ⟨e, (op.edit?_settle fresh other).trans he, hr⟩

theorem isIdle_of_edit? {op : Operation} {fresh : BlockId} {e : Edit}
    (h : op.edit? fresh = some (.ok e)) : (op.settle fresh).isIdle = e.isIdle := by
  cases op with
  | add tagName id seed position =>
    have h := Option.some.inj h
    cases hb : Block.create (id.getD fresh) tagName (seed.getD .empty) with
    | error error => rw [hb] at h; cases h
    | ok b => rw [hb] at h; obtain rfl := Except.ok.inj h; rfl
  | update | move | remove => obtain rfl := Except.ok.inj (Option.some.inj h); rfl
  | undo | redo => cases h

end Operation

/-- Operations done and operations undone, in each case the one to be taken next first. -/
structure Stacks where
  done : List Operation
  undone : List Operation

namespace Stacks

/-- Nothing is done and nothing undone. -/
def empty : Stacks := ⟨[], []⟩

/-- The stacks after an operation, by whether it has succeeded. -/
def after (s : Stacks) (succeeded : Bool) : Operation → Stacks
  | .undo => match s.done with
    | [] => s
    | op :: done => ⟨done, op :: s.undone⟩
  | .redo => match s.undone with
    | [] => s
    | op :: undone => ⟨op :: s.done, undone⟩
  | op => if succeeded && !op.isIdle then ⟨op :: s.done, []⟩ else s

/-- The operations that count, in the order in which they were done. -/
def effective (s : Stacks) : List Operation := s.done.reverse

/-- The operations of both stacks, in the order in which they follow on each other. -/
def all (s : Stacks) : List Operation := s.done.reverse ++ s.undone

theorem all_undo (s : Stacks) (b : Bool) :
    (s.after b .undo).all = s.all ∧ (s.after b .undo).done.length = s.done.length - 1 := by
  obtain ⟨done, undone⟩ := s
  cases done <;> simp [after, all]

theorem all_redo (s : Stacks) (b : Bool) :
    (s.after b .redo).all = s.all ∧
      (s.after b .redo).done.length =
        if s.done.length < s.all.length then s.done.length + 1 else s.done.length := by
  obtain ⟨done, undone⟩ := s
  cases undone <;> simp [after, all]

/-- An operation that asks for an edit is put on top of the done ones, if it has succeeded and is
not idle; nothing can be redone then. -/
theorem after_of_edit? (s : Stacks) {op : Operation} {fresh : BlockId} {r : Except EditError Edit}
    (h : op.edit? fresh = some r) (b : Bool) :
    s.after b (op.settle fresh) =
      if b && !(op.settle fresh).isIdle then ⟨op.settle fresh :: s.done, []⟩ else s := by
  cases op with
  | undo | redo => cases h
  | _ => rfl

end Stacks

namespace Workspace

/-- Applies one operation of a script, with the identity for a new block, and keeps the stacks. -/
def playStep (p : Workspace × Stacks) (line : BlockId × Operation) : Workspace × Stacks :=
  match p.1.apply line.1 line.2 with
  | .ok w => (w, p.2.after true (line.2.settle line.1))
  | .error _ => (p.1, p.2.after false (line.2.settle line.1))

/-- Applies the operations of a script in order, past those that fail, and keeps the stacks. -/
def play (p : Workspace × Stacks) (script : List (BlockId × Operation)) : Workspace × Stacks :=
  script.foldl playStep p

end Workspace

/-- **The operations lead along the line.**  It starts at the given collection, and each operation
leads from one snapshot to the next. -/
inductive Follows : List Placed → List Operation → List Snapshot → Prop where
  | start (s : Snapshot) : Follows s.components [] [s]
  | step (s : Snapshot) {op : Operation} {next : List Placed} {ops : List Operation}
      {line : List Snapshot} (hop : op.Leads s.components next) (rest : Follows next ops line) :
      Follows s.components (op :: ops) (s :: line)

namespace Follows

variable {a : List Placed} {ops : List Operation} {line : List Snapshot}

/-- A line has one snapshot more than there are operations along it. -/
theorem length_eq (h : Follows a ops line) : line.length = ops.length + 1 := by
  induction h with
  | start => rfl
  | step s hop rest ih => rw [List.length_cons, List.length_cons, ih]

/-- The first operations lead along the first snapshots. -/
theorem take (h : Follows a ops line) (k : Nat) : Follows a (ops.take k) (line.take (k + 1)) := by
  induction h generalizing k with
  | start s =>
    rw [List.take_nil, List.take_succ_cons, List.take_nil]
    exact .start s
  | step s hop rest ih =>
    cases k with
    | zero => exact .start s
    | succ k => exact .step s hop (ih k)

/-- One more operation leads from the last snapshot to one more. -/
theorem concat (h : Follows a ops line) {last next : Snapshot} {op : Operation}
    (hl : line.getLast? = some last) (hop : op.Leads last.components next.components) :
    Follows a (ops ++ [op]) (line ++ [next]) := by
  induction h with
  | start s =>
    obtain rfl := Option.some.inj hl
    exact .step s hop (.start next)
  | step s hs rest ih =>
    refine .step s hs (ih ?_)
    cases rest <;> exact hl

/-- **The operations alone lead to the last snapshot.**  Applied in order in a sound workspace that
holds the start of the line, each of them succeeds. -/
theorem replay (h : Follows a ops line) {last : Snapshot} (hl : line.getLast? = some last)
    {w : Workspace} (hw : w.Sound) (ha : w.components = a) (world : World) (i : Nat) :
    ∃ w', Command.replayFrom world i w ops = .ok w' ∧ w'.components = last.components := by
  induction h generalizing w i with
  | start s =>
    obtain rfl := Option.some.inj hl
    exact ⟨w, rfl, ha⟩
  | @step s op next ops line hop rest ih =>
    obtain ⟨e, he, hr⟩ := hop (world.fresh i)
    have happ : w.apply (world.fresh i) op =
        .ok (if e.isIdle then w else w.replaceNew next) := by
      rw [Workspace.apply_of_edit? he]
      show w.edit e = _
      rw [Workspace.edit_eq, ha, hr]
      rfl
    have hnext : (if e.isIdle then w else w.replaceNew next).components = next := by
      split
      · next hi => rw [ha]; exact Edit.eq_of_run_of_isIdle hi hr
      · exact w.components_replaceNew next
    have hl' : line.getLast? = some last := by cases rest <;> exact hl
    obtain ⟨w', hw', hc⟩ := ih hl' (hw.apply happ) hnext (i + 1)
    refine ⟨w', ?_, hc⟩
    rw [Command.replayFrom, happ]
    exact hw'

end Follows

namespace Workspace

/-- **The stacks retrace the line.**  The workspace is sound, the operations of both stacks lead
along its line, and as many of them are done as there are snapshots behind. -/
structure Retraced (components : List Placed) (p : Workspace × Stacks) : Prop where
  sound : p.1.Sound
  follows : Follows components p.2.all p.1.timeline.toList
  place : p.2.done.length = p.1.timeline.cursor

variable {components : List Placed} {p : Workspace × Stacks}

theorem retraced_ofComponents (components : List Placed) :
    Retraced components (.ofComponents components, .empty) :=
  ⟨sound_ofComponents components, .start ⟨0, components⟩, rfl⟩

theorem Retraced.undo (h : Retraced components p) (b : Bool) :
    Retraced components (p.1.undo, p.2.after b .undo) := by
  obtain ⟨hl, hc, -⟩ := p.1.toList_undo
  obtain ⟨ha, hd⟩ := p.2.all_undo b
  refine ⟨h.sound.undo, ?_, ?_⟩
  · show Follows components (p.2.after b .undo).all p.1.undo.timeline.toList
    rw [ha, hl]
    exact h.follows
  · show (p.2.after b .undo).done.length = p.1.undo.timeline.cursor
    rw [hd, hc, h.place]

theorem Retraced.redo (h : Retraced components p) (b : Bool) :
    Retraced components (p.1.redo, p.2.after b .redo) := by
  obtain ⟨hl, hc, -⟩ := p.1.toList_redo
  obtain ⟨ha, hd⟩ := p.2.all_redo b
  refine ⟨h.sound.redo, ?_, ?_⟩
  · show Follows components (p.2.after b .redo).all p.1.redo.timeline.toList
    rw [ha, hl]
    exact h.follows
  · show (p.2.after b .redo).done.length = p.1.redo.timeline.cursor
    rw [hd, hc, h.place, h.follows.length_eq]
    simp only [Nat.add_lt_add_iff_right]

/-- The done operations lead to the present. -/
theorem Retraced.follows_done (h : Retraced components p) :
    Follows components p.2.effective (p.1.timeline.past.reverse ++ [p.1.timeline.present]) := by
  have hf := h.follows.take p.2.done.length
  have hd : p.2.all.take p.2.done.length = p.2.effective := by
    rw [Stacks.all, ← List.length_reverse, List.take_left]
    rfl
  have hl : p.1.timeline.toList.take (p.2.done.length + 1) =
      p.1.timeline.past.reverse ++ [p.1.timeline.present] := by
    rw [h.place, List.take_add_one, p.1.timeline.take_cursor_toList,
      p.1.timeline.toList_getElem?_cursor]
    rfl
  rwa [hd, hl] at hf

/-- A new snapshot, made by an operation that leads to it, is retraced by putting the operation on
top of the done ones. -/
theorem Retraced.replaceNew (h : Retraced components p) {op : Operation} {next : List Placed}
    (hop : op.Leads p.1.components next) :
    Retraced components (p.1.replaceNew next, ⟨op :: p.2.done, []⟩) := by
  have ht := h.sound.timeline_replaceNew next
  have hc : p.1.timeline.present.components = p.1.components := by
    rw [← h.sound.current_eq]
    rfl
  refine ⟨h.sound.replaceNew next, ?_, ?_⟩
  · show Follows components (Stacks.all ⟨op :: p.2.done, []⟩) (p.1.replaceNew next).timeline.toList
    have hl : (p.1.replaceNew next).timeline.toList =
        (p.1.timeline.past.reverse ++ [p.1.timeline.present]) ++
          [⟨p.1.store.nextSerial, next⟩] := by
      rw [ht, Timeline.toList, List.reverse_cons]
    have ha : Stacks.all ⟨op :: p.2.done, []⟩ = p.2.effective ++ [op] := by
      rw [Stacks.all, List.reverse_cons, List.append_nil]
      rfl
    rw [hl, ha]
    exact h.follows_done.concat List.getLast?_concat (hc ▸ hop)
  · show (op :: p.2.done).length = (p.1.replaceNew next).timeline.cursor
    rw [ht, List.length_cons, h.place]
    rfl

/-- **One operation keeps the line retraced,** whether it succeeds or fails. -/
theorem Retraced.playStep (h : Retraced components p) (line : BlockId × Operation) :
    Retraced components (playStep p line) := by
  obtain ⟨fresh, op⟩ := line
  cases he : op.edit? fresh with
  | none =>
    rcases Operation.edit?_eq_none_iff.1 he with rfl | rfl
    · exact h.undo true
    · exact h.redo true
  | some r =>
    unfold Workspace.playStep
    simp only [apply_of_edit? he, p.2.after_of_edit? he]
    cases r with
    | error error => exact h
    | ok e =>
      show Retraced components (match p.1.edit e with
        | .ok w => (w, _)
        | .error _ => (p.1, _))
      rw [edit_eq, Operation.isIdle_of_edit? he]
      cases hr : e.run p.1.components with
      | error error => exact h
      | ok next =>
        cases hi : e.isIdle with
        | true => exact h
        | false => exact h.replaceNew (Operation.leads_settle he hr)

theorem Retraced.play (h : Retraced components p) (script : List (BlockId × Operation)) :
    Retraced components (play p script) := by
  induction script generalizing p with
  | nil => exact h
  | cons line script ih => exact ih (h.playStep line)

end Workspace

namespace Command

/-- The operations with the identities that new blocks get, from the given index on. -/
def numbered (world : World) : Nat → List Operation → List (BlockId × Operation)
  | _, [] => []
  | i, op :: ops => (world.fresh i, op) :: numbered world (i + 1) ops

/-- A replay that no operation stops applies the whole script. -/
theorem play_of_replayFrom {world : World} {ops : List Operation} {i : Nat} {w w' : Workspace}
    (h : replayFrom world i w ops = .ok w') (s : Stacks) :
    (Workspace.play (w, s) (numbered world i ops)).1 = w' := by
  induction ops generalizing i w s with
  | nil => exact Except.ok.inj h
  | cons op ops ih =>
    rw [replayFrom] at h
    rw [numbered, Workspace.play, List.foldl_cons, Workspace.playStep]
    cases ha : w.apply (world.fresh i) op with
    | error error => rw [ha] at h; cases h
    | ok u => rw [ha] at h; exact ih h _

end Command

/-- **Only the effective script counts.**  Whatever is done, undone, redone and refused on the way,
the effective script alone leads from the same start to the same collection, each of its operations
succeeds, and the source text is the same: the text that a replay prints depends on the effective
script of its operations only. -/
theorem Workspace.play_effective (components : List Placed) (script : List (BlockId × Operation))
    (world : World) :
    let r := play (.ofComponents components, .empty) script
    ∃ w, Command.replayFrom world 0 (.ofComponents components) r.2.effective = .ok w ∧
      w.components = r.1.components ∧
      ∀ ops space, script = Command.numbered world 0 ops →
        Command.replayFrom world 0 (.ofComponents components) ops = .ok space →
          ∀ o name, Source.ofComponents o name space.components =
            Source.ofComponents o name w.components := by
  intro r
  have h : Retraced components r := (retraced_ofComponents components).play script
  obtain ⟨w, hw, hc⟩ := h.follows_done.replay List.getLast?_concat
    (sound_ofComponents components) rfl world 0
  have hr : w.components = r.1.components := by
    rw [hc, ← h.sound.current_eq]
    rfl
  refine ⟨w, hw, hr, ?_⟩
  rintro ops space rfl hs o name
  rw [hr, ← Command.play_of_replayFrom hs .empty]

end ContractBlocks
