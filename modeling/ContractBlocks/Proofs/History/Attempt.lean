/-
# An operation happens as a whole or not at all

An operation is carried out step by step on a desk, where the workspace lies together with the
notices that its store has sent (`Operation.carryOut`).  It may stop at several points, and what lies
on the desk then stays there: the tag may be unknown, the identity taken, or no block of it there.
Applying the operation is carrying it out and taking the workspace from the desk, if nothing has
stopped it (`Workspace.apply_eq_attempt`).

`Session.attempt_whole` says what is left on the desk in every state that a session can come to.  If
the operation has stopped, the desk is as it was before, down to the snapshot that the store holds,
and nothing has been sent.  If it has not and it was to change something, the history alone was told,
once and of an edit, the former present lies on top of the past, nothing is ahead, and the collection
is the former one but for the block that the operation is about (`Operation.Makes`).
-/

import ContractBlocks.Proofs.History.Session

namespace ContractBlocks

/-! ### Carrying out an operation -/

/-- A workspace, and the notices that its store has sent so far. -/
structure Desk where
  workspace : Workspace
  sent : List Notice

/-- Work on a desk, which may stop; what lies on the desk by then stays there. -/
abbrev Work := EStateM EditError Desk

namespace Work

/-- Replaces something in the store of the workspace and takes down what the store sends. -/
def publish (replace : Store → Store × List Notice) : Work Unit :=
  modify fun d =>
    ⟨d.workspace.publish (replace d.workspace.store), d.sent ++ (replace d.workspace.store).2⟩

/-- Edits the collection: the edit may be refused, and an idle one has nothing to do. -/
def edit (e : Edit) : Work Unit := do
  let components := (← get).workspace.components
  if let some error := e.refusal? components then throw error
  if e.isIdle then return
  publish fun store => store.replaceNew (e.perform components) .edit

/-- Makes a block of a tag name and adds it. -/
def add (id : BlockId) (tagName : String) (seed : Seed) (position : Position) : Work Unit := do
  match Block.create id tagName seed with
  | .ok b => edit (.add (b.place position))
  | .error error => throw error

/-- Steps the history, if there is a step to take, and makes its present current. -/
def step (move : Timeline → Option Timeline) : Work Unit := do
  let d ← get
  match move d.workspace.timeline with
  | none => return
  | some t =>
    set { d with workspace.history.timeline := t }
    publish fun store => store.replace t.present .history

end Work

/-- Carries out an operation; a block without an identity is given `fresh`. -/
def Operation.carryOut (fresh : BlockId) : Operation → Work Unit
  | .add tagName id seed position => .add (id.getD fresh) tagName (seed.getD .empty) position
  | .update id patch => .edit (.update id patch)
  | .move id position => .edit (.move id position)
  | .remove id => .edit (.remove id)
  | .undo => .step Timeline.undo?
  | .redo => .step Timeline.redo?

/-- What carrying out an operation on a workspace leaves on the desk, and whether it has stopped. -/
def Workspace.attempt (w : Workspace) (fresh : BlockId) (op : Operation) :
    EStateM.Result EditError Desk Unit :=
  (op.carryOut fresh).run ⟨w, []⟩

/-! ### What an edit makes of a collection -/

theorem Placed.modifyFirst_append {before : List Placed} {p : Placed} {id : BlockId}
    (h : ∀ q ∈ before, q.id ≠ id) (hp : p.id = id) (f : Placed → Placed) (after : List Placed) :
    modifyFirst id f (before ++ p :: after) = before ++ f p :: after := by
  induction before with
  | nil => rw [List.nil_append, List.nil_append, modifyFirst, if_pos hp]
  | cons q before ih =>
    rw [List.cons_append, modifyFirst, if_neg (h q List.mem_cons_self),
      ih fun r hr => h r (List.mem_cons_of_mem _ hr)]
    rfl

/-- Where there is a block of an identity, the first one has others before it. -/
theorem Placed.exists_of_find? {components : List Placed} {id : BlockId}
    (h : (Placed.find? components id).isSome) :
    ∃ before p after, components = before ++ p :: after ∧ p.id = id ∧ ∀ q ∈ before, q.id ≠ id := by
  obtain ⟨p, hp⟩ := Option.isSome_iff_exists.1 h
  obtain ⟨hid, before, after, rfl, hb⟩ := List.find?_eq_some_iff_append.1 hp
  exact ⟨before, p, after, rfl, by simpa using hid, fun q hq => by simpa using hb q hq⟩

/-- **What an operation makes of a collection.**  It is about one block: a new one behind the others,
or the first one of the identity, which it patches, moves or removes.  All others stay as they are
and in order. -/
inductive Operation.Makes (fresh : BlockId) : Operation → List Placed → List Placed → Prop where
  | add {tagName : String} {id : Option BlockId} {seed : Option Seed} {position : Position}
      {components : List Placed} {b : Block}
      (hb : Block.create (id.getD fresh) tagName (seed.getD .empty) = .ok b)
      (hid : b.id = id.getD fresh) (hnew : ∀ q ∈ components, q.id ≠ b.id) :
      Makes fresh (.add tagName id seed position) components (components ++ [⟨b, position⟩])
  | update {patch : Patch} {before after : List Placed} {p : Placed}
      (hfirst : ∀ q ∈ before, q.id ≠ p.id) :
      Makes fresh (.update p.id patch) (before ++ p :: after)
        (before ++ { p with block := p.block.patch patch } :: after)
  | move {position : Position} {before after : List Placed} {p : Placed}
      (hfirst : ∀ q ∈ before, q.id ≠ p.id) :
      Makes fresh (.move p.id position) (before ++ p :: after)
        (before ++ { p with position := position } :: after)
  | remove {before after : List Placed} {p : Placed} (hfirst : ∀ q ∈ before, q.id ≠ p.id) :
      Makes fresh (.remove p.id) (before ++ p :: after) (before ++ after)

theorem Block.id_of_create {id : BlockId} {tagName : String} {seed : Seed} {b : Block}
    (h : Block.create id tagName seed = .ok b) : b.id = id := by
  unfold create at h
  split at h
  · rw [← Except.ok.inj h]
    rfl
  · cases h

theorem Edit.run_eq_ok {e : Edit} {components next : List Placed}
    (h : e.run components = .ok next) :
    e.refusal? components = none ∧ e.perform components = next := by
  unfold run at h
  split at h
  · cases h
  · next hnone => exact ⟨hnone, Except.ok.inj h⟩

/-- What is added where it is not refused has an identity that is new. -/
theorem Edit.id_ne_of_refusal? {components : List Placed} {p : Placed}
    (h : refusal? components (.add p) = none) : ∀ q ∈ components, q.id ≠ p.id := by
  intro q hq hid
  have hsome : (Placed.find? components p.id).isSome :=
    List.find?_isSome.2 ⟨q, hq, beq_iff_eq.2 hid⟩
  have hrefused : refusal? components (.add p) = some (.duplicateBlock p.id) := if_pos hsome
  rw [hrefused] at h
  cases h

/-- Any other edit that is not refused finds a block of its identity. -/
theorem Edit.exists_of_refusal? {components : List Placed} {e : Edit}
    (hadd : ∀ p, e ≠ .add p) (h : e.refusal? components = none) :
    ∃ before p after, components = before ++ p :: after ∧ p.id = e.target ∧
      ∀ q ∈ before, q.id ≠ p.id := by
  have hfound : (Placed.find? components e.target).isSome := by
    by_contra hn
    cases e with
    | add p => exact hadd p rfl
    | update id | move id | remove id =>
      have hrefused : (none : Option EditError) = some (.missingBlock id) := h ▸ if_neg hn
      cases hrefused
  obtain ⟨before, p, after, hc, hid, hfirst⟩ := Placed.exists_of_find? hfound
  exact ⟨before, p, after, hc, hid, hid ▸ hfirst⟩

/-- An operation that asks for an edit makes of a collection what the edit makes of it. -/
theorem Operation.makes_of_run {fresh : BlockId} {op : Operation} {e : Edit}
    {components next : List Placed} (he : op.edit? fresh = some (.ok e))
    (hr : e.run components = .ok next) : op.Makes fresh components next := by
  obtain ⟨hnone, rfl⟩ := Edit.run_eq_ok hr
  cases op with
  | add tagName id seed position =>
    have he := Option.some.inj he
    cases hb : Block.create (id.getD fresh) tagName (seed.getD .empty) with
    | error error => rw [hb] at he; cases he
    | ok b =>
      rw [hb] at he
      obtain rfl := Except.ok.inj he
      exact .add hb (Block.id_of_create hb) (Edit.id_ne_of_refusal? hnone)
  | update id patch =>
    obtain rfl := Except.ok.inj (Option.some.inj he)
    obtain ⟨before, p, after, rfl, rfl, hfirst⟩ := Edit.exists_of_refusal? (fun _ h => by cases h) hnone
    rw [Edit.perform, Placed.modifyFirst_append hfirst rfl]
    exact .update hfirst
  | move id position =>
    obtain rfl := Except.ok.inj (Option.some.inj he)
    obtain ⟨before, p, after, rfl, rfl, hfirst⟩ := Edit.exists_of_refusal? (fun _ h => by cases h) hnone
    rw [Edit.perform, Placed.modifyFirst_append hfirst rfl]
    exact .move hfirst
  | remove id =>
    obtain rfl := Except.ok.inj (Option.some.inj he)
    obtain ⟨before, p, after, rfl, rfl, hfirst⟩ := Edit.exists_of_refusal? (fun _ h => by cases h) hnone
    have herase : (before ++ p :: after).eraseP (fun q => q.id == p.id) = before ++ after := by
      rw [List.eraseP_append_right _ fun q hq => by simpa using hfirst q hq,
        List.eraseP_cons_of_pos (by simp)]
    rw [Edit.perform, herase]
    exact .remove hfirst
  | undo | redo => cases he

/-! ### What is left on the desk -/

namespace Workspace

variable {w : Workspace} {fresh : BlockId} {op : Operation}

theorem Work.get_eq (d : Desk) : (EStateM.get : Work Desk) d = .ok d d := rfl

/-- **An edit as it is carried out.**  It stops before anything has changed, changes nothing, or
replaces the current snapshot by a new one, of which the subscribers are told. -/
theorem run_edit (w : Workspace) (e : Edit) :
    (Work.edit e).run ⟨w, []⟩ = match e.run w.components with
      | .error error => .error error ⟨w, []⟩
      | .ok next =>
        if e.isIdle then .ok () ⟨w, []⟩
        else .ok () ⟨w.replaceNew next, (w.store.replaceNew next .edit).2⟩ := by
  unfold Work.edit Edit.run
  cases h : e.refusal? w.components with
  | some error =>
    simp only [EStateM.run, bind, EStateM.bind, get, getThe, MonadStateOf.get, Work.get_eq, h]
    rfl
  | none =>
    by_cases hi : e.isIdle
    · simp only [EStateM.run, bind, EStateM.bind, get, getThe, MonadStateOf.get, Work.get_eq, h, hi]
      rfl
    · simp only [EStateM.run, bind, EStateM.bind, get, getThe, MonadStateOf.get, Work.get_eq, h, hi]
      rfl

/-- What asks for an edit is carried out as that edit, if there is one. -/
theorem attempt_of_edit? {r : Except EditError Edit} :
    op.edit? fresh = some r → w.attempt fresh op = match r with
      | .error error => .error error ⟨w, []⟩
      | .ok e => (Work.edit e).run ⟨w, []⟩ := by
  intro h
  cases op with
  | add tagName id seed position =>
    obtain rfl := Option.some.inj h
    show (Work.add (id.getD fresh) tagName (seed.getD .empty) position).run ⟨w, []⟩ = _
    unfold Work.add
    cases Block.create (id.getD fresh) tagName (seed.getD .empty) <;> rfl
  | update | move | remove => obtain rfl := Option.some.inj h; rfl
  | undo | redo => cases h

/-- A step is carried out without stopping. -/
theorem run_step (w : Workspace) (move : Timeline → Option Timeline) :
    ∃ sent, (Work.step move).run ⟨w, []⟩ = .ok () ⟨(w.step? move).getD w, sent⟩ := by
  unfold Work.step step?
  simp only [EStateM.run, bind, EStateM.bind, get, getThe, MonadStateOf.get, Work.get_eq]
  cases move w.timeline with
  | none => exact ⟨[], rfl⟩
  | some t => exact ⟨_, rfl⟩

/-- **Applying an operation is carrying it out,** and taking the workspace from the desk if nothing
has stopped it. -/
theorem apply_eq_attempt (w : Workspace) (fresh : BlockId) (op : Operation) :
    w.apply fresh op = match w.attempt fresh op with
      | .ok _ d => .ok d.workspace
      | .error error _ => .error error := by
  cases he : op.edit? fresh with
  | none =>
    rcases Operation.edit?_eq_none_iff.1 he with rfl | rfl
    · obtain ⟨sent, h⟩ := w.run_step Timeline.undo?
      show Except.ok w.undo = match (Work.step Timeline.undo?).run ⟨w, []⟩ with
        | .ok _ d => .ok d.workspace
        | .error error _ => .error error
      rw [h]
      rfl
    · obtain ⟨sent, h⟩ := w.run_step Timeline.redo?
      show Except.ok w.redo = match (Work.step Timeline.redo?).run ⟨w, []⟩ with
        | .ok _ d => .ok d.workspace
        | .error error _ => .error error
      rw [h]
      rfl
  | some r =>
    rw [apply_of_edit? he, attempt_of_edit? he]
    cases r with
    | error error => rfl
    | ok e =>
      show w.edit e = _
      dsimp only
      rw [edit_eq, run_edit]
      cases e.run w.components with
      | error error => rfl
      | ok next => by_cases hi : e.isIdle <;> simp only [hi] <;> rfl

/-- An operation that has stopped has left the desk as it was. -/
theorem desk_of_attempt_error {error : EditError} {d : Desk}
    (h : w.attempt fresh op = .error error d) : d = ⟨w, []⟩ := by
  cases he : op.edit? fresh with
  | none =>
    rcases Operation.edit?_eq_none_iff.1 he with rfl | rfl
    · obtain ⟨sent, hs⟩ := w.run_step Timeline.undo?
      cases hs.symm.trans h
    · obtain ⟨sent, hs⟩ := w.run_step Timeline.redo?
      cases hs.symm.trans h
  | some r =>
    rw [attempt_of_edit? he] at h
    cases r with
    | error error => cases h; rfl
    | ok e =>
      dsimp only at h
      rw [run_edit] at h
      cases hr : e.run w.components with
      | error error => rw [hr] at h; cases h; rfl
      | ok next =>
        rw [hr] at h
        by_cases hi : e.isIdle <;> simp [hi] at h

/-- An operation that asks for an edit and has not stopped was neither refused nor ill-formed. -/
theorem exists_of_attempt_ok {r : Except EditError Edit} (he : op.edit? fresh = some r) {d : Desk}
    (h : w.attempt fresh op = .ok () d) :
    ∃ e next, r = .ok e ∧ e.run w.components = .ok next ∧
      d = if e.isIdle then ⟨w, []⟩
        else ⟨w.replaceNew next, (w.store.replaceNew next .edit).2⟩ := by
  rw [attempt_of_edit? he] at h
  cases r with
  | error error => cases h
  | ok e =>
    dsimp only at h
    rw [run_edit] at h
    cases hr : e.run w.components with
    | error error => rw [hr] at h; cases h
    | ok next =>
      refine ⟨e, next, rfl, hr, ?_⟩
      rw [hr] at h
      by_cases hi : e.isIdle
      · simp only [hi, if_true] at h ⊢
        cases h
        rfl
      · simp only [hi] at h ⊢
        cases h
        rfl

end Workspace

/-- An edit is idle exactly if it was asked for as an update by the empty patch. -/
theorem Operation.isIdle_iff_of_edit? {fresh : BlockId} {op : Operation} {e : Edit}
    (h : op.edit? fresh = some (.ok e)) : e.isIdle ↔ ∃ id, op = .update id .empty := by
  cases op with
  | add tagName id seed position =>
    have h := Option.some.inj h
    cases hb : Block.create (id.getD fresh) tagName (seed.getD .empty) with
    | error error => rw [hb] at h; cases h
    | ok b =>
      rw [hb] at h
      obtain rfl := Except.ok.inj h
      simp [Edit.isIdle]
  | update id patch =>
    obtain rfl := Except.ok.inj (Option.some.inj h)
    simp [Edit.isIdle, Patch.isEmpty]
  | move | remove =>
    obtain rfl := Except.ok.inj (Option.some.inj h)
    simp [Edit.isIdle]
  | undo | redo => cases h

/-- **An operation happens as a whole or not at all.**  In every state that a session can come to,
applying an operation is carrying it out.  If it has stopped, the desk is as it was: the same
workspace with the same snapshot in its store, and nothing sent.  If it has not, an update by the
empty patch has left the desk as it was, too, and any other operation but undo and redo has made of
the collection what it says, in a snapshot that was never there before; the store holds that
snapshot, the history alone was told of it, once and as of an edit, and in the history the former
present lies on the former past and nothing is ahead. -/
theorem Session.attempt_whole (components : List Placed) (actions : List Action) (fresh : BlockId)
    (op : Operation) :
    let s := (start components).run actions
    let w := s.workspace
    (w.apply fresh op = match w.attempt fresh op with
        | .ok _ d => .ok d.workspace
        | .error error _ => .error error) ∧
      (∀ error d, w.attempt fresh op = .error error d → d = ⟨w, []⟩) ∧
      ∀ d, w.attempt fresh op = .ok () d →
        (∀ id, op = .update id .empty → d = ⟨w, []⟩) ∧
          (op ≠ .undo → op ≠ .redo → (∀ id, op ≠ .update id .empty) → ∃ next handle,
            op.Makes fresh w.components next.components ∧
              (∀ made ∈ s.made, made.serial ≠ next.serial) ∧
              w.store.subscribers = [handle] ∧ d.sent = [⟨handle, next, .edit⟩] ∧
              d.workspace.store.current = next ∧
              d.workspace.timeline = ⟨w.timeline.present :: w.timeline.past, next, []⟩) := by
  intro s w
  have h : s.Sound := (sound_start components).run actions
  refine ⟨w.apply_eq_attempt fresh op, fun error d => Workspace.desk_of_attempt_error,
    fun d hd => ⟨?_, fun hundo hredo hpatch => ?_⟩⟩
  · rintro id rfl
    obtain ⟨e, next, he, -, rfl⟩ := Workspace.exists_of_attempt_ok rfl hd
    rw [← Except.ok.inj he]
    rfl
  · obtain ⟨r, hr⟩ := Option.ne_none_iff_exists'.1 fun hn =>
      (Operation.edit?_eq_none_iff.1 hn).elim hundo hredo
    obtain ⟨e, next, rfl, hrun, rfl⟩ := Workspace.exists_of_attempt_ok hr hd
    have hidle : ¬e.isIdle := fun hi => by
      obtain ⟨id, hid⟩ := (Operation.isIdle_iff_of_edit? hr).1 hi
      exact hpatch id hid
    obtain ⟨handle, -, hsub⟩ := h.workspace.observed
    rw [if_neg hidle]
    refine ⟨⟨w.store.nextSerial, next⟩, handle, Operation.makes_of_run hr hrun, ?_, hsub, ?_, rfl,
      h.workspace.timeline_replaceNew next⟩
    · exact fun made hm => Nat.ne_of_lt (h.serial_lt hm)
    · show w.store.subscribers.map _ = _
      rw [hsub]
      rfl

end ContractBlocks
