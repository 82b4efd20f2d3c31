/-
# Identities stay distinct

Only an addition looks at the identities that are there: it is refused if the new one is taken.  A
patch and a move leave the identities alone, a removal takes one away, and a step of the history
brings back a collection that was there before.  So if a session starts at a collection of pairwise
distinct identities, and the user replaces the current one only by such collections
(`Session.PicksDistinct`), then every snapshot of the line has pairwise distinct identities
(`Session.DistinctLine`), and the current collection is one of them.

`Session.run_distinct` says so of the current collection and of all that lies behind and ahead.  What
the user makes and never picks does not matter.
-/

import ContractBlocks.Proofs.History.Attempt

namespace ContractBlocks

/-- The identities in a collection are pairwise distinct. -/
def Placed.Distinct (components : List Placed) : Prop := (components.map Placed.id).Nodup

instance (components : List Placed) : Decidable (Placed.Distinct components) :=
  inferInstanceAs (Decidable (components.map Placed.id).Nodup)

/-- **What an operation makes of distinct identities is distinct.** -/
theorem Operation.Makes.distinct {fresh : BlockId} {op : Operation} {components next : List Placed}
    (h : op.Makes fresh components next) (hd : Placed.Distinct components) :
    Placed.Distinct next := by
  unfold Placed.Distinct at hd ⊢
  cases h with
  | @add _ _ _ position _ b _ _ hnew =>
    rw [List.map_append, List.nodup_append]
    refine ⟨hd, List.nodup_singleton _, fun x hx y hy => ?_⟩
    obtain ⟨q, hq, rfl⟩ := List.mem_map.1 hx
    rw [List.mem_singleton.1 hy]
    exact hnew q hq
  -- a patch and a move keep the identity of the block that they change
  | update _ => rw [List.map_append, List.map_cons] at hd ⊢; exact hd
  | move _ => rw [List.map_append, List.map_cons] at hd ⊢; exact hd
  | @remove before after p _ =>
    rw [List.map_append] at hd ⊢
    exact hd.sublist ((List.sublist_cons_self p.id _).append_left _)

/-- **What a successful operation makes of the line.**  It stays on it, or it records a new snapshot
of what it makes of the collection. -/
theorem Workspace.Sound.toList_apply {w w' : Workspace} (hw : w.Sound) {fresh : BlockId}
    {op : Operation} (h : w.apply fresh op = .ok w') :
    w'.timeline.toList = w.timeline.toList ∨
      ∃ next, op.Makes fresh w.components next.components ∧
        w'.timeline = w.timeline.record next := by
  cases he : op.edit? fresh with
  | none =>
    left
    rcases Operation.edit?_eq_none_iff.1 he with rfl | rfl
    · rw [← Except.ok.inj h]
      exact w.toList_undo.1
    · rw [← Except.ok.inj h]
      exact w.toList_redo.1
  | some r =>
    rw [apply_of_edit? he] at h
    cases r with
    | error error => cases h
    | ok e =>
      obtain ⟨next, hr, rfl⟩ := edit_eq_ok h
      by_cases hi : e.isIdle
      · exact Or.inl (by rw [if_pos hi])
      · refine Or.inr ⟨⟨w.store.nextSerial, next⟩, Operation.makes_of_run he hr, ?_⟩
        rw [if_neg hi, replaceNew_eq, (hw.make next).replace_eq]
        rfl

/-- The snapshot that the user picks to replace the current one holds distinct identities. -/
def Action.PicksDistinct (s : Session) : Action → Prop
  | .replace serial => ∀ next ∈ s.made[serial]?, Placed.Distinct next.components
  | _ => True

instance (s : Session) : DecidablePred (Action.PicksDistinct s)
  | .replace serial =>
    inferInstanceAs (Decidable (∀ next ∈ s.made[serial]?, Placed.Distinct next.components))
  | .make _ | .apply _ _ | .clear => isTrue trivial

namespace Session

variable {s : Session}

/-- Every snapshot that the user picks in the course of the actions holds distinct identities. -/
def PicksDistinct (s : Session) : List Action → Prop
  | [] => True
  | a :: actions => a.PicksDistinct s ∧ (s.step a).PicksDistinct actions

instance decidablePicksDistinct :
    ∀ (s : Session) (actions : List Action), Decidable (s.PicksDistinct actions)
  | _, [] => isTrue trivial
  | s, a :: actions =>
    have := decidablePicksDistinct (s.step a) actions
    inferInstanceAs (Decidable (a.PicksDistinct s ∧ (s.step a).PicksDistinct actions))

/-- Every snapshot of the line holds distinct identities. -/
def DistinctLine (s : Session) : Prop :=
  ∀ x ∈ s.workspace.timeline.toList, Placed.Distinct x.components

/-- Recording a snapshot of distinct identities keeps the line distinct. -/
theorem DistinctLine.record (hd : s.DistinctLine) {next : Snapshot}
    (hn : Placed.Distinct next.components) :
    ∀ x ∈ (s.workspace.timeline.record next).toList, Placed.Distinct x.components := by
  intro x hx
  rcases Timeline.mem_toList_record hx with hx | rfl
  · exact hd x hx
  · exact hn

/-- The current collection is on the line. -/
theorem DistinctLine.current (hd : s.DistinctLine) (h : s.Sound) :
    Placed.Distinct s.workspace.components := by
  have hp := hd _ s.workspace.timeline.present_mem_toList
  rwa [← h.workspace.current_eq] at hp

/-- **Every action keeps the line distinct.** -/
theorem DistinctLine.step (hd : s.DistinctLine) (h : s.Sound) {a : Action}
    (ha : a.PicksDistinct s) : (s.step a).DistinctLine := by
  cases a with
  | make components => exact hd
  | replace serial =>
    unfold DistinctLine
    simp only [Session.step]
    cases hn : s.made[serial]? with
    | none => exact hd
    | some next =>
      show ∀ x ∈ (s.workspace.replace next).timeline.toList, Placed.Distinct x.components
      rw [h.workspace.replace_eq]
      exact hd.record (ha next hn)
  | apply fresh op =>
    unfold DistinctLine
    simp only [Session.step]
    cases hw : s.workspace.apply fresh op with
    | error error => exact hd
    | ok w =>
      show ∀ x ∈ w.timeline.toList, Placed.Distinct x.components
      rcases h.workspace.toList_apply hw with hl | ⟨next, hmakes, ht⟩
      · rw [hl]
        exact hd
      · rw [ht]
        exact hd.record (hmakes.distinct (hd.current h))
  | clear =>
    intro x hx
    rw [List.mem_singleton.1 (show x ∈ [s.workspace.timeline.present] from hx)]
    exact hd _ s.workspace.timeline.present_mem_toList

/-- Every run keeps the line distinct. -/
theorem DistinctLine.run (hd : s.DistinctLine) (h : s.Sound) {actions : List Action}
    (ha : s.PicksDistinct actions) : (s.run actions).DistinctLine := by
  induction actions generalizing s with
  | nil => exact hd
  | cons a actions ih => exact ih (hd.step h ha.1) (h.step a) ha.2

/-- **The identities stay distinct.**  If a session starts at a collection of pairwise distinct
identities and the user picks only such collections to replace the current one, then, whatever
operations are applied, refused, undone and redone, the identities are pairwise distinct in the
current collection and in every snapshot that lies behind or ahead. -/
theorem run_distinct {components : List Placed} {actions : List Action}
    (hd : Placed.Distinct components) (ha : (start components).PicksDistinct actions) :
    let w := ((start components).run actions).workspace
    Placed.Distinct w.components ∧ (∀ x ∈ w.timeline.past, Placed.Distinct x.components) ∧
      ∀ x ∈ w.timeline.future, Placed.Distinct x.components := by
  intro w
  have hs : (start components).DistinctLine := fun x hx => by rwa [List.mem_singleton.1 hx]
  have hline := hs.run (sound_start components) ha
  refine ⟨hline.current ((sound_start components).run actions), fun x hx => hline x ?_,
    fun x hx => hline x ?_⟩
  · exact List.mem_append_left _ (List.mem_reverse.2 hx)
  · exact List.mem_append_right _ (List.mem_cons_of_mem _ hx)

/-- An addition that is refused, one with an identity from outside, a patch that is undone, and two
collections made by the user: one that is never picked, with an identity twice, and one that is
picked, changed, and come back to. -/
def branching : List Action :=
  let b := (Block.ofTag "b" .enum .empty).place .origin
  [.apply "z" (.add "event" (some "a") none .origin), .apply "z" (.add "event" none none .origin),
    .apply "z" (.update "z" { Patch.empty with name := some "Paid" }), .apply "z" .undo,
    .make [b, b], .make [b, (Block.ofTag "a" .event .empty).place .origin], .replace 4,
    .apply "z" (.remove "b"), .apply "z" .undo]

theorem run_distinct_branching :
    let components := [(Block.ofTag "a" .event .empty).place .origin]
    let w := ((start components).run branching).workspace
    Placed.Distinct components ∧ (start components).PicksDistinct branching ∧
      w.components.map Placed.id = ["b", "a"] ∧ w.timeline.past.length = 2 ∧
      w.timeline.future.length = 1 ∧
      Placed.Distinct w.components ∧ (∀ x ∈ w.timeline.past, Placed.Distinct x.components) ∧
        ∀ x ∈ w.timeline.future, Placed.Distinct x.components := by
  intro components w
  have hd : Placed.Distinct components := by decide
  have ha : (start components).PicksDistinct branching := by decide
  exact ⟨hd, ha, by decide, by decide, by decide, run_distinct hd ha⟩

end Session

end ContractBlocks
