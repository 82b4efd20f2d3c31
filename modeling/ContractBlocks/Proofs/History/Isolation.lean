/-
# Histories on one store do not disturb each other

Any number of histories may be attached to one store, at any times, and a step of one of them is
broadcast to all.  What happens in a studio is told as a list of events: a history is attached,
detached, cleared or stepped, or the store receives a snapshot (`Studio.Event`).  Beside the studio
stands a line of snapshots with a place on it, which is driven by the events of one history alone:
its own, and the snapshots that edits bring (`Studio.Event.isFor`, `Lane.take`).

`Studio.run_histories` says that after every run each history has the past, the present and the
future of its own line, whatever was done with the others.  The invariant behind it is that no two
histories share a handle and every handle is that of a subscriber (`Studio.Sound`): then a notice of
an edit reaches each attached history once, and a notice of a step changes none.
-/

import ContractBlocks.Proofs.History.Line
import ContractBlocks.Proofs.History.Sound
import Mathlib.Data.List.Basic

namespace ContractBlocks

/-! ### What happens in a studio -/

namespace Studio

/-- What may be done in a studio; histories are numbered in the order in which they were attached. -/
inductive Act where
  | edit (e : Edit)
  /-- A new snapshot of the collection becomes current. -/
  | replaceNew (components : List Placed) (origin : Origin)
  /-- The given snapshot becomes current. -/
  | replace (next : Snapshot) (origin : Origin)
  | attach
  | detach (i : Nat)
  | clear (i : Nat)
  | undo (i : Nat)
  | redo (i : Nat)

/-- What has happened in a studio. -/
inductive Event where
  /-- The history was attached while the store held the snapshot. -/
  | attached (i : Nat) (current : Snapshot)
  | detached (i : Nat)
  | cleared (i : Nat)
  | undone (i : Nat)
  | redone (i : Nat)
  /-- The store has received a snapshot. -/
  | received (s : Snapshot) (origin : Origin)

/-- The studio after a step of the given history, if there is one to take, and what has happened. -/
def stepped (s : Studio) (asked : Event) : Option (Studio × List Notice) → Studio × List Event
  | some (s', _) => (s', [asked, .received s'.store.current .history])
  | none => (s, [asked])

/-- The studio after an act, and what has happened.  A refused edit leaves everything as it is. -/
def act (s : Studio) : Act → Studio × List Event
  | .edit e => match s.edit e with
    | .ok (s', _) => (s', if e.isIdle then [] else [.received s'.store.current .edit])
    | .error _ => (s, [])
  | .replaceNew components origin =>
    let s' := (s.replaceNew components origin).1
    (s', [.received s'.store.current origin])
  | .replace next origin => ((s.replace next origin).1, [.received next origin])
  | .attach => (s.attach, [.attached s.histories.length s.store.current])
  | .detach i => (s.detach i, [.detached i])
  | .clear i => (s.clear i, [.cleared i])
  | .undo i => s.stepped (.undone i) (s.undo? i)
  | .redo i => s.stepped (.redone i) (s.redo? i)

/-- The studio after acts in order, and what has happened in order. -/
def run (s : Studio) : List Act → Studio × List Event
  | [] => (s, [])
  | a :: acts => (((s.act a).1.run acts).1, (s.act a).2 ++ ((s.act a).1.run acts).2)

/-- The act is one of the history itself. -/
def Act.isOf (i : Nat) : Act → Bool
  | .detach j | .clear j | .undo j | .redo j => j == i
  | .edit _ | .replaceNew _ _ | .replace _ _ | .attach => false

/-- The act is an edit, or a replacement that counts as one. -/
def Act.isEdit : Act → Bool
  | .edit _ => true
  | .replaceNew _ origin | .replace _ origin => origin == .edit
  | _ => false

/-- The event counts for a history: it is one of its own, or an edit has brought a snapshot. -/
def Event.isFor (i : Nat) : Event → Bool
  | .attached j _ | .detached j | .cleared j | .undone j | .redone j => j == i
  | .received _ origin => origin == .edit

end Studio

/-- The line of one history, and whether it still records. -/
structure Lane where
  line : Line
  attached : Bool

namespace Lane

/-- The lane after an event that counts for it.  There is none before the history is attached, and
once it is detached nothing is recorded. -/
def take : Option Lane → Studio.Event → Option Lane
  | _, .attached _ current => some ⟨.start current, true⟩
  | none, _ => none
  | some l, .detached _ => some { l with attached := false }
  | some l, .cleared _ => some { l with line := l.line.clear }
  | some l, .undone _ => some { l with line := l.line.back }
  | some l, .redone _ => some { l with line := l.line.forth }
  | some l, .received s _ => some (if l.attached then { l with line := l.line.record s } else l)

/-- The lane of the history after an event, which may not count for it. -/
def hear (i : Nat) (l : Option Lane) (e : Studio.Event) : Option Lane :=
  if e.isFor i then take l e else l

/-- The lane of a history that nothing but the events for it has driven. -/
def ofEvents (i : Nat) (events : List Studio.Event) : Option Lane :=
  (events.filter (Studio.Event.isFor i)).foldl take none

theorem ofEvents_eq (i : Nat) (events : List Studio.Event) :
    ofEvents i events = events.foldl (hear i) none :=
  List.foldl_filter

end Lane

namespace History

/-- The line of a history, and whether it still records. -/
def lane (h : History) : Lane := ⟨h.timeline.line, h.handle.isSome⟩

theorem receiveAll_of_detached {h : History} (hh : h.handle = none) (ns : List Notice) :
    h.receiveAll ns = h := by
  induction ns with
  | nil => rfl
  | cons n ns ih =>
    have hr : h.receive n = h := by simp [receive, hh]
    rw [receiveAll, List.foldl_cons, hr]
    exact ih

/-- Of the notices of one edit an attached history takes the one that is for it.  Another one for it
would find the snapshot recorded. -/
theorem receiveAll_edit {h : History} {k : Nat} (hh : h.handle = some k) (next : Snapshot)
    (ks : List Nat) :
    h.receiveAll (ks.map fun j => ⟨j, next, .edit⟩) =
      if k ∈ ks then { h with timeline := h.timeline.record next } else h := by
  induction ks generalizing h with
  | nil => rfl
  | cons j ks ih =>
    rw [List.map_cons, receiveAll, List.foldl_cons]
    by_cases hj : k = j
    · have hr : h.receive ⟨j, next, .edit⟩ = { h with timeline := h.timeline.record next } := by
        simp [receive, hh, hj]
      rw [hr, if_pos (hj ▸ List.mem_cons_self)]
      refine (ih (h := { h with timeline := h.timeline.record next }) hh).trans ?_
      rw [Timeline.record_record, ite_self]
    · have hr : h.receive ⟨j, next, .edit⟩ = h := by simp [receive, hh, hj]
      rw [hr]
      refine (ih hh).trans ?_
      simp only [List.mem_cons, hj, false_or]

/-- **A notice of an edit is recorded once,** by an attached history that subscribes. -/
theorem receiveAll_replace_edit {h : History} {s : Store}
    (hs : ∀ k, h.handle = some k → k ∈ s.subscribers) (next : Snapshot) :
    h.receiveAll (s.replace next .edit).2 =
      if h.handle.isSome then { h with timeline := h.timeline.record next } else h := by
  obtain ⟨t, handle⟩ := h
  cases handle with
  | none => exact receiveAll_of_detached rfl _
  | some k => exact (receiveAll_edit rfl next s.subscribers).trans (if_pos (hs k rfl))

/-- A notice of a step changes no history. -/
theorem receiveAll_replace_history (h : History) (s : Store) (next : Snapshot) :
    h.receiveAll (s.replace next .history).2 = h := by
  refine h.receiveAll_of_history fun n hn => ?_
  obtain ⟨k, -, rfl⟩ := List.mem_map.1 hn
  rfl

end History

/-! ### What every act keeps -/

namespace Studio

variable {s : Studio}

/-- Every handle of a history is that of a subscriber and no two histories share one; handles of
later subscribers are new. -/
structure Sound (s : Studio) : Prop where
  subscribed : ∀ h ∈ s.histories, ∀ k, h.handle = some k → k ∈ s.store.subscribers
  lt : ∀ k ∈ s.store.subscribers, k < s.store.nextHandle
  apart : ∀ (i j : Nat) (h g : History) (k : Nat), s.histories[i]? = some h →
    s.histories[j]? = some g → h.handle = some k → g.handle = some k → i = j

theorem sound_ofComponents (components : List Placed) : (ofComponents components).Sound where
  subscribed _ hh := absurd hh List.not_mem_nil
  lt _ hk := absurd hk List.not_mem_nil
  apart _ _ _ _ _ hh := by cases hh

/-- A studio with the same subscribers whose histories have the same handles is sound, too. -/
theorem Sound.of_handles (hs : s.Sound) {s' : Studio}
    (hsub : s'.store.subscribers = s.store.subscribers)
    (hnext : s'.store.nextHandle = s.store.nextHandle)
    (hh : ∀ i : Nat, s'.histories[i]?.map History.handle = s.histories[i]?.map History.handle) :
    s'.Sound := by
  have hback : ∀ {i : Nat} {h : History}, s'.histories[i]? = some h →
      ∃ g, s.histories[i]? = some g ∧ g.handle = h.handle := by
    intro i h hi
    have hm := hh i
    rw [hi] at hm
    exact Option.map_eq_some_iff.1 hm.symm
  refine ⟨fun h hmem k hk => ?_, ?_, fun i j h g k hi hj hhk hgk => ?_⟩
  · obtain ⟨i, hi⟩ := List.mem_iff_getElem?.1 hmem
    obtain ⟨g, hg, he⟩ := hback hi
    rw [hsub]
    exact hs.subscribed g (List.mem_of_getElem? hg) k (he.trans hk)
  · rw [hsub, hnext]
    exact hs.lt
  · obtain ⟨h', hi', he⟩ := hback hi
    obtain ⟨g', hj', ge⟩ := hback hj
    exact hs.apart i j h' g' k hi' hj' (he.trans hhk) (ge.trans hgk)

/-! ### Replacements -/

/-- **A replacement as an edit is recorded by every attached history.** -/
theorem Sound.histories_replace_edit (hs : s.Sound) (next : Snapshot) :
    (s.replace next .edit).1.histories = s.histories.map fun h =>
      if h.handle.isSome then { h with timeline := h.timeline.record next } else h :=
  List.map_congr_left fun h hh => h.receiveAll_replace_edit (hs.subscribed h hh) next

/-- **A replacement by a step changes no history.** -/
theorem histories_replace_history (s : Studio) (next : Snapshot) :
    (s.replace next .history).1.histories = s.histories :=
  (List.map_congr_left fun h _ => h.receiveAll_replace_history s.store next).trans
    (List.map_id' s.histories)

theorem Sound.make (hs : s.Sound) (components : List Placed) :
    Sound ⟨(s.store.snapshot components).1, s.histories⟩ :=
  hs.of_handles rfl rfl fun _ => rfl

/-- What a replacement does to each history: an edit is recorded, and a step is ignored. -/
theorem Sound.lane_replace (hs : s.Sound) (next : Snapshot) (origin : Origin) (i : Nat) :
    (s.replace next origin).1.histories[i]?.map History.lane =
      Lane.hear i (s.histories[i]?.map History.lane) (.received next origin) := by
  cases origin with
  | history =>
    rw [histories_replace_history]
    rfl
  | edit =>
    rw [hs.histories_replace_edit, List.getElem?_map]
    cases s.histories[i]? with
    | none => rfl
    | some h =>
      obtain ⟨t, handle⟩ := h
      cases handle with
      | none => rfl
      | some k =>
        show some (⟨(t.record next).line, true⟩ : Lane) = some ⟨t.line.record next, true⟩
        rw [t.line_record]

theorem Sound.replace (hs : s.Sound) (next : Snapshot) (origin : Origin) :
    (s.replace next origin).1.Sound := by
  refine hs.of_handles rfl rfl fun i => ?_
  cases origin with
  | history => rw [histories_replace_history]
  | edit =>
    rw [hs.histories_replace_edit, List.getElem?_map, Option.map_map]
    refine congrArg (Option.map · s.histories[i]?) (funext fun h => ?_)
    show (if h.handle.isSome then _ else h : History).handle = h.handle
    split <;> rfl

/-! ### Edits -/

/-- An edit is a replacement by a new snapshot, unless it is refused or idle. -/
theorem act_edit (s : Studio) (e : Edit) :
    s.act (.edit e) = (s, []) ∨ ∃ next, s.act (.edit e) = s.act (.replaceNew next .edit) := by
  have hact : s.act (.edit e) = match (s.store.edit e).map s.publish with
      | .ok (s', _) => (s', if e.isIdle then [] else [.received s'.store.current .edit])
      | .error _ => (s, []) := rfl
  rw [hact, Store.edit]
  cases e.run s.store.components with
  | error error => exact Or.inl rfl
  | ok next =>
    by_cases hi : e.isIdle
    · -- No notices are sent, so no history changes.
      have hnil : (s.publish (s.store, [])).1 = s := by
        show (⟨s.store, s.histories.map fun h => h⟩ : Studio) = s
        rw [List.map_id']
      refine Or.inl ?_
      simp only [hi, if_true]
      show ((s.publish (s.store, [])).1, _) = _
      rw [hnil]
    · refine Or.inr ⟨next, ?_⟩
      simp only [hi]
      rfl

/-! ### Steps -/

/-- **A step changes its own history only,** and the store holds the present that it comes to. -/
theorem step_eq_some {i : Nat} {move : Timeline → Option Timeline} {s' : Studio}
    {ns : List Notice} (h : s.step i move = some (s', ns)) :
    ∃ g t, s.histories[i]? = some g ∧ move g.timeline = some t ∧
      s' = ⟨{ s.store with current := t.present },
        s.histories.set i { g with timeline := t }⟩ := by
  unfold step at h
  obtain ⟨g, hg, h⟩ := Option.bind_eq_some_iff.1 h
  obtain ⟨t, ht, h⟩ := Option.bind_eq_some_iff.1 h
  refine ⟨g, t, hg, ht, ?_⟩
  have he : (replace ⟨s.store, s.histories.set i { g with timeline := t }⟩ t.present .history).1 =
      s' := congrArg Prod.fst (Option.some.inj h)
  have hh := histories_replace_history ⟨s.store, s.histories.set i { g with timeline := t }⟩
    t.present
  rw [← he]
  exact congrArg (Studio.mk { s.store with current := t.present }) hh

theorem step_eq_none {i : Nat} {move : Timeline → Option Timeline} (h : s.step i move = none)
    {g : History} (hg : s.histories[i]? = some g) : move g.timeline = none := by
  unfold step at h
  rw [hg] at h
  cases ht : move g.timeline with
  | none => rfl
  | some t =>
    rw [Option.bind_eq_bind, Option.bind_some, ht] at h
    cases h

/-- What asking for a step does to each history: the one that is asked moves along its line, as
far as it goes. -/
theorem lane_stepped {i : Nat} {move : Timeline → Option Timeline} {asked : Event}
    {shift : Line → Line} (hasked : ∀ j, asked.isFor j = (i == j))
    (htake : ∀ l, Lane.take (some l) asked = some { l with line := shift l.line })
    (hnone : Lane.take none asked = none)
    (hmove : ∀ t : Timeline, ((move t).getD t).line = shift t.line) (j : Nat) :
    (s.stepped asked (s.step i move)).1.histories[j]?.map History.lane =
      (s.stepped asked (s.step i move)).2.foldl (Lane.hear j)
        (s.histories[j]?.map History.lane) := by
  have hother : ∀ l, i ≠ j → Lane.hear j l asked = l := fun l hij => by
    simp [Lane.hear, hasked, hij]
  have hown : ∀ g : History, Lane.hear i (some g.lane) asked =
      some ⟨((move g.timeline).getD g.timeline).line, g.lane.attached⟩ := fun g => by
    simp [Lane.hear, hasked, htake, hmove, History.lane]
  cases hs : s.step i move with
  | none =>
    show s.histories[j]?.map History.lane = Lane.hear j (s.histories[j]?.map History.lane) asked
    by_cases hij : i = j
    · subst hij
      cases hg : s.histories[i]? with
      | none => simp [Lane.hear, hasked, hnone]
      | some g =>
        rw [Option.map_some, hown, step_eq_none hs hg]
        rfl
    · rw [hother _ hij]
  | some r =>
    obtain ⟨s', ns⟩ := r
    obtain ⟨g, t, hg, ht, rfl⟩ := step_eq_some hs
    have hrec : ∀ l current, Lane.hear j l (.received current .history) = l := fun _ _ => rfl
    show (s.histories.set i { g with timeline := t })[j]?.map History.lane =
      Lane.hear j (Lane.hear j (s.histories[j]?.map History.lane) asked)
        (.received t.present .history)
    rw [hrec]
    by_cases hij : i = j
    · subst hij
      have hi : i < s.histories.length := (List.getElem?_eq_some_iff.1 hg).1
      rw [hg, Option.map_some, hown, ht, List.getElem?_set_self hi]
      rfl
    · rw [hother _ hij, List.getElem?_set_ne hij]

theorem Sound.step (hs : s.Sound) {i : Nat} {move : Timeline → Option Timeline} {s' : Studio}
    {ns : List Notice} (h : s.step i move = some (s', ns)) : s'.Sound := by
  obtain ⟨g, t, hg, -, rfl⟩ := step_eq_some h
  refine hs.of_handles rfl rfl fun j => ?_
  by_cases hij : i = j
  · subst hij
    have hi : i < s.histories.length := (List.getElem?_eq_some_iff.1 hg).1
    simp only [List.getElem?_set_self hi, hg, Option.map_some]
  · simp only [List.getElem?_set_ne hij]

theorem Sound.stepped (hs : s.Sound) {i : Nat} {move : Timeline → Option Timeline}
    (asked : Event) : (s.stepped asked (s.step i move)).1.Sound := by
  cases h : s.step i move with
  | none => exact hs
  | some r =>
    obtain ⟨s', ns⟩ := r
    exact hs.step h

/-! ### Attaching and detaching -/

theorem histories_attach (s : Studio) :
    s.attach.histories = s.histories ++ [⟨.start s.store.current, some s.store.nextHandle⟩] :=
  rfl

/-- An attached history starts at the current snapshot, and the others stay as they are. -/
theorem lane_attach (s : Studio) (i : Nat) :
    s.attach.histories[i]?.map History.lane =
      Lane.hear i (s.histories[i]?.map History.lane)
        (.attached s.histories.length s.store.current) := by
  rw [histories_attach, Lane.hear, Event.isFor]
  rcases Nat.lt_trichotomy i s.histories.length with hi | rfl | hi
  · rw [List.getElem?_append_left hi, if_neg (by simpa using Nat.ne_of_gt hi)]
  · rw [List.getElem?_concat_length, if_pos (by simp)]
    rfl
  · rw [if_neg (by simpa using Nat.ne_of_lt hi), List.getElem?_eq_none (Nat.le_of_lt hi),
      List.getElem?_eq_none (by rw [List.length_append]; exact hi)]

theorem Sound.attach (hs : s.Sound) : s.attach.Sound := by
  have hcases : ∀ {i : Nat} {h : History}, s.attach.histories[i]? = some h →
      s.histories[i]? = some h ∨ i = s.histories.length ∧ h.handle = some s.store.nextHandle := by
    intro i h hi
    rw [histories_attach, List.getElem?_append] at hi
    split at hi
    · exact Or.inl hi
    · rw [List.getElem?_singleton] at hi
      split at hi
      · exact Or.inr ⟨by omega, by rw [← Option.some.inj hi]⟩
      · cases hi
  have hnew : ∀ {i : Nat} {h : History}, s.histories[i]? = some h →
      h.handle ≠ some s.store.nextHandle := fun hi hh =>
    Nat.lt_irrefl _ (hs.lt _ (hs.subscribed _ (List.mem_of_getElem? hi) _ hh))
  refine ⟨fun h hmem k hk => ?_, fun k hk => ?_, fun i j h g k hi hj hhk hgk => ?_⟩
  · obtain ⟨i, hi⟩ := List.mem_iff_getElem?.1 hmem
    show k ∈ s.store.subscribers ++ [s.store.nextHandle]
    rcases hcases hi with hi | ⟨-, hh⟩
    · exact List.mem_append_left _ (hs.subscribed h (List.mem_of_getElem? hi) k hk)
    · rw [hk] at hh
      exact List.mem_append_right _ (List.mem_singleton.2 (Option.some.inj hh))
  · show k < s.store.nextHandle + 1
    rcases List.mem_append.1 hk with hk | hk
    · exact Nat.lt_succ_of_lt (hs.lt k hk)
    · exact Nat.lt_succ_of_le (Nat.le_of_eq (List.mem_singleton.1 hk))
  · rcases hcases hi with hi | ⟨rfl, hh⟩ <;> rcases hcases hj with hj | ⟨rfl, hg⟩
    · exact hs.apart i j h g k hi hj hhk hgk
    · exact absurd (hhk.trans (hgk.symm.trans hg)) (hnew hi)
    · exact absurd (hgk.trans (hhk.symm.trans hh)) (hnew hj)
    · rfl

/-- Detaching takes the handle from the history and its subscription from the store. -/
theorem detach_eq (s : Studio) (i : Nat) :
    (s.detach i).histories = s.histories.modify i (fun h => { h with handle := none }) ∧
      (s.detach i).store.nextHandle = s.store.nextHandle ∧
      (s.detach i).store.subscribers = s.store.subscribers.filter fun k =>
        s.histories[i]?.bind History.handle ≠ some k := by
  unfold detach
  cases hi : s.histories[i]? with
  | none =>
    have hlen := List.getElem?_eq_none_iff.1 hi
    refine ⟨(List.modify_eq_self hlen).symm, rfl, ?_⟩
    exact (List.filter_eq_self.2 fun _ _ => rfl).symm
  | some h =>
    obtain ⟨t, handle⟩ := h
    have hmod : s.histories.modify i (fun h => { h with handle := none }) =
        s.histories.set i ⟨t, none⟩ := by
      rw [List.modify_eq_set_getElem?, hi]
      rfl
    cases handle with
    | none =>
      refine ⟨hmod.symm, rfl, ?_⟩
      exact (List.filter_eq_self.2 fun _ _ => rfl).symm
    | some k =>
      refine ⟨hmod.symm, rfl, ?_⟩
      show s.store.subscribers.filter _ = _
      refine List.filter_congr fun j _ => ?_
      by_cases hjk : j = k
      · simp [hjk]
      · simp [hjk, Ne.symm hjk]

/-- A detached history keeps its line and records no more; the others stay as they are. -/
theorem lane_detach (s : Studio) (i j : Nat) :
    (s.detach i).histories[j]?.map History.lane =
      Lane.hear j (s.histories[j]?.map History.lane) (.detached i) := by
  rw [(s.detach_eq i).1, List.getElem?_modify]
  by_cases hij : i = j
  · cases s.histories[j]? <;> simp [hij, Lane.hear, Event.isFor, Lane.take, History.lane]
  · cases s.histories[j]? <;> simp [hij, Lane.hear, Event.isFor]

theorem Sound.detach (hs : s.Sound) (i : Nat) : (s.detach i).Sound := by
  obtain ⟨hh, hnext, hsub⟩ := s.detach_eq i
  -- Whoever has a handle afterwards is another history and had it before.
  have hback : ∀ {j : Nat} {g : History} {k : Nat}, (s.detach i).histories[j]? = some g →
      g.handle = some k → i ≠ j ∧ s.histories[j]? = some g := by
    intro j g k hj hk
    rw [hh, List.getElem?_modify] at hj
    obtain ⟨g', hj', he⟩ := Option.map_eq_some_iff.1 hj
    by_cases hij : i = j
    · rw [if_pos hij] at he
      rw [← he] at hk
      cases hk
    · rw [if_neg hij] at he
      exact ⟨hij, he ▸ hj'⟩
  refine ⟨fun g hmem k hk => ?_, fun k hk => ?_, fun j j' g g' k hj hj' hk hk' => ?_⟩
  · obtain ⟨j, hj⟩ := List.mem_iff_getElem?.1 hmem
    obtain ⟨hij, hj⟩ := hback hj hk
    rw [hsub, List.mem_filter]
    refine ⟨hs.subscribed g (List.mem_of_getElem? hj) k hk, decide_eq_true fun he => ?_⟩
    obtain ⟨h, hi, hhk⟩ := Option.bind_eq_some_iff.1 he
    exact hij (hs.apart i j h g k hi hj hhk hk)
  · rw [hsub, List.mem_filter] at hk
    rw [hnext]
    exact hs.lt k hk.1
  · exact hs.apart j j' g g' k (hback hj hk).2 (hback hj' hk').2 hk hk'

/-! ### Clearing -/

theorem lane_clear (s : Studio) (i j : Nat) :
    (s.clear i).histories[j]?.map History.lane =
      Lane.hear j (s.histories[j]?.map History.lane) (.cleared i) := by
  show (s.histories.modify i History.clear)[j]?.map History.lane = _
  rw [List.getElem?_modify]
  by_cases hij : i = j
  · cases s.histories[j]? <;> simp [hij, Lane.hear, Event.isFor, Lane.take, History.lane,
      History.clear, Timeline.line_clear]
  · cases s.histories[j]? <;> simp [hij, Lane.hear, Event.isFor]

theorem Sound.clear (hs : s.Sound) (i : Nat) : (s.clear i).Sound := by
  refine hs.of_handles rfl rfl fun j => ?_
  show (s.histories.modify i History.clear)[j]?.map History.handle = _
  rw [List.getElem?_modify, Option.map_eq_map, Option.map_map]
  refine congrArg (Option.map · s.histories[j]?) (funext fun h => ?_)
  show (if i = j then h.clear else h).handle = h.handle
  split <;> rfl

/-! ### Runs -/

theorem Sound.act (hs : s.Sound) (a : Act) : (s.act a).1.Sound := by
  have hnew : ∀ components origin, (s.act (.replaceNew components origin)).1.Sound :=
    fun components origin => (hs.make components).replace _ origin
  cases a with
  | edit e =>
    rcases s.act_edit e with h | ⟨next, h⟩ <;> rw [h]
    · exact hs
    · exact hnew next .edit
  | replaceNew components origin => exact hnew components origin
  | replace next origin => exact hs.replace next origin
  | attach => exact hs.attach
  | detach i => exact hs.detach i
  | clear i => exact hs.clear i
  | undo i => exact hs.stepped _
  | redo i => exact hs.stepped _

/-- **One act drives each history by the events for it alone.** -/
theorem Sound.lane_act (hs : s.Sound) (a : Act) (i : Nat) :
    (s.act a).1.histories[i]?.map History.lane =
      (s.act a).2.foldl (Lane.hear i) (s.histories[i]?.map History.lane) := by
  have hnew : ∀ components origin,
      (s.act (.replaceNew components origin)).1.histories[i]?.map History.lane =
        (s.act (.replaceNew components origin)).2.foldl (Lane.hear i)
          (s.histories[i]?.map History.lane) := fun components origin =>
    (hs.make components).lane_replace ⟨s.store.nextSerial, components⟩ origin i
  cases a with
  | edit e =>
    rcases s.act_edit e with h | ⟨next, h⟩ <;> rw [h]
    · rfl
    · exact hnew next .edit
  | replaceNew components origin => exact hnew components origin
  | replace next origin => exact hs.lane_replace next origin i
  | attach => exact s.lane_attach i
  | detach j => exact s.lane_detach j i
  | clear j => exact s.lane_clear j i
  | undo j => exact lane_stepped (fun _ => rfl) (fun _ => rfl) rfl Timeline.line_undo? i
  | redo j => exact lane_stepped (fun _ => rfl) (fun _ => rfl) rfl Timeline.line_redo? i

theorem Sound.run (hs : s.Sound) (acts : List Act) : (s.run acts).1.Sound := by
  induction acts generalizing s with
  | nil => exact hs
  | cons a acts ih => exact ih (hs.act a)

/-- A run drives each history by the events for it alone. -/
theorem Sound.lane_run (hs : s.Sound) (acts : List Act) (i : Nat) :
    (s.run acts).1.histories[i]?.map History.lane =
      (s.run acts).2.foldl (Lane.hear i) (s.histories[i]?.map History.lane) := by
  induction acts generalizing s with
  | nil => rfl
  | cons a acts ih =>
    show ((s.act a).1.run acts).1.histories[i]?.map History.lane =
      ((s.act a).2 ++ ((s.act a).1.run acts).2).foldl (Lane.hear i) _
    rw [List.foldl_append, ← hs.lane_act a i]
    exact ih (hs.act a)

/-- The line of a history that has taken part in a run is its timeline. -/
theorem Sound.exists_lane_run (hs : s.Sound) (hnew : s.histories = []) {acts : List Act} {i : Nat}
    {h : History} (hi : (s.run acts).1.histories[i]? = some h) :
    Lane.ofEvents i (s.run acts).2 = some h.lane := by
  have hl := hs.lane_run acts i
  rw [hi, hnew] at hl
  rw [Lane.ofEvents_eq]
  exact hl.symm

/-- **What is done with the others leaves a history as it is,** and so does a replacement that does
not count as an edit. -/
theorem histories_act_of_other (s : Studio) {i : Nat} (hi : i < s.histories.length) {a : Act}
    (hof : a.isOf i = false) (hedit : a.isEdit = false) :
    (s.act a).1.histories[i]? = s.histories[i]? := by
  have hstep : ∀ {j : Nat} (move : Timeline → Option Timeline) (asked : Event), (j == i) = false →
      (s.stepped asked (s.step j move)).1.histories[i]? = s.histories[i]? := by
    intro j move asked hji
    cases hs : s.step j move with
    | none => rfl
    | some r =>
      obtain ⟨s', ns⟩ := r
      obtain ⟨g, t, -, -, rfl⟩ := step_eq_some hs
      exact List.getElem?_set_ne (ne_of_beq_false hji)
  cases a with
  | edit e => cases hedit
  | replaceNew components origin =>
    cases origin with
    | edit => cases hedit
    | history =>
      exact congrArg (·[i]?) (histories_replace_history
        ⟨(s.store.snapshot components).1, s.histories⟩ ⟨s.store.nextSerial, components⟩)
  | replace next origin =>
    cases origin with
    | edit => cases hedit
    | history => exact congrArg (·[i]?) (s.histories_replace_history next)
  | attach => exact List.getElem?_append_left hi
  | detach j =>
    show (s.detach j).histories[i]? = _
    rw [(s.detach_eq j).1, List.getElem?_modify_ne _ _ (ne_of_beq_false hof)]
  | clear j => exact List.getElem?_modify_ne _ _ (ne_of_beq_false hof)
  | undo j => exact hstep _ _ hof
  | redo j => exact hstep _ _ hof

/-- After a step that was taken the store holds the present of the history. -/
theorem current_of_step {i : Nat} {move : Timeline → Option Timeline} {s' : Studio}
    {ns : List Notice} (h : s.step i move = some (s', ns)) :
    ∃ g, s'.histories[i]? = some g ∧ s'.store.current = g.timeline.present := by
  obtain ⟨g, t, hg, -, rfl⟩ := step_eq_some h
  have hi : i < s.histories.length := (List.getElem?_eq_some_iff.1 hg).1
  exact ⟨{ g with timeline := t }, List.getElem?_set_self hi, rfl⟩

/-- **Histories on one store do not disturb each other.**  After every run from every collection,
each history has the past, the present and the future of the line that starts at the snapshot which
the store held when the history was attached, and that only two things have driven: the snapshots of
edits that the store received while the history was attached, each recorded unless it was the one at
the place, and the steps and clearings of the history itself.  What is done with another history
leaves it as it is, and so does a replacement that does not count as an edit; and after a step that
was taken the store holds the present of the history. -/
theorem run_histories (components : List Placed) (acts : List Act) :
    let r := (ofComponents components).run acts
    let s := r.1
    (∀ i, (Lane.ofEvents i r.2).isSome ↔ i < s.histories.length) ∧
      (∀ i h, s.histories[i]? = some h → ∃ l, Lane.ofEvents i r.2 = some l ∧
        h.handle.isSome = l.attached ∧
        h.timeline.past.reverse = l.line.snapshots.take l.line.place ∧
        l.line.snapshots[l.line.place]? = some h.timeline.present ∧
        h.timeline.future = l.line.snapshots.drop (l.line.place + 1)) ∧
      (∀ i a, i < s.histories.length → a.isOf i = false → a.isEdit = false →
        (s.act a).1.histories[i]? = s.histories[i]?) ∧
      ∀ i s' ns, s.undo? i = some (s', ns) ∨ s.redo? i = some (s', ns) →
        ∃ h, s'.histories[i]? = some h ∧ s'.store.current = h.timeline.present := by
  intro r s
  have hs := sound_ofComponents components
  refine ⟨fun i => ?_, fun i h hi => ?_, fun i a hi => s.histories_act_of_other hi,
    fun i s' ns h => ?_⟩
  · have hl : s.histories[i]?.map History.lane = Lane.ofEvents i r.2 := by
      rw [Lane.ofEvents_eq]
      exact hs.lane_run acts i
    simp only [← hl, Option.isSome_map, isSome_getElem?]
  · refine ⟨h.lane, hs.exists_lane_run rfl hi, rfl, ?_, ?_, ?_⟩
    · exact h.timeline.take_cursor_toList.symm
    · exact h.timeline.toList_getElem?_cursor
    · exact h.timeline.drop_cursor_toList.symm
  · rcases h with h | h <;> exact current_of_step h

end Studio

end ContractBlocks
