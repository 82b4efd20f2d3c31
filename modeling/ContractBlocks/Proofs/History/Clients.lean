/-
# Clients that name different blocks do not notice each other

Each client of a shared workspace names blocks of its own in its calls.  What a call is answered, and
what it makes of the blocks of given identities, depends on the blocks of those identities alone
(`Call.outcome_within`), and a call that names another identity leaves them as they are
(`Call.within_outcome_of_not`).  So at every moment of every run the blocks of a client are those
that it would have, had it been alone (`SharedWorkspace.Apart`).

Beside this, the timeline has grown by one snapshot for every call that was an effective edit, and
its first snapshot is still the one at the start (`SharedWorkspace.Grown`), so undoing that often
brings it back.  `SharedWorkspace.run_apart` puts both together.
-/

import ContractBlocks.History.Shared
import ContractBlocks.Proofs.History.Attempt
import Mathlib.Data.Finset.Basic
import Mathlib.Logic.Function.Iterate

namespace ContractBlocks

/-! ### The blocks of given identities -/

namespace Placed

variable (mine : BlockId → Prop) [DecidablePred mine]

/-- The blocks of a collection whose identities are among the given ones, in order. -/
def within (components : List Placed) : List Placed := components.filter fun p => mine p.id

variable {mine} {id : BlockId}

theorem within_cons (p : Placed) (ps : List Placed) :
    within mine (p :: ps) = if mine p.id then p :: within mine ps else within mine ps := by
  by_cases h : mine p.id <;> simp [within, h]

theorem within_append (ps qs : List Placed) :
    within mine (ps ++ qs) = within mine ps ++ within mine qs := List.filter_append ..

/-- A block of one of the identities is found among them. -/
theorem find?_within (h : mine id) (components : List Placed) :
    find? (within mine components) id = find? components id := by
  unfold find? within
  rw [List.find?_filter]
  congr 1
  funext p
  by_cases hp : p.id = id
  · simp [hp, h]
  · simp [hp]

/-- Changing the first block of one of the identities changes it among them. -/
theorem within_modifyFirst (h : mine id) (components : List Placed) {f : Placed → Placed}
    (hf : ∀ p, (f p).id = p.id) :
    within mine (modifyFirst id f components) = modifyFirst id f (within mine components) := by
  induction components with
  | nil => rfl
  | cons p ps ih =>
    rw [modifyFirst, within_cons]
    by_cases hp : p.id = id
    · have hm : mine p.id := hp ▸ h
      rw [if_pos hp, within_cons, hf, if_pos hm, if_pos hm, modifyFirst, if_pos hp]
    · rw [if_neg hp, within_cons, ih]
      by_cases hm : mine p.id
      · rw [if_pos hm, if_pos hm, modifyFirst, if_neg hp]
      · rw [if_neg hm, if_neg hm]

/-- Changing a block of another identity changes nothing among them. -/
theorem within_modifyFirst_of_not (h : ¬mine id) (components : List Placed) {f : Placed → Placed}
    (hf : ∀ p, (f p).id = p.id) :
    within mine (modifyFirst id f components) = within mine components := by
  induction components with
  | nil => rfl
  | cons p ps ih =>
    rw [modifyFirst, within_cons]
    by_cases hp : p.id = id
    · have hm : ¬mine p.id := hp ▸ h
      rw [if_pos hp, within_cons, hf, if_neg hm, if_neg hm]
    · rw [if_neg hp, within_cons, ih]

/-- Removing the first block of one of the identities removes it among them. -/
theorem within_eraseP (h : mine id) (components : List Placed) :
    within mine (components.eraseP fun p => p.id == id) =
      (within mine components).eraseP fun p => p.id == id := by
  induction components with
  | nil => rfl
  | cons p ps ih =>
    rw [within_cons]
    by_cases hp : p.id = id
    · rw [List.eraseP_cons_of_pos (by simpa using hp), if_pos (hp ▸ h),
        List.eraseP_cons_of_pos (by simpa using hp)]
    · rw [List.eraseP_cons_of_neg (by simpa using hp), within_cons, ih]
      by_cases hm : mine p.id
      · rw [if_pos hm, if_pos hm, List.eraseP_cons_of_neg (by simpa using hp)]
      · rw [if_neg hm, if_neg hm]

/-- Removing a block of another identity removes nothing among them. -/
theorem within_eraseP_of_not (h : ¬mine id) (components : List Placed) :
    within mine (components.eraseP fun p => p.id == id) = within mine components := by
  induction components with
  | nil => rfl
  | cons p ps ih =>
    rw [within_cons]
    by_cases hp : p.id = id
    · rw [List.eraseP_cons_of_pos (by simpa using hp), if_neg (hp ▸ h)]
    · rw [List.eraseP_cons_of_neg (by simpa using hp), within_cons, ih]

end Placed

namespace Edit

variable {mine : BlockId → Prop} [DecidablePred mine] {e : Edit}

/-- An edit of one of the blocks is refused among them where it is refused at all. -/
theorem refusal?_within (h : mine e.target) (components : List Placed) :
    e.refusal? (Placed.within mine components) = e.refusal? components := by
  have hfind := Placed.find?_within h components
  cases e with
  | add | update | move | remove =>
    rw [target] at hfind
    rw [refusal?, refusal?, hfind]

/-- An edit of one of the blocks does the same among them. -/
theorem perform_within (h : mine e.target) (components : List Placed) :
    e.perform (Placed.within mine components) = Placed.within mine (e.perform components) := by
  cases e with rw [target] at h
  | add p =>
    rw [perform, perform, Placed.within_append, Placed.within_cons, if_pos h]
    rfl
  | update id patch =>
    rw [perform, perform, Placed.within_modifyFirst h]
    exact fun _ => rfl
  | move id position =>
    rw [perform, perform, Placed.within_modifyFirst h]
    exact fun _ => rfl
  | remove id => exact (Placed.within_eraseP h components).symm

/-- An edit of another block does nothing among them. -/
theorem within_perform_of_not (h : ¬mine e.target) (components : List Placed) :
    Placed.within mine (e.perform components) = Placed.within mine components := by
  cases e with rw [target] at h
  | add p =>
    rw [perform, Placed.within_append, Placed.within_cons, if_neg h]
    exact List.append_nil _
  | update id patch =>
    rw [perform, Placed.within_modifyFirst_of_not h]
    exact fun _ => rfl
  | move id position =>
    rw [perform, Placed.within_modifyFirst_of_not h]
    exact fun _ => rfl
  | remove id => exact Placed.within_eraseP_of_not h components

/-- **An edit of one of the blocks is an edit among them.** -/
theorem run_within (h : mine e.target) (components : List Placed) :
    e.run (Placed.within mine components) = (e.run components).map (Placed.within mine) := by
  unfold run
  rw [refusal?_within h, perform_within h]
  cases e.refusal? components <;> rfl

end Edit

/-! ### What a call does to a collection -/

namespace Call

/-- The edit that a call asks for, or why there is none. -/
def edit? : Call → Except EditError Edit
  | .add id tagName seed position =>
    (Block.create id tagName seed).map fun b => .add (b.place position)
  | .update id patch => .ok (.update id patch)
  | .move id position => .ok (.move id position)
  | .remove id => .ok (.remove id)

/-- What a call is answered that succeeds on the collection. -/
def reply (components : List Placed) : Call → Reply
  | .add id _ _ _ => .added id
  | .update _ _ | .move _ _ => .done
  | .remove id => ((Placed.find? components id).map Reply.removed).getD .done

/-- **What a call makes of a collection, and how it is answered.** -/
def outcome (c : Call) (components : List Placed) : List Placed × Except EditError Reply :=
  match c.edit?.bind fun e => e.run components with
  | .ok next => (next, .ok (c.reply components))
  | .error error => (components, .error error)

/-- The edit that a call asks for is about the block that the call names, and idle if the call is. -/
theorem edit?_eq_ok {c : Call} {e : Edit} (h : c.edit? = .ok e) :
    e.target = c.target ∧ e.isIdle = c.isIdle := by
  cases c with
  | add id tagName seed position =>
    rw [edit?] at h
    cases hb : Block.create id tagName seed with
    | error error => rw [hb] at h; cases h
    | ok b =>
      rw [hb] at h
      obtain rfl := Except.ok.inj h
      exact ⟨Block.id_of_create hb, rfl⟩
  | update | move | remove =>
    obtain rfl := Except.ok.inj h
    exact ⟨rfl, rfl⟩

variable {mine : BlockId → Prop} [DecidablePred mine] {c : Call}

/-- **What a call comes to depends on the blocks of its identity alone.**  Among any blocks with that
identity it is answered as in the whole collection, and does the same to them. -/
theorem outcome_within (h : mine c.target) (components : List Placed) :
    c.outcome (Placed.within mine components) =
      (Placed.within mine (c.outcome components).1, (c.outcome components).2) := by
  have hreply : c.reply (Placed.within mine components) = c.reply components := by
    cases c with
    | remove id =>
      rw [target] at h
      rw [reply, reply, Placed.find?_within h]
    | add | update | move => rfl
  unfold outcome
  rw [hreply]
  cases he : c.edit? with
  | error error => rfl
  | ok e =>
    simp only [Except.bind]
    rw [Edit.run_within ((edit?_eq_ok he).1 ▸ h)]
    cases e.run components <;> rfl

/-- **A call leaves the blocks of other identities as they are.** -/
theorem within_outcome_of_not (h : ¬mine c.target) (components : List Placed) :
    Placed.within mine (c.outcome components).1 = Placed.within mine components := by
  unfold outcome
  cases he : c.edit? with
  | error error => rfl
  | ok e =>
    simp only [Except.bind]
    cases hr : e.run components with
    | error error => rfl
    | ok next =>
      rw [← (Edit.run_eq_ok hr).2]
      exact Edit.within_perform_of_not ((edit?_eq_ok he).1 ▸ h) components

/-- Where two collections have the same blocks of given identities, a call that names one of these
is answered alike and leaves the same blocks of them. -/
theorem outcome_congr (h : mine c.target) {a b : List Placed}
    (hab : Placed.within mine a = Placed.within mine b) :
    (c.outcome a).2 = (c.outcome b).2 ∧
      Placed.within mine (c.outcome a).1 = Placed.within mine (c.outcome b).1 := by
  have ha := c.outcome_within h a
  rw [hab, outcome_within h b, Prod.mk.injEq] at ha
  exact ⟨ha.2.symm, ha.1.symm⟩

/-- A call that is no effective edit leaves the collection as it is. -/
theorem outcome_of_not_isEffective {components : List Placed}
    (h : ¬Exchange.isEffective ⟨c, (c.outcome components).2⟩) :
    (c.outcome components).1 = components := by
  unfold outcome at h ⊢
  cases he : c.edit? with
  | error error => rfl
  | ok e =>
    rw [he] at h
    simp only [Except.bind] at h ⊢
    cases hr : e.run components with
    | error error => rfl
    | ok next =>
      rw [hr] at h
      have hi : e.isIdle := by
        rw [(edit?_eq_ok he).2]
        simpa [Exchange.isEffective, Except.isOk, Except.toBool] using h
      exact (Edit.eq_of_run_of_isIdle hi hr).symm

end Call

namespace Workspace

/-- **How a call is carried out.**  It is refused before anything has changed, or it asks for an edit
that is idle or replaces the current snapshot by a new one. -/
theorem call_eq (w : Workspace) (c : Call) :
    w.call c = (c.edit?.bind fun e => e.run w.components).map fun next =>
      (if c.isIdle then w else w.replaceNew next, c.reply w.components) := by
  cases c with
  | add id tagName seed position =>
    show (w.add id tagName seed position).map _ = _
    rw [Call.edit?]
    unfold add
    cases Block.create id tagName seed with
    | error error => rfl
    | ok b =>
      show (w.edit _).map _ = (Edit.run _ _).map _
      rw [edit_eq]
      cases Edit.run w.components (.add (b.place position)) <;> rfl
  | update id patch =>
    show (w.edit _).map _ = (Edit.run _ _).map _
    rw [edit_eq]
    cases Edit.run w.components (.update id patch) <;> rfl
  | move id position =>
    show (w.edit _).map _ = (Edit.run _ _).map _
    rw [edit_eq]
    cases Edit.run w.components (.move id position) <;> rfl
  | remove id =>
    show (w.take id).map _ = (Edit.run _ _).map _
    rw [take, edit_eq]
    cases hf : Placed.find? w.components id with
    | none => simp [Edit.run, Edit.refusal?, hf, Except.map]
    | some p => simp [Edit.run, Edit.refusal?, hf, Except.map, Call.reply, Edit.isIdle, Call.isIdle]

/-- **What serving a call comes to.**  The answer is that of its outcome, and the workspace is left as
it is or holds a new snapshot of the collection of the outcome. -/
theorem serve_eq (w : Workspace) (c : Call) :
    w.serve c = (if Exchange.isEffective ⟨c, (c.outcome w.components).2⟩
      then w.replaceNew (c.outcome w.components).1 else w, (c.outcome w.components).2) := by
  unfold serve Call.outcome
  rw [call_eq]
  cases c.edit?.bind fun e => e.run w.components with
  | error error => rfl
  | ok next =>
    by_cases hi : c.isIdle <;>
      simp [Except.map, Exchange.isEffective, Except.isOk, Except.toBool, hi]

/-- The collection after a call is that of its outcome. -/
theorem components_serve (w : Workspace) (c : Call) :
    (w.serve c).1.components = (c.outcome w.components).1 := by
  rw [serve_eq]
  split
  · rfl
  · next h => exact (Call.outcome_of_not_isEffective h).symm

/-- Undoing stays on the line and goes back one place at a time. -/
theorem Sound.iterate_undo {w : Workspace} (h : w.Sound) (k : Nat) :
    (Workspace.undo^[k] w).Sound ∧
      (Workspace.undo^[k] w).timeline.toList = w.timeline.toList ∧
        (Workspace.undo^[k] w).timeline.cursor = w.timeline.cursor - k := by
  induction k with
  | zero => exact ⟨h, rfl, rfl⟩
  | succ k ih =>
    obtain ⟨hs, hl, hc⟩ := ih
    rw [Function.iterate_succ_apply']
    obtain ⟨hl', hc', -⟩ := (Workspace.undo^[k] w).toList_undo
    exact ⟨hs.undo, hl'.trans hl, by omega⟩

/-- **Undoing everything comes back to the first snapshot of the line.** -/
theorem Sound.current_iterate_undo {w : Workspace} (h : w.Sound) {first : Snapshot}
    (hf : w.timeline.toList.head? = some first) :
    (Workspace.undo^[w.timeline.past.length] w).store.current = first := by
  obtain ⟨hs, hl, hc⟩ := h.iterate_undo w.timeline.past.length
  set last := Workspace.undo^[w.timeline.past.length] w
  have hzero : last.timeline.cursor = 0 := hc.trans (Nat.sub_self w.timeline.cursor)
  have hp := last.timeline.toList_getElem?_cursor
  rw [hzero, hl, ← List.head?_eq_getElem?, hf] at hp
  rw [hs.current_eq]
  exact (Option.some.inj hp).symm

/-- A new snapshot does not change where the line starts. -/
theorem Sound.head?_replaceNew {w : Workspace} (h : w.Sound) (components : List Placed) :
    (w.replaceNew components).timeline.toList.head? = w.timeline.toList.head? := by
  rw [h.timeline_replaceNew]
  simp [Timeline.toList, List.head?_append]

/-- One more call is carried out behind the others. -/
theorem serveAll_concat (w : Workspace) (calls : List Call) (c : Call) :
    w.serveAll (calls ++ [c]) = serveNext (w.serveAll calls) c := by
  unfold serveAll
  rw [List.foldl_append]
  rfl

end Workspace

/-! ### Runs -/

namespace SharedWorkspace

variable {n : Nat} {s : SharedWorkspace n}

/-- A turn of a client with a call to make. -/
theorem turn_of_waiting {i : Fin n} {c : Call} {rest : List Call} (h : s.waiting i = c :: rest) :
    s.turn i = ⟨(s.workspace.serve c).1, fun j => if j = i then rest else s.waiting j,
      s.log ++ [(i, ⟨c, (s.workspace.serve c).2⟩)]⟩ := by
  unfold turn
  rw [h]

/-- A turn makes of the collection what the call makes of it. -/
theorem components_turn {i : Fin n} {c : Call} {rest : List Call} (h : s.waiting i = c :: rest) :
    (s.turn i).workspace.components = (c.outcome s.workspace.components).1 := by
  rw [turn_of_waiting h]
  exact Workspace.components_serve _ c

theorem waiting_turn_self {i : Fin n} {c : Call} {rest : List Call} (h : s.waiting i = c :: rest) :
    (s.turn i).waiting i = rest := by
  rw [turn_of_waiting h]
  exact if_pos rfl

theorem waiting_turn_of_ne {i j : Fin n} (hj : j ≠ i) : (s.turn i).waiting j = s.waiting j := by
  unfold turn
  split
  · rfl
  · exact if_neg hj

/-- A turn of a client with a call to make adds one exchange to its own. -/
theorem exchanges_turn_self {i : Fin n} {c : Call} {rest : List Call}
    (h : s.waiting i = c :: rest) :
    (s.turn i).exchanges i = s.exchanges i ++ [⟨c, (s.workspace.serve c).2⟩] := by
  rw [turn_of_waiting h]
  simp [exchanges]

/-- The turn of another client adds none. -/
theorem exchanges_turn_of_ne {i j : Fin n} (hj : j ≠ i) :
    (s.turn i).exchanges j = s.exchanges j := by
  unfold turn
  split
  · rfl
  · simp [exchanges, Ne.symm hj]

/-- A turn of a client without a call to make changes nothing. -/
theorem turn_of_done {i : Fin n} (h : s.waiting i = []) : s.turn i = s := by
  unfold turn
  rw [h]

/-- A client gets through one call with every turn. -/
theorem waiting_run (s : SharedWorkspace n) (turns : List (Fin n)) (i : Fin n) :
    (s.run turns).waiting i = (s.waiting i).drop (turns.count i) := by
  induction turns generalizing s with
  | nil => rfl
  | cons j turns ih =>
    show ((s.turn j).run turns).waiting i = _
    rw [ih]
    by_cases hj : i = j
    · subst hj
      rw [List.count_cons_self]
      cases hw : s.waiting i with
      | nil => rw [turn_of_done hw, hw, List.drop_nil, List.drop_nil]
      | cons c rest =>
        rw [waiting_turn_self hw, List.drop_succ_cons]
    · rw [waiting_turn_of_ne hj, List.count_cons_of_ne (Ne.symm hj)]

/-- The calls that a client has made so far. -/
def made (s : SharedWorkspace n) (i : Fin n) : List Call := (s.exchanges i).map Exchange.call

theorem made_turn_self {i : Fin n} {c : Call} {rest : List Call} (h : s.waiting i = c :: rest) :
    (s.turn i).made i = s.made i ++ [c] := by
  rw [made, exchanges_turn_self h, List.map_append]
  rfl

theorem made_turn_of_ne {i j : Fin n} (hj : j ≠ i) : (s.turn i).made j = s.made j := by
  rw [made, exchanges_turn_of_ne hj]
  rfl

/-- **Every client stands where it would stand alone.**  What it has made and what it has still to
make is its script; its calls were answered as if it were alone; and so far as the blocks of its
identities go, the collection is what it would be.  The blocks of nobody's identities are those of
the start. -/
structure Apart (components : List Placed) (scripts : Fin n → List Call)
    (ids : Fin n → Finset BlockId) (s : SharedWorkspace n) : Prop where
  script_eq : ∀ i, s.made i ++ s.waiting i = scripts i
  answers_eq : ∀ i, ((Workspace.ofComponents components).serveAll (s.made i)).2 = s.exchanges i
  view_eq : ∀ i, Placed.within (· ∈ ids i) s.workspace.components = Placed.within (· ∈ ids i)
    ((Workspace.ofComponents components).serveAll (s.made i)).1.components
  rest_eq : Placed.within (fun id => ∀ i, id ∉ ids i) s.workspace.components =
    Placed.within (fun id => ∀ i, id ∉ ids i) components

variable {components : List Placed} {scripts : Fin n → List Call} {ids : Fin n → Finset BlockId}

theorem apart_start (components : List Placed) (scripts : Fin n → List Call)
    (ids : Fin n → Finset BlockId) : Apart components scripts ids (start components scripts) :=
  ⟨fun _ => rfl, fun _ => rfl, fun _ => rfl, rfl⟩

/-- **A turn keeps the clients apart.** -/
theorem Apart.turn (h : Apart components scripts ids s)
    (hown : ∀ i, ∀ c ∈ scripts i, c.target ∈ ids i)
    (hapart : ∀ i j, i ≠ j → Disjoint (ids i) (ids j)) (i : Fin n) :
    Apart components scripts ids (s.turn i) := by
  cases hw : s.waiting i with
  | nil => rwa [turn_of_done hw]
  | cons c rest =>
    have hc : c.target ∈ ids i := by
      refine hown i c ?_
      rw [← h.script_eq i, hw]
      exact List.mem_append_right _ List.mem_cons_self
    have hother : ∀ {j}, j ≠ i → c.target ∉ ids j := fun hj hmem =>
      Finset.disjoint_left.1 (hapart _ i hj) hmem hc
    -- alone, the client finds the same blocks of its identities as here
    obtain ⟨hanswer, hview⟩ := Call.outcome_congr (by exact hc) (h.view_eq i)
    refine ⟨fun j => ?_, fun j => ?_, fun j => ?_, ?_⟩
    · by_cases hj : j = i
      · subst hj
        rw [made_turn_self hw, waiting_turn_self hw, List.append_assoc, ← h.script_eq j, hw]
        rfl
      · rw [made_turn_of_ne hj, waiting_turn_of_ne hj, h.script_eq j]
    · by_cases hj : j = i
      · subst hj
        rw [made_turn_self hw, Workspace.serveAll_concat, exchanges_turn_self hw]
        show _ ++ [_] = _
        rw [h.answers_eq j, Workspace.serve_eq, Workspace.serve_eq]
        dsimp only
        rw [hanswer]
      · rw [made_turn_of_ne hj, exchanges_turn_of_ne hj, h.answers_eq j]
    · by_cases hj : j = i
      · subst hj
        rw [made_turn_self hw, Workspace.serveAll_concat, components_turn hw]
        show _ = Placed.within _ (Workspace.serve _ c).1.components
        rw [Workspace.components_serve]
        exact hview
      · rw [made_turn_of_ne hj, ← h.view_eq j, components_turn hw]
        exact Call.within_outcome_of_not (hother hj) _
    · rw [← h.rest_eq, components_turn hw]
      exact Call.within_outcome_of_not (fun hall => hall i hc) _

/-- **Every run keeps the clients apart.** -/
theorem Apart.run (h : Apart components scripts ids s)
    (hown : ∀ i, ∀ c ∈ scripts i, c.target ∈ ids i)
    (hapart : ∀ i j, i ≠ j → Disjoint (ids i) (ids j)) (turns : List (Fin n)) :
    Apart components scripts ids (s.run turns) := by
  induction turns generalizing s with
  | nil => exact h
  | cons i turns ih => exact ih (h.turn hown hapart i)

/-- **The history has an entry for every effective edit.**  The workspace is sound, the line starts at
the given snapshot, nothing lies ahead, and behind lies one snapshot for each of the edits. -/
structure Grown (first : Snapshot) (s : SharedWorkspace n) : Prop where
  sound : s.workspace.Sound
  first_eq : s.workspace.timeline.toList.head? = some first
  future_eq : s.workspace.timeline.future = []
  past_length : s.workspace.timeline.past.length = s.effectiveCount

theorem grown_start (components : List Placed) (scripts : Fin n → List Call) :
    Grown ⟨0, components⟩ (start components scripts) :=
  ⟨Workspace.sound_ofComponents components, rfl, rfl, rfl⟩

/-- A turn adds an entry exactly if it is an effective edit. -/
theorem Grown.turn {first : Snapshot} (h : Grown first s) (i : Fin n) :
    Grown first (s.turn i) := by
  cases hw : s.waiting i with
  | nil => rwa [turn_of_done hw]
  | cons c rest =>
    rw [turn_of_waiting hw, Workspace.serve_eq]
    set outcome := c.outcome s.workspace.components
    have hcount : ∀ (w : Workspace) (waiting : Fin n → List Call),
        effectiveCount ⟨w, waiting, s.log ++ [(i, ⟨c, outcome.2⟩)]⟩ =
          s.effectiveCount + if Exchange.isEffective ⟨c, outcome.2⟩ then 1 else 0 := by
      intro w waiting
      simp only [effectiveCount, List.countP_append, List.countP_singleton]
    by_cases he : Exchange.isEffective ⟨c, outcome.2⟩
    · have ht := h.sound.timeline_replaceNew outcome.1
      simp only [if_pos he]
      refine ⟨h.sound.replaceNew outcome.1, ?_, ?_, ?_⟩
      · rw [h.sound.head?_replaceNew, h.first_eq]
      · rw [ht]
      · rw [hcount, if_pos he, ht, List.length_cons, h.past_length]
    · simp only [if_neg he]
      refine ⟨h.sound, h.first_eq, h.future_eq, ?_⟩
      rw [hcount, if_neg he, h.past_length, Nat.add_zero]

theorem Grown.run {first : Snapshot} (h : Grown first s) (turns : List (Fin n)) :
    Grown first (s.run turns) := by
  induction turns generalizing s with
  | nil => exact h
  | cons i turns ih => exact ih (h.turn i)

/-- **Clients that name different blocks do not notice each other.**  Any number of clients share a
workspace that starts at any collection, and each names only identities of its own.  Whatever turns
they get, a client has then made as many calls of its script as it got turns, each was answered as
it is when the client makes these calls alone, and the blocks of its identities are the same, in the
same order, as when it is alone.  The blocks of nobody's identities are those of the start.  The
history has one entry for each call that was an effective edit, and undoing that often brings back
the snapshot of the start. -/
theorem run_apart {n : Nat} (components : List Placed) (scripts : Fin n → List Call)
    (ids : Fin n → Finset BlockId) (hown : ∀ i, ∀ c ∈ scripts i, c.target ∈ ids i)
    (hapart : ∀ i j, i ≠ j → Disjoint (ids i) (ids j)) (turns : List (Fin n)) :
    let s := (start components scripts).run turns
    (∀ i,
      let calls := (scripts i).take (turns.count i)
      let alone := (Workspace.ofComponents components).serveAll calls
      (s.exchanges i).map Exchange.call = calls ∧ s.exchanges i = alone.2 ∧
        Placed.within (· ∈ ids i) s.workspace.components =
          Placed.within (· ∈ ids i) alone.1.components) ∧
      Placed.within (fun id => ∀ i, id ∉ ids i) s.workspace.components =
        Placed.within (fun id => ∀ i, id ∉ ids i) components ∧
      s.workspace.timeline.past.length = s.effectiveCount ∧
      (Workspace.undo^[s.effectiveCount] s.workspace).store.current = ⟨0, components⟩ := by
  intro s
  have h : Apart components scripts ids s :=
    (apart_start components scripts ids).run hown hapart turns
  have hg : Grown ⟨0, components⟩ s := (grown_start components scripts).run turns
  refine ⟨fun i => ?_, h.rest_eq, hg.past_length, ?_⟩
  · have hmade : s.made i = (scripts i).take (turns.count i) := by
      have hs := h.script_eq i
      have hw : s.waiting i = (scripts i).drop (turns.count i) := waiting_run _ turns i
      rw [hw] at hs
      exact List.append_cancel_right (hs.trans (List.take_append_drop _ _).symm)
    rw [← hmade]
    exact ⟨rfl, (h.answers_eq i).symm, h.view_eq i⟩
  · rw [← hg.past_length]
    exact hg.sound.current_iterate_undo hg.first_eq

/-- Two blocks of one identity with a block of nobody's between them, and a block of another
client's. -/
def crowd : List Placed :=
  [("a", .event), ("n", .enum), ("a", .error), ("b", .struct)].map fun p =>
    (Block.ofTag p.1 p.2 .empty).place .origin

/-- One client takes the first of its two blocks away, renames the other and adds a block; the other
client moves its block, cannot add it again, and takes it away. -/
def crowdScripts : Fin 2 → List Call
  | 0 => [.remove "a", .update "a" { Patch.empty with name := some "Paid" },
      .add "c" "event" .empty .origin]
  | 1 => [.move "b" .origin, .add "b" "event" .empty .origin, .remove "b"]

/-- The identities of the two clients. -/
def crowdIds : Fin 2 → Finset BlockId
  | 0 => {"a", "c"}
  | 1 => {"b"}

theorem run_apart_crowd :
    let s := (start crowd crowdScripts).run [1, 0, 0, 1, 1, 0]
    (∀ i, ∀ c ∈ crowdScripts i, c.target ∈ crowdIds i) ∧
      (∀ i j, i ≠ j → Disjoint (crowdIds i) (crowdIds j)) ∧
      s.workspace.components.map Placed.id = ["n", "a", "c"] ∧
      (∀ i, s.exchanges i = ((Workspace.ofComponents crowd).serveAll (crowdScripts i)).2) ∧
      s.workspace.timeline.past.length = 5 ∧
      (Workspace.undo^[5] s.workspace).store.current = ⟨0, crowd⟩ := by
  intro s
  have hown : ∀ i, ∀ c ∈ crowdScripts i, c.target ∈ crowdIds i := by decide
  have hapart : ∀ i j, i ≠ j → Disjoint (crowdIds i) (crowdIds j) := by decide
  have htake : ∀ i, (crowdScripts i).take ([1, 0, 0, 1, 1, 0].count i) = crowdScripts i := by
    decide
  have hcount : s.effectiveCount = 5 := by decide
  obtain ⟨h, -, hpast, hundo⟩ :=
    run_apart crowd crowdScripts crowdIds hown hapart [1, 0, 0, 1, 1, 0]
  refine ⟨hown, hapart, by decide, fun i => ?_, hpast.trans hcount, ?_⟩
  · have hi := (h i).2.1
    rwa [htake i] at hi
  · rw [← hcount]
    exact hundo

end SharedWorkspace

end ContractBlocks
