/-
# What the subscribers of a store are told

Subscribers come and go while the collection of a store is edited and replaced.  A run of such acts
is told by its record (`Store.run`): for each act how it was answered, the store before and after it,
and the notices that were sent.  Beside the notices stand the replacements, which are read off the
act and the store before it alone (`Store.replacement?`), and the subscriptions, which are read off
the answers and the acts that end them (`Store.Listens`).

`Store.run_notices` joins the two.  Handles are given out in order, each once.  Whoever has been
given one receives each replacement from then on until an act ends the subscription, in order and
once; of one replacement the subscribers are told in the order in which they subscribed; and who
else subscribes does not matter to any of them.  The invariant is that the handles of the
subscribers stand in strict order and below the next one (`Store.Sound`).
-/

import ContractBlocks.History.Store
import Mathlib.Data.List.Induction

namespace ContractBlocks
namespace Store

/-! ### Runs and their records -/

/-- What may be done with a store. -/
inductive Act where
  | subscribe
  | unsubscribe (handle : Nat)
  | edit (e : Edit)
  /-- A new snapshot of the collection becomes current. -/
  | replaceNew (components : List Placed) (origin : Origin)
  /-- The given snapshot becomes current. -/
  | replace (next : Snapshot) (origin : Origin)

/-- What an act is answered. -/
inductive Answer where
  /-- The handle of the new subscriber. -/
  | given (handle : Nat)
  /-- Whether there was a subscription to end. -/
  | ended (found : Bool)
  | done
  | refused (error : EditError)

/-- An act in the record of a run. -/
structure Entry where
  before : Store
  act : Act
  answer : Answer
  notices : List Notice
  after : Store

/-- Carries out an act and takes down what came of it. -/
def act (s : Store) : Act → Entry
  | .subscribe => ⟨s, .subscribe, .given s.subscribe.2, [], s.subscribe.1⟩
  | .unsubscribe h => ⟨s, .unsubscribe h, .ended (s.release h).2, [], (s.release h).1⟩
  | .edit e => match s.edit e with
    | .ok (s', ns) => ⟨s, .edit e, .done, ns, s'⟩
    | .error error => ⟨s, .edit e, .refused error, [], s⟩
  | .replaceNew components origin =>
    let r := s.replaceNew components origin
    ⟨s, .replaceNew components origin, .done, r.2, r.1⟩
  | .replace next origin =>
    let r := s.replace next origin
    ⟨s, .replace next origin, .done, r.2, r.1⟩

/-- Carries out acts in order, past those that are refused, and takes down what came of them. -/
def run (s : Store) : List Act → List Entry
  | [] => []
  | a :: acts => s.act a :: (s.act a).after.run acts

/-- The store after acts in order. -/
def afterAll (s : Store) (acts : List Act) : Store := acts.foldl (fun s a => (s.act a).after) s

/-- The replacement that an act makes, if it makes one: the snapshot that becomes current, and whose
doing it is.  An edit makes one unless it is refused or idle. -/
def replacement? (s : Store) : Act → Option (Snapshot × Origin)
  | .subscribe | .unsubscribe _ => none
  | .edit e => match e.run s.components with
    | .ok next => if e.isIdle then none else some (⟨s.nextSerial, next⟩, .edit)
    | .error _ => none
  | .replaceNew components origin => some (⟨s.nextSerial, components⟩, origin)
  | .replace next origin => some (next, origin)

namespace Entry

/-- The handle that was given out, if one was. -/
def given? (e : Entry) : Option Nat :=
  match e.answer with
  | .given h => some h
  | _ => none

/-- The act ends the subscription of the handle, if there is one. -/
def ends (e : Entry) (h : Nat) : Bool :=
  match e.act with
  | .unsubscribe k => k == h
  | _ => false

/-- The replacement that was made, if one was. -/
def replacement? (e : Entry) : Option (Snapshot × Origin) := e.before.replacement? e.act

end Entry

/-- At the end of the record the handle is that of a subscriber: it has been given out, and no act
has ended the subscription since. -/
def Listens (record : List Entry) (h : Nat) : Prop :=
  ∃ before e after, record = before ++ e :: after ∧ e.given? = some h ∧
    ∀ e' ∈ after, e'.ends h = false

/-- What the subscriber of a handle is told in the course of a record, in order. -/
def received (h : Nat) (record : List Entry) : List (Snapshot × Origin) :=
  ((record.flatMap Entry.notices).filter fun n => n.handle == h).map fun n => (n.snapshot, n.origin)

theorem received_cons (h : Nat) (e : Entry) (record : List Entry) :
    received h (e :: record) = received h [e] ++ received h record := by
  simp only [received, List.flatMap_cons, List.flatMap_nil, List.append_nil, List.filter_append,
    List.map_append]

theorem received_append (h : Nat) (first second : List Entry) :
    received h (first ++ second) = received h first ++ received h second := by
  simp only [received, List.flatMap_append, List.filter_append, List.map_append]

theorem listens_concat_iff {record : List Entry} {e : Entry} {h : Nat} :
    Listens (record ++ [e]) h ↔ e.given? = some h ∨ Listens record h ∧ e.ends h = false := by
  constructor
  · rintro ⟨before, x, after, heq, hx, hafter⟩
    rcases List.eq_nil_or_concat after with rfl | ⟨after, y, rfl⟩
    · obtain ⟨-, hex⟩ := List.append_inj' heq rfl
      exact Or.inl ((List.singleton_inj.1 hex) ▸ hx)
    · rw [List.concat_eq_append, ← List.cons_append, ← List.append_assoc] at heq
      obtain ⟨rfl, hey⟩ := List.append_inj' heq rfl
      obtain rfl := List.singleton_inj.1 hey
      refine Or.inr ⟨⟨before, x, after, rfl, hx, fun e' he' => ?_⟩, ?_⟩
      · exact hafter e' (by rw [List.concat_eq_append]; exact List.mem_append_left _ he')
      · exact hafter e (by rw [List.concat_eq_append]; exact List.mem_append_right _ (by simp))
  · rintro (he | ⟨⟨before, x, after, rfl, hx, hafter⟩, he⟩)
    · exact ⟨record, e, [], rfl, he, fun _ h => absurd h List.not_mem_nil⟩
    · refine ⟨before, x, after ++ [e], by simp, hx, fun e' he' => ?_⟩
      rcases List.mem_append.1 he' with he' | he'
      · exact hafter e' he'
      · exact List.mem_singleton.1 he' ▸ he

theorem afterAll_concat (s : Store) (acts : List Act) (a : Act) :
    s.afterAll (acts ++ [a]) = ((s.afterAll acts).act a).after := by
  rw [afterAll, List.foldl_append]
  rfl

theorem run_append (s : Store) (acts more : List Act) :
    s.run (acts ++ more) = s.run acts ++ (s.afterAll acts).run more := by
  induction acts generalizing s with
  | nil => rfl
  | cons a acts ih =>
    show s.act a :: (s.act a).after.run (acts ++ more) = _
    rw [ih]
    rfl

/-- Whatever stands in a record is what came of an act there. -/
theorem exists_of_run_eq_append {s : Store} {acts : List Act} {before after : List Entry} {e : Entry}
    (h : s.run acts = before ++ e :: after) :
    ∃ acts₁ a acts₂, before = s.run acts₁ ∧ e = (s.afterAll acts₁).act a ∧
      after = e.after.run acts₂ := by
  induction before generalizing s acts with
  | nil =>
    cases acts with
    | nil => cases h
    | cons a acts =>
      obtain ⟨rfl, rfl⟩ := List.cons.inj h
      exact ⟨[], a, acts, rfl, rfl, rfl⟩
  | cons b before ih =>
    cases acts with
    | nil => cases h
    | cons a acts =>
      obtain ⟨rfl, hrest⟩ := List.cons.inj h
      obtain ⟨acts₁, a', acts₂, rfl, rfl, rfl⟩ := ih hrest
      exact ⟨a :: acts₁, a', acts₂, rfl, rfl, rfl⟩

/-! ### One act -/

variable {s : Store}

/-- An act knows the store it was carried out on. -/
@[simp]
theorem before_act (s : Store) (a : Act) : (s.act a).before = s := by
  cases a with
  | edit e => rw [act]; split <;> rfl
  | _ => rfl

@[simp]
theorem act_act (s : Store) (a : Act) : (s.act a).act = a := by
  cases a with
  | edit e => rw [act]; split <;> rfl
  | _ => rfl

@[simp]
theorem replacement?_act (s : Store) (a : Act) : (s.act a).replacement? = s.replacement? a := by
  rw [Entry.replacement?, before_act, act_act]

/-- An edit gives out no handle, and it is a replacement by a new snapshot or changes nothing. -/
theorem act_edit (s : Store) (e : Edit) :
    (s.act (.edit e)).given? = none ∧
      (s.replacement? (.edit e) = none ∧ (s.act (.edit e)).notices = [] ∧
          (s.act (.edit e)).after = s ∨
        ∃ next, s.replacement? (.edit e) = some (⟨s.nextSerial, next⟩, .edit) ∧
          (s.act (.edit e)).notices = (s.replaceNew next .edit).2 ∧
          (s.act (.edit e)).after = (s.replaceNew next .edit).1) := by
  simp only [act, replacement?, edit]
  cases e.run s.components with
  | error error => exact ⟨rfl, Or.inl ⟨rfl, rfl, rfl⟩⟩
  | ok next =>
    cases hi : e.isIdle with
    | true => exact ⟨rfl, Or.inl ⟨rfl, rfl, rfl⟩⟩
    | false => exact ⟨rfl, Or.inr ⟨next, rfl, rfl, rfl⟩⟩

/-- **What an act does to the store.**  A replacement makes its snapshot current and tells every
subscriber; an act that makes none leaves the current snapshot as it is and tells nobody. -/
theorem act_spec (s : Store) (a : Act) :
    (s.act a).notices = (match s.replacement? a with
      | some (next, origin) => s.subscribers.map fun h => ⟨h, next, origin⟩
      | none => []) ∧
    (s.act a).after.current = (match s.replacement? a with
      | some (next, _) => next
      | none => s.current) := by
  cases a with
  | edit e =>
    obtain ⟨-, ⟨hr, hn, ha⟩ | ⟨next, hr, hn, ha⟩⟩ := s.act_edit e
    · rw [hr, hn, ha]
      exact ⟨rfl, rfl⟩
    · rw [hr, hn, ha]
      exact ⟨rfl, rfl⟩
  | _ => exact ⟨rfl, rfl⟩

/-- **Who subscribes after an act:** those who did and whose subscription it does not end, and who
has been given a handle by it. -/
theorem subscribers_act (s : Store) (a : Act) :
    (s.act a).after.subscribers =
      (s.subscribers.filter fun h => !(s.act a).ends h) ++ (s.act a).given?.toList := by
  have hkeep : (∀ h, (s.act a).ends h = false) →
      s.subscribers.filter (fun h => !(s.act a).ends h) = s.subscribers := fun hends =>
    List.filter_eq_self.2 fun h _ => by rw [hends h]; rfl
  cases a with
  | subscribe =>
    rw [hkeep fun _ => rfl]
    rfl
  | unsubscribe k =>
    have hfilter : s.subscribers.filter (fun h => h != k) =
        s.subscribers.filter fun h => !(k == h) :=
      List.filter_congr fun h _ => by rw [bne, Bool.beq_comm]
    exact hfilter.trans (List.append_nil _).symm
  | edit e =>
    have hsame : (s.act (.edit e)).after.subscribers = s.subscribers := by
      obtain ⟨-, ⟨-, -, ha⟩ | ⟨next, -, -, ha⟩⟩ := s.act_edit e <;> rw [ha]
      rfl
    have hends : ∀ h, (s.act (.edit e)).ends h = false := fun h => by rw [Entry.ends, act_act]
    rw [hsame, hkeep hends, (s.act_edit e).1]
    exact (List.append_nil _).symm
  | replaceNew | replace =>
    rw [hkeep fun _ => rfl]
    exact (List.append_nil _).symm

/-- The next handle moves on when it has been given out. -/
theorem nextHandle_act (s : Store) (a : Act) :
    (s.act a).given? = some s.nextHandle ∧ (s.act a).after.nextHandle = s.nextHandle + 1 ∨
      (s.act a).given? = none ∧ (s.act a).after.nextHandle = s.nextHandle := by
  cases a with
  | subscribe => exact Or.inl ⟨rfl, rfl⟩
  | edit e =>
    obtain ⟨hgiven, ⟨-, -, ha⟩ | ⟨next, -, -, ha⟩⟩ := s.act_edit e <;> rw [ha]
    · exact Or.inr ⟨hgiven, rfl⟩
    · exact Or.inr ⟨hgiven, rfl⟩
  | _ => exact Or.inr ⟨rfl, rfl⟩

/-! ### What every act keeps -/

/-- The handles of the subscribers stand in strict order, below the next one. -/
structure Sound (s : Store) : Prop where
  pairwise : s.subscribers.Pairwise (· < ·)
  lt : ∀ h ∈ s.subscribers, h < s.nextHandle

theorem sound_ofComponents (components : List Placed) : (ofComponents components).Sound where
  pairwise := List.Pairwise.nil
  lt _ hh := absurd hh List.not_mem_nil

theorem mem_subscribers_act_iff {a : Act} {h : Nat} :
    h ∈ (s.act a).after.subscribers ↔
      (s.act a).given? = some h ∨ h ∈ s.subscribers ∧ (s.act a).ends h = false := by
  rw [subscribers_act, List.mem_append, List.mem_filter, Option.mem_toList,
    Bool.not_eq_true', or_comm]

/-- An act does not take back a handle that has been given out. -/
theorem nextHandle_le_act (s : Store) (a : Act) : s.nextHandle ≤ (s.act a).after.nextHandle := by
  rcases s.nextHandle_act a with ⟨-, h⟩ | ⟨-, h⟩ <;> omega

/-- Only the next handle is given out. -/
theorem eq_of_given {a : Act} {h : Nat} (hh : (s.act a).given? = some h) : h = s.nextHandle := by
  rcases s.nextHandle_act a with ⟨hgiven, -⟩ | ⟨hgiven, -⟩
  · exact Option.some.inj (hh.symm.trans hgiven)
  · rw [hh] at hgiven
    cases hgiven

theorem Sound.act (hs : s.Sound) (a : Act) : (s.act a).after.Sound := by
  have hold : (s.subscribers.filter fun h => !(s.act a).ends h).Pairwise (· < ·) :=
    hs.pairwise.sublist List.filter_sublist
  have hlt : ∀ h ∈ s.subscribers.filter fun h => !(s.act a).ends h, h < s.nextHandle :=
    fun h hh => hs.lt h (List.mem_filter.1 hh).1
  rcases s.nextHandle_act a with ⟨hgiven, hnext⟩ | ⟨hgiven, hnext⟩
  · have hsub : (s.act a).after.subscribers =
        (s.subscribers.filter fun h => !(s.act a).ends h) ++ [s.nextHandle] := by
      rw [subscribers_act, hgiven]
      rfl
    refine ⟨?_, fun h hh => ?_⟩
    · rw [hsub, List.pairwise_append]
      exact ⟨hold, List.pairwise_singleton _ _, fun h hh k hk => List.mem_singleton.1 hk ▸ hlt h hh⟩
    · rw [hsub, List.mem_append, List.mem_singleton] at hh
      rw [hnext]
      rcases hh with hh | rfl
      · have := hlt h hh
        omega
      · omega
  · have hsub : (s.act a).after.subscribers = s.subscribers.filter fun h => !(s.act a).ends h := by
      rw [subscribers_act, hgiven]
      exact List.append_nil _
    exact ⟨hsub ▸ hold, fun h hh => hnext ▸ hlt h (hsub ▸ hh)⟩

theorem Sound.afterAll (hs : s.Sound) (acts : List Act) : (s.afterAll acts).Sound := by
  induction acts generalizing s with
  | nil => exact hs
  | cons a acts ih => exact ih (hs.act a)

/-- **The subscribers are those who listen,** by the record of what was done since there were none. -/
theorem mem_subscribers_afterAll_iff (hs : s.subscribers = []) (acts : List Act) {h : Nat} :
    h ∈ (s.afterAll acts).subscribers ↔ Listens (s.run acts) h := by
  induction acts using List.reverseRecOn with
  | nil =>
    have hnil : (s.afterAll []).subscribers = [] := hs
    rw [hnil]
    refine iff_of_false List.not_mem_nil ?_
    rintro ⟨before, e, after, heq, -⟩
    have hlen := congrArg List.length heq
    simp [run] at hlen
  | append_singleton acts a ih =>
    have hone : (s.afterAll acts).run [a] = [(s.afterAll acts).act a] := rfl
    rw [afterAll_concat, mem_subscribers_act_iff, run_append, hone, listens_concat_iff, ih]

/-- **Handles are given out in order, each once.** -/
theorem given_run (s : Store) (acts : List Act) :
    (s.run acts).filterMap Entry.given? =
      List.range' s.nextHandle ((s.run acts).filterMap Entry.given?).length := by
  induction acts generalizing s with
  | nil => rfl
  | cons a acts ih =>
    have hcons : s.run (a :: acts) = s.act a :: (s.act a).after.run acts := rfl
    rcases s.nextHandle_act a with ⟨hgiven, hnext⟩ | ⟨hgiven, hnext⟩
    · rw [hcons, List.filterMap_cons_some hgiven, List.length_cons, List.range'_succ, ← hnext, ← ih]
    · rw [hcons, List.filterMap_cons_none hgiven, ← hnext, ← ih]

/-! ### What one subscriber is told -/

/-- **Of an act a subscriber is told once,** if it makes a replacement; who does not subscribe is
told nothing. -/
theorem Sound.received_act (hs : s.Sound) (a : Act) (h : Nat) :
    received h [s.act a] = if h ∈ s.subscribers then (s.replacement? a).toList else [] := by
  have hnodup : s.subscribers.Nodup := hs.pairwise.imp fun hlt => Nat.ne_of_lt hlt
  have hnotices : [s.act a].flatMap Entry.notices = (s.act a).notices := by simp
  rw [received, hnotices, (s.act_spec a).1]
  cases s.replacement? a with
  | none => rw [Option.toList_none, ite_self]; rfl
  | some r =>
    show ((s.subscribers.map fun k => (⟨k, r.1, r.2⟩ : Notice)).filter fun n => n.handle == h).map
      (fun n => (n.snapshot, n.origin)) = _
    have hone : s.subscribers.filter (fun k => k == h) = if h ∈ s.subscribers then [h] else [] := by
      rw [List.filter_beq, hnodup.count]
      split <;> rfl
    rw [List.filter_map, List.map_map]
    show (s.subscribers.filter fun k => k == h).map (fun _ => (r.1, r.2)) = _
    rw [hone]
    split <;> rfl

/-- Who is given a handle later is told nothing before. -/
theorem Sound.received_run_of_le (hs : s.Sound) {acts : List Act} {h : Nat}
    (hle : (s.afterAll acts).nextHandle ≤ h) : received h (s.run acts) = [] := by
  induction acts using List.reverseRecOn with
  | nil => rfl
  | append_singleton acts a ih =>
    rw [afterAll_concat] at hle
    have hstep := (s.afterAll acts).nextHandle_le_act a
    have hnot : h ∉ (s.afterAll acts).subscribers := fun hh => by
      have := (hs.afterAll acts).lt h hh
      omega
    have hlast : received h [(s.afterAll acts).act a] = [] := by
      rw [(hs.afterAll acts).received_act, if_neg hnot]
    rw [run_append, received_append, ih (by omega)]
    exact hlast

/-- Who has been given a handle and subscribes no more is told nothing from then on. -/
theorem Sound.received_run_of_gone (hs : s.Sound) {h : Nat} (hlt : h < s.nextHandle)
    (hgone : h ∉ s.subscribers) (acts : List Act) : received h (s.run acts) = [] := by
  induction acts generalizing s with
  | nil => rfl
  | cons a acts ih =>
    have hfirst : received h [s.act a] = [] := by rw [hs.received_act, if_neg hgone]
    have hstill : h ∉ (s.act a).after.subscribers := by
      rw [mem_subscribers_act_iff]
      rintro (hgiven | ⟨hh, -⟩)
      · have := eq_of_given hgiven
        omega
      · exact hgone hh
    have hrest := ih (hs.act a) (Nat.lt_of_lt_of_le hlt (s.nextHandle_le_act a)) hstill
    show received h (s.act a :: (s.act a).after.run acts) = []
    rw [received_cons, hfirst, hrest, List.append_nil]

/-- **A subscriber is told of every replacement until its subscription is ended,** in order, once. -/
theorem Sound.received_run (hs : s.Sound) {h : Nat} (hh : h ∈ s.subscribers) (acts : List Act) :
    received h (s.run acts) =
      ((s.run acts).takeWhile fun e => !e.ends h).filterMap Entry.replacement? := by
  induction acts generalizing s with
  | nil => rfl
  | cons a acts ih =>
    have hcons : s.run (a :: acts) = s.act a :: (s.act a).after.run acts := rfl
    have hfirst : received h [s.act a] = (s.replacement? a).toList := by
      rw [hs.received_act, if_pos hh]
    rw [hcons, received_cons, hfirst, List.takeWhile_cons]
    cases hends : (s.act a).ends h with
    | true =>
      have hnone : s.replacement? a = none := by
        cases a with
        | unsubscribe k => rfl
        | _ => rw [Entry.ends, act_act] at hends; cases hends
      have hgone : h ∉ (s.act a).after.subscribers := by
        rw [mem_subscribers_act_iff, hends]
        rintro (hgiven | ⟨-, hfalse⟩)
        · have hlt := hs.lt h hh
          have := eq_of_given hgiven
          omega
        · cases hfalse
      have hlt : h < (s.act a).after.nextHandle :=
        Nat.lt_of_lt_of_le (hs.lt h hh) (s.nextHandle_le_act a)
      rw [hnone, (hs.act a).received_run_of_gone hlt hgone]
      rfl
    | false =>
      have hstill : h ∈ (s.act a).after.subscribers :=
        mem_subscribers_act_iff.2 (Or.inr ⟨hh, hends⟩)
      rw [ih (hs.act a) hstill, Bool.not_false, if_pos rfl, List.filterMap_cons, replacement?_act]
      cases s.replacement? a <;> rfl

/-! ### Who else subscribes -/

/-- **The other subscribers make no difference to an act:** it gives out the same handle, ends the
same subscription, makes the same replacement, and leaves the same store but for the subscribers. -/
theorem act_withSubscribers (s : Store) (handles : List Nat) (a : Act) :
    let t : Store := { s with subscribers := handles }
    t.replacement? a = s.replacement? a ∧ (t.act a).given? = (s.act a).given? ∧
      (t.act a).ends = (s.act a).ends ∧
      (t.act a).after = { (s.act a).after with subscribers := (t.act a).after.subscribers } := by
  intro t
  cases a with
  | edit e =>
    have hcomponents : t.components = s.components := rfl
    simp only [replacement?, act, edit, hcomponents]
    cases e.run s.components with
    | error error => exact ⟨rfl, rfl, rfl, rfl⟩
    | ok next => cases e.isIdle <;> exact ⟨rfl, rfl, rfl, rfl⟩
  | _ => exact ⟨rfl, rfl, rfl, rfl⟩

/-- **What a subscriber is told does not depend on the others.** -/
theorem Sound.received_withSubscribers (hs : s.Sound) {handles : List Nat}
    (ht : Sound { s with subscribers := handles }) {h : Nat}
    (hh : h ∈ handles ↔ h ∈ s.subscribers) (acts : List Act) :
    received h (run { s with subscribers := handles } acts) = received h (s.run acts) := by
  induction acts generalizing s handles with
  | nil => rfl
  | cons a acts ih =>
    set t : Store := { s with subscribers := handles } with htdef
    obtain ⟨hreplacement, hgiven, hends, hafter⟩ := s.act_withSubscribers handles a
    rw [← htdef] at hreplacement hgiven hends hafter
    have hfirst : received h [t.act a] = received h [s.act a] := by
      rw [ht.received_act, hs.received_act, hreplacement]
      exact if_congr hh rfl rfl
    have hmem : h ∈ (t.act a).after.subscribers ↔ h ∈ (s.act a).after.subscribers := by
      rw [mem_subscribers_act_iff, mem_subscribers_act_iff, hgiven, hends, ← hh]
    have htafter := ht.act a
    rw [hafter] at htafter
    show received h (t.act a :: (t.act a).after.run acts) =
      received h (s.act a :: (s.act a).after.run acts)
    rw [received_cons, received_cons h (s.act a), hfirst, hafter, ih (hs.act a) htafter hmem]

/-- Ending one subscription makes no difference to what another subscriber is told. -/
theorem Sound.received_unsubscribe (hs : s.Sound) {g h : Nat} (hne : g ≠ h)
    (acts more : List Act) :
    received g (s.run (acts ++ .unsubscribe h :: more)) = received g (s.run (acts ++ more)) := by
  have hmiddle := hs.afterAll acts
  set m := s.afterAll acts with hm
  have hended : m.run (.unsubscribe h :: more) =
      m.act (.unsubscribe h) :: run { m with subscribers := (m.unsubscribe h).subscribers } more := rfl
  have hmem : g ∈ (m.unsubscribe h).subscribers ↔ g ∈ m.subscribers := by
    show g ∈ m.subscribers.filter (fun k => k != h) ↔ _
    rw [List.mem_filter, and_iff_left (bne_iff_ne.2 hne)]
  have hsound : Sound { m with subscribers := (m.unsubscribe h).subscribers } :=
    hmiddle.act (.unsubscribe h)
  have hfirst : received g [m.act (.unsubscribe h)] = [] := rfl
  rw [run_append, run_append, received_append, received_append, ← hm, hended, received_cons, hfirst,
    List.nil_append, hmiddle.received_withSubscribers hsound hmem]

/-! ### What the record of a run says -/

/-- **What the subscribers of a store are told.**  In every run on a store that starts without
subscribers, handles are given out in order from 0 on, so none is given out again.  Whoever is given
one has been told nothing before, and from then on is told of each replacement until an act ends the
subscription: once, in order, of the snapshot that becomes current, also if it was current already,
and of whose doing it is.  A replacement is told to those who listen, in the order in which they
subscribed, and an act that makes none changes no snapshot and is told to nobody.  Asking to end a
subscription is answered with whether there is one.  Doing so makes no difference to what others are
told.

The handle of a subscription is the number of those before it, so a word of 64 bits holds it as long
as there are fewer than `2 ^ 64`. -/
theorem run_notices (components : List Placed) (acts : List Act) :
    let start := ofComponents components
    let record := start.run acts
    record.filterMap Entry.given? = List.range (record.filterMap Entry.given?).length ∧
    (∀ before e after h, record = before ++ e :: after → e.given? = some h →
      received h (before ++ [e]) = [] ∧
      received h after = (after.takeWhile fun e' => !e'.ends h).filterMap Entry.replacement?) ∧
    (∀ before e after, record = before ++ e :: after →
      (∀ next origin, e.replacement? = some (next, origin) → e.after.current = next ∧
        ∃ handles : List Nat, handles.Pairwise (· < ·) ∧ (∀ h, h ∈ handles ↔ Listens before h) ∧
          e.notices = handles.map fun h => ⟨h, next, origin⟩) ∧
      (e.replacement? = none → e.after.current = e.before.current ∧ e.notices = [])) ∧
    (∀ before e after h, record = before ++ e :: after → e.act = .unsubscribe h →
      ∃ found, e.answer = .ended found ∧ (found = true ↔ Listens before h)) ∧
    ∀ g h, g ≠ h → ∀ more,
      received g (start.run (acts ++ .unsubscribe h :: more)) =
        received g (start.run (acts ++ more)) := by
  intro start record
  have hs : start.Sound := sound_ofComponents components
  have hnone : start.subscribers = [] := rfl
  refine ⟨?_, fun before e after h heq hgiven => ?_, fun before e after heq => ?_,
    fun before e after h heq hact => ?_, fun g h hne more => hs.received_unsubscribe hne acts more⟩
  · rw [List.range_eq_range']
    exact start.given_run acts
  · obtain ⟨acts₁, a, acts₂, rfl, rfl, rfl⟩ := exists_of_run_eq_append heq
    have hsound := hs.afterAll acts₁
    have hnext := eq_of_given hgiven
    have hnot : h ∉ (start.afterAll acts₁).subscribers := fun hh => by
      have := hsound.lt h hh
      omega
    refine ⟨?_, (hsound.act a).received_run (mem_subscribers_act_iff.2 (Or.inl hgiven)) acts₂⟩
    rw [received_append, hs.received_run_of_le (Nat.le_of_eq hnext.symm), hsound.received_act,
      if_neg hnot]
    rfl
  · obtain ⟨acts₁, a, acts₂, rfl, rfl, -⟩ := exists_of_run_eq_append heq
    obtain ⟨hnotices, hcurrent⟩ := (start.afterAll acts₁).act_spec a
    rw [replacement?_act, before_act, hnotices, hcurrent]
    refine ⟨fun next origin hr => ?_, fun hr => ?_⟩
    · rw [hr]
      exact ⟨rfl, _, (hs.afterAll acts₁).pairwise,
        fun h => mem_subscribers_afterAll_iff hnone acts₁, rfl⟩
    · rw [hr]
      exact ⟨rfl, rfl⟩
  · obtain ⟨acts₁, a, acts₂, rfl, rfl, -⟩ := exists_of_run_eq_append heq
    rw [act_act] at hact
    subst hact
    refine ⟨_, rfl, ?_⟩
    rw [← mem_subscribers_afterAll_iff hnone acts₁, release_found, isSubscribed,
      List.contains_iff_mem]

end Store
end ContractBlocks
