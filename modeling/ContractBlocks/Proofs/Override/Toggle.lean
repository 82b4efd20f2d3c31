/-
# Toggling overrides

An override is switched on and off by toggles, each made for the block as the toggles before it left
it.  What they leave in the end can be told from the toggles alone (`Toggle.Leaves`): the overrides
that were there and that no toggle has switched off, and behind them a fresh one for each function
that the last toggle switches on, as far as it was not there all the time.  The fresh ones stand in
the order in which they came to stay: by the first toggle that switches the override on after the
last one that switches it off (`Toggle.onset`).

One more toggle keeps this (`Toggle.Leaves.concat`): to switch off takes one function out of both
parts, and to switch on what is not there puts it last, where its onset is the latest of all.
`Block.toggledAll_exact` is the result for whole blocks.
-/

import Mathlib.Data.List.DropRight
import ContractBlocks.Override.Basic

namespace ContractBlocks

/-- A step that enables or disables the override of a function. -/
structure Toggle where
  functionId : BlockId
  enabled : Bool
deriving DecidableEq, Repr

/-! ### Toggles one after the other -/

namespace Toggle

/-- The last toggle of a function. -/
def lastOf? (ts : List Toggle) (id : BlockId) : Option Toggle :=
  (ts.filter fun t => t.functionId = id).getLast?

/-- The toggles behind the last one that disables the override of a function, or all if none
does. -/
def sinceOff (ts : List Toggle) (id : BlockId) : List Toggle :=
  ts.rtakeWhile fun t => t ≠ ⟨id, false⟩

/-- The place of the first toggle that enables the override of a function behind the last one that
disables it, or of the first one that enables it if none disables it. -/
def onset (ts : List Toggle) (id : BlockId) : Nat :=
  ts.length - (sinceOff ts id).length + (sinceOff ts id).idxOf ⟨id, true⟩

variable {ts : List Toggle} {t : Toggle} {id : BlockId}

theorem lastOf?_concat (ts : List Toggle) (t : Toggle) (id : BlockId) :
    lastOf? (ts ++ [t]) id = if t.functionId = id then some t else lastOf? ts id := by
  by_cases h : t.functionId = id <;> simp [lastOf?, h]

theorem sinceOff_concat_off (ts : List Toggle) (id : BlockId) :
    sinceOff (ts ++ [⟨id, false⟩]) id = [] :=
  List.rtakeWhile_concat_neg _ _ _ (by simp)

theorem sinceOff_concat (h : t ≠ ⟨id, false⟩) : sinceOff (ts ++ [t]) id = sinceOff ts id ++ [t] :=
  List.rtakeWhile_concat_pos _ _ _ (by simpa using h)

theorem length_sinceOff_le (ts : List Toggle) (id : BlockId) :
    (sinceOff ts id).length ≤ ts.length :=
  (List.rtakeWhile_suffix _ _).length_le

/-- **The last toggle of a function enables its override** exactly if some toggle does behind the
last one that disables it. -/
theorem lastOf?_eq_on_iff : lastOf? ts id = some ⟨id, true⟩ ↔ ⟨id, true⟩ ∈ sinceOff ts id := by
  induction ts using List.reverseRecOn with
  | nil => simp [lastOf?, sinceOff]
  | append_singleton ts t ih =>
    rw [lastOf?_concat]
    obtain ⟨x, enabled⟩ := t
    by_cases hx : x = id
    · subst hx
      cases enabled with
      | false => simp [sinceOff_concat_off]
      | true => simp [sinceOff_concat]
    · have hoff : (⟨x, enabled⟩ : Toggle) ≠ ⟨id, false⟩ := fun h => hx (congrArg functionId h)
      have hon : (⟨id, true⟩ : Toggle) ≠ ⟨x, enabled⟩ := fun h => hx (congrArg functionId h).symm
      rw [if_neg hx, ih, sinceOff_concat hoff, List.mem_append, List.mem_singleton, or_iff_left hon]

theorem onset_lt (h : ⟨id, true⟩ ∈ sinceOff ts id) : onset ts id < ts.length := by
  have hle := length_sinceOff_le ts id
  have hlt := List.idxOf_lt_length_of_mem h
  unfold onset
  omega

/-- An override that has been enabled keeps its onset until it is disabled. -/
theorem onset_concat (h : ⟨id, true⟩ ∈ sinceOff ts id) (ht : t ≠ ⟨id, false⟩) :
    onset (ts ++ [t]) id = onset ts id := by
  have hle := length_sinceOff_le ts id
  unfold onset
  rw [sinceOff_concat ht, List.idxOf_append_of_mem h, List.length_append, List.length_append,
    List.length_singleton]
  omega

/-- An override that was not enabled is so from now on. -/
theorem onset_concat_on (h : ⟨id, true⟩ ∉ sinceOff ts id) :
    onset (ts ++ [⟨id, true⟩]) id = ts.length := by
  have hle := length_sinceOff_le ts id
  unfold onset
  rw [sinceOff_concat (by simp), List.idxOf_append_of_notMem h, List.idxOf_cons_self,
    List.length_append, List.length_append, List.length_singleton]
  omega

/-! ### What toggles leave of a list of overrides -/

/-- The overrides with one of them enabled or disabled. -/
def applied (t : Toggle) (os : List StoredOverride) : List StoredOverride :=
  if t.enabled then
    if os.any fun o => o.functionId == t.functionId then os else os ++ [.fresh t.functionId]
  else os.filter fun o => o.functionId != t.functionId

/-- What toggles leave of the overrides `before`: those that none of them has disabled, and then a
fresh one for each of the functions `added`. -/
structure Leaves (before : List StoredOverride) (ts : List Toggle) (added : List BlockId)
    (after : List StoredOverride) : Prop where
  eq : after = (before.filter fun o => ⟨o.functionId, false⟩ ∉ ts) ++ added.map .fresh
  /-- The last toggle enables it, and it was not there all the time. -/
  mem_iff : ∀ id, id ∈ added ↔ lastOf? ts id = some ⟨id, true⟩ ∧
    (id ∉ before.map StoredOverride.functionId ∨ ⟨id, false⟩ ∈ ts)
  order : added.Pairwise fun x y => onset ts x < onset ts y

variable {before os : List StoredOverride} {added : List BlockId}

theorem leaves_nil (os : List StoredOverride) : Leaves os [] [] os where
  eq := by simp
  mem_iff id := by simp [lastOf?]
  order := .nil

namespace Leaves

/-- The functions with an override are those with one that has stayed and those that were added. -/
theorem mem_ids_iff (h : Leaves before ts added os) (id : BlockId) :
    id ∈ os.map StoredOverride.functionId ↔
      (id ∈ before.map StoredOverride.functionId ∧ ⟨id, false⟩ ∉ ts) ∨ id ∈ added := by
  have hfresh : (added.map StoredOverride.fresh).map StoredOverride.functionId = added := by
    rw [List.map_map]
    exact List.map_id added
  rw [h.eq, List.map_append, List.mem_append, hfresh]
  refine or_congr_left ?_
  simp only [List.mem_map, List.mem_filter, decide_eq_true_eq]
  constructor
  · rintro ⟨o, ⟨ho, hstays⟩, rfl⟩
    exact ⟨⟨o, ho, rfl⟩, hstays⟩
  · rintro ⟨⟨o, ho, rfl⟩, hstays⟩
    exact ⟨o, ⟨ho, hstays⟩, rfl⟩

/-- An added function is enabled behind the last toggle that disables it. -/
theorem mem_sinceOff (h : Leaves before ts added os) (hid : id ∈ added) :
    ⟨id, true⟩ ∈ sinceOff ts id :=
  lastOf?_eq_on_iff.1 ((h.mem_iff id).1 hid).1

/-- **To disable an override** takes it out of those that have stayed and of those that were
added. -/
theorem off (h : Leaves before ts added os) (x : BlockId) :
    Leaves before (ts ++ [⟨x, false⟩]) (added.filter fun id => id != x)
      (applied ⟨x, false⟩ os) where
  eq := by
    rw [applied, if_neg Bool.false_ne_true, h.eq, List.filter_append, List.filter_filter,
      List.filter_map]
    congr 1
    refine List.filter_congr fun o _ => ?_
    by_cases ho : o.functionId = x <;> simp [ho]
  mem_iff id := by
    rw [List.mem_filter, h.mem_iff, lastOf?_concat]
    by_cases hid : x = id
    · simp [hid]
    · simp [hid, Ne.symm hid]
  order := by
    have hkeeps : ∀ y ∈ added.filter fun id => id != x,
        onset (ts ++ [⟨x, false⟩]) y = onset ts y := fun y hy => by
      obtain ⟨hy, hne⟩ := List.mem_filter.1 hy
      refine onset_concat (h.mem_sinceOff hy) fun heq => ?_
      exact bne_iff_ne.1 hne (congrArg functionId heq).symm
    refine (h.order.filter _).imp_of_mem fun hy hz hlt => ?_
    rwa [hkeeps _ hy, hkeeps _ hz]

/-- To enable an override leaves the onsets of those that were added. -/
theorem onset_concat_of_mem (h : Leaves before ts added os) (x : BlockId) {y : BlockId}
    (hy : y ∈ added) : onset (ts ++ [⟨x, true⟩]) y = onset ts y :=
  onset_concat (h.mem_sinceOff hy) (by simp)

/-- **To enable an override that is there** changes nothing. -/
theorem on_of_mem (h : Leaves before ts added os) {x : BlockId}
    (hx : x ∈ os.map StoredOverride.functionId) :
    Leaves before (ts ++ [⟨x, true⟩]) added (applied ⟨x, true⟩ os) where
  eq := by
    have hany : (os.any fun o => o.functionId == x) = true := by simpa using hx
    rw [applied, if_pos rfl, if_pos hany, h.eq]
    simp
  mem_iff id := by
    rw [lastOf?_concat]
    by_cases hid : x = id
    · subst hid
      simp only [if_true, List.mem_append, List.mem_singleton, mk.injEq, Bool.false_eq_true,
        and_false, or_false, true_and]
      refine ⟨fun hin => ((h.mem_iff x).1 hin).2, fun hnew => ?_⟩
      rcases (h.mem_ids_iff x).1 hx with ⟨hold, hstays⟩ | hin
      · exact absurd hnew (not_or.2 ⟨not_not.2 hold, hstays⟩)
      · exact hin
    · rw [if_neg hid, h.mem_iff]
      simp
  order := by
    refine h.order.imp_of_mem fun hy hz hlt => ?_
    rwa [h.onset_concat_of_mem x hy, h.onset_concat_of_mem x hz]

/-- **To enable an override that is not there** puts a fresh one last. -/
theorem on_of_notMem (h : Leaves before ts added os) {x : BlockId}
    (hx : x ∉ os.map StoredOverride.functionId) :
    Leaves before (ts ++ [⟨x, true⟩]) (added ++ [x]) (applied ⟨x, true⟩ os) := by
  obtain ⟨hgone, hin⟩ := not_or.1 fun hor => hx ((h.mem_ids_iff x).2 hor)
  have hnew : x ∉ before.map StoredOverride.functionId ∨ ⟨x, false⟩ ∈ ts :=
    or_iff_not_imp_left.2 fun hold => by_contra fun hstays => hgone ⟨not_not.1 hold, hstays⟩
  have hoff : ⟨x, true⟩ ∉ sinceOff ts x := fun hon =>
    hin ((h.mem_iff x).2 ⟨lastOf?_eq_on_iff.2 hon, hnew⟩)
  constructor
  case eq =>
    have hany : ¬(os.any fun o => o.functionId == x) = true := by simpa using hx
    rw [applied, if_pos rfl, if_neg hany, h.eq]
    simp
  case mem_iff =>
    intro id
    rw [lastOf?_concat, List.mem_append, h.mem_iff]
    by_cases hid : x = id
    · subst hid
      simpa using hnew
    · simp [hid, Ne.symm hid]
  case order =>
    rw [List.pairwise_append]
    refine ⟨h.order.imp_of_mem fun hy hz hlt => ?_, List.pairwise_singleton _ x,
      fun y hy z hz => ?_⟩
    · rwa [h.onset_concat_of_mem x hy, h.onset_concat_of_mem x hz]
    · -- The onset of `x` is the toggle itself, which stands behind all that were there before.
      rw [List.mem_singleton.1 hz, onset_concat_on hoff, h.onset_concat_of_mem x hy]
      exact onset_lt (h.mem_sinceOff hy)

/-- **One more toggle.** -/
theorem concat (h : Leaves before ts added os) (t : Toggle) :
    ∃ added', Leaves before (ts ++ [t]) added' (t.applied os) := by
  obtain ⟨x, enabled⟩ := t
  cases enabled with
  | false => exact ⟨_, h.off x⟩
  | true =>
    by_cases hx : x ∈ os.map StoredOverride.functionId
    · exact ⟨added, h.on_of_mem hx⟩
    · exact ⟨added ++ [x], h.on_of_notMem hx⟩

end Leaves

/-- **All toggles.** -/
theorem exists_leaves (os : List StoredOverride) (ts : List Toggle) :
    ∃ added, Leaves os ts added (ts.foldl (fun os t => t.applied os) os) := by
  -- From the end: the last toggle is made for what the others leave.
  induction ts using List.reverseRecOn with
  | nil => exact ⟨[], leaves_nil os⟩
  | append_singleton ts t ih =>
    obtain ⟨added, h⟩ := ih
    rw [List.foldl_append]
    exact h.concat t

end Toggle

/-! ### Blocks -/

namespace Block

/-- The block after one toggle, made for it as it is. -/
def toggled (b : Block) (t : Toggle) : Block := b.patch (b.toggle t.functionId t.enabled)

/-- The block after toggles, one after the other. -/
def toggledAll (b : Block) (ts : List Toggle) : Block := ts.foldl toggled b

theorem toggled_of_function {b : Block} {f : FunctionBlock} (h : b.kind = .function f) (t : Toggle) :
    b.toggled t = { b with kind := .function { f with overrides := t.applied f.overrides } } := by
  obtain ⟨id, name, description, category, defaults, kind⟩ := b
  cases h
  rfl

theorem toggledAll_of_function {b : Block} {f : FunctionBlock} (h : b.kind = .function f)
    (ts : List Toggle) :
    b.toggledAll ts = { b with
      kind := .function { f with overrides := ts.foldl (fun os t => t.applied os) f.overrides } } := by
  induction ts using List.reverseRecOn with
  | nil =>
    obtain ⟨id, name, description, category, defaults, kind⟩ := b
    cases h
    rfl
  | append_singleton ts t ih =>
    unfold toggledAll at ih ⊢
    rw [List.foldl_append, List.foldl_cons, List.foldl_nil, ih, toggled_of_function rfl,
      List.foldl_append]
    rfl

/-- A patch of overrides changes no block that is not a function. -/
theorem toggled_of_function?_eq_none {b : Block} (h : b.function? = none) (t : Toggle) :
    b.toggled t = b := by
  obtain ⟨id, name, description, category, defaults, kind⟩ := b
  cases kind <;> first | rfl | cases h

theorem toggledAll_of_function?_eq_none {b : Block} (h : b.function? = none) (ts : List Toggle) :
    b.toggledAll ts = b := by
  unfold toggledAll
  induction ts with
  | nil => rfl
  | cons t ts ih => rw [List.foldl_cons, toggled_of_function?_eq_none h, ih]

/-- To enable an override that is not there and to disable it again takes everything back. -/
theorem toggledAll_on_off {b : Block} {id : BlockId}
    (h : id ∉ b.overrides.map StoredOverride.functionId) :
    b.toggledAll [⟨id, true⟩, ⟨id, false⟩] = b := by
  cases hk : b.kind with
  | function f =>
    rw [overrides, hk] at h
    obtain ⟨added, hl⟩ := Toggle.exists_leaves f.overrides [⟨id, true⟩, ⟨id, false⟩]
    -- Nothing is added, as the last toggle of `id` disables it and no other function has one.
    have hadded : added = [] := List.eq_nil_iff_forall_not_mem.2 fun x hx => by
      have hlast := ((hl.mem_iff x).1 hx).1
      by_cases hid : id = x <;> simp [Toggle.lastOf?, hid] at hlast
    have hstay : f.overrides.filter (fun o =>
        ⟨o.functionId, false⟩ ∉ [(⟨id, true⟩ : Toggle), ⟨id, false⟩]) = f.overrides :=
      List.filter_eq_self.2 fun o ho => by
        have hne : o.functionId ≠ id := fun heq => h (heq ▸ List.mem_map_of_mem ho)
        simp [hne]
    rw [toggledAll_of_function hk, hl.eq, hadded, hstay, List.map_nil, List.append_nil]
    show { b with kind := .function f } = b
    rw [← hk]
  | _ => exact toggledAll_of_function?_eq_none (by rw [function?, hk]) _

/-- **What toggles leave of a block.**  A function keeps all but its overrides, and these are what
`Toggle.Leaves` says: those that no toggle has disabled, as they were and in their order, and then a
fresh one for each function that the last toggle enables and that was not there all the time, in the
order of their onsets.  A block that is no function never changes, and to enable an override that is
not there and to disable it again takes everything back. -/
theorem toggledAll_exact (b : Block) (ts : List Toggle) :
    (∀ f, b.kind = .function f → ∃ added after, Toggle.Leaves f.overrides ts added after ∧
      b.toggledAll ts = { b with kind := .function { f with overrides := after } }) ∧
    (b.function? = none → b.toggledAll ts = b) ∧
    ∀ id, id ∉ b.overrides.map StoredOverride.functionId →
      b.toggledAll [⟨id, true⟩, ⟨id, false⟩] = b := by
  refine ⟨fun f hf => ?_, fun h => toggledAll_of_function?_eq_none h ts,
    fun id hid => toggledAll_on_off hid⟩
  obtain ⟨added, hl⟩ := Toggle.exists_leaves f.overrides ts
  exact ⟨added, _, hl, toggledAll_of_function hf ts⟩

namespace Switchboard

/-- Overrides of three functions, two of them of the same one. -/
def stored : List StoredOverride :=
  [⟨"mint", "paused = false;", false, true⟩, .fresh "burn", ⟨"mint", "", true, false⟩]

def function : FunctionBlock := ⟨.pub, .nonpayable, [], [], [], true, "", stored⟩

def board : Block := ⟨"f", "switch", "", .basic, [], .function function⟩

def signal : Block := ⟨"e", "Switched", "", .basic, [], .event []⟩

/-- Two functions are switched off and on again, one is enabled twice, and one was there and
stays. -/
def toggles : List Toggle :=
  [⟨"pause", true⟩, ⟨"burn", false⟩, ⟨"mint", true⟩, ⟨"burn", true⟩, ⟨"close", true⟩,
    ⟨"pause", false⟩, ⟨"pause", true⟩, ⟨"burn", true⟩]

end Switchboard

open Switchboard in
theorem toggledAll_exact_switchboard :
    board.kind = .function function ∧ signal.function? = none ∧
      "pause" ∉ board.overrides.map StoredOverride.functionId ∧
      (∃ added, Toggle.Leaves stored toggles added (board.toggledAll toggles).overrides) ∧
      (board.toggledAll toggles).overrides =
        [⟨"mint", "paused = false;", false, true⟩, ⟨"mint", "", true, false⟩, .fresh "burn",
          .fresh "close", .fresh "pause"] ∧
      signal.toggledAll toggles = signal ∧
      board.toggledAll [⟨"pause", true⟩, ⟨"pause", false⟩] = board := by
  have habsent : "pause" ∉ board.overrides.map StoredOverride.functionId := by decide
  obtain ⟨hfunction, -, hback⟩ := toggledAll_exact board toggles
  obtain ⟨added, after, hleaves, hboard⟩ := hfunction function rfl
  have hafter : (board.toggledAll toggles).overrides = after := by rw [hboard]; rfl
  exact ⟨rfl, rfl, habsent, ⟨added, hafter ▸ hleaves⟩, by decide,
    (toggledAll_exact signal toggles).2.1 rfl, hback "pause" habsent⟩

end Block
end ContractBlocks
