/-
# The contracts of a project

A project is edited in place, statement by statement, and an edit may be refused on the way
(`RegistryEdit.carryOut`).  The checks come first: what is refused has changed nothing, so carrying
out an edit is applying it (`RegistryEdit.carryOut_eq`).

A project has three pieces of state: the contracts in order, the identity of the current one, and
the lookup by identity.  Every edit keeps them together (`Project.Sound`).  Where they are together,
an edit does the same to every registered contract by itself, and perhaps puts one more behind them
(`Project.contracts_perform`).  From that a run can be told contract by contract: what stands in the
project are the contracts that were added and not removed since, in the order in which they were
added, each with what has been changed about it (`Project.contracts_run`).

`Project.run_registry` puts this together for all runs that start at an empty project.
-/

import ContractBlocks.Proofs.Inheritance.Linearization

namespace ContractBlocks

/-! ### Edits in place -/

/-- An edit of the contracts of a project. -/
inductive RegistryEdit where
  /-- Registers a contract. -/
  | add (c : Contract)
  /-- Takes a contract out of the project. -/
  | remove (id : ContractId)
  /-- Makes a contract current. -/
  | setCurrent (id : ContractId)
  /-- Gives a contract one more parent. -/
  | inherit (id parent : ContractId)
  /-- Puts one more block into a contract. -/
  | place (id : ContractId) (block : Placed)
deriving DecidableEq, Repr

/-- Work on a project in place, which may be refused; what has been done by then stays. -/
abbrev RegistryWork := EStateM EditError Project

namespace RegistryWork

/-- Registers a contract. -/
def add (c : Contract) : RegistryWork Unit := do
  if ((← get).contract? c.id).isSome then throw (.duplicateContract c.id)
  if (← get).currentId.isNone then modify fun p => { p with currentId := some c.id }
  modify fun p => { p with contracts := p.contracts ++ [c] }

/-- Takes a contract out of the project and returns it without its blocks. -/
def remove (id : ContractId) : RegistryWork Contract := do
  let index := (← get).contracts.findIdx fun c => c.id == id
  match (← get).contracts[index]? with
  | none => throw (.missingContract id)
  | some c =>
    modify fun p => { p with contracts := p.contracts.eraseIdx index }
    if (← get).currentId = some id then
      modify fun p => { p with currentId := p.contracts.head?.map Contract.id }
    return { c with components := [] }

/-- Makes a contract current. -/
def setCurrent (id : ContractId) : RegistryWork Unit := do
  if ((← get).contract? id).isNone then throw (.missingContract id)
  modify fun p => { p with currentId := some id }

end RegistryWork

namespace RegistryEdit

/-- Carries out an edit in place. A contract that is not registered cannot be changed. -/
def carryOut : RegistryEdit → RegistryWork Unit
  | .add c => .add c
  | .remove id => do
    let _ ← RegistryWork.remove id
    return
  | .setCurrent id => .setCurrent id
  | .inherit id parent => modify fun p => p.modify id fun c => c.inherit parent
  | .place id block => modify fun p => p.modify id fun c => c.place block

/-- What an edit makes of a project, unless it is refused. -/
def apply (p : Project) : RegistryEdit → Except EditError Project
  | .add c => p.add c
  | .remove id => (p.remove id).map Prod.fst
  | .setCurrent id => p.setCurrent id
  | .inherit id parent => .ok (p.modify id fun c => c.inherit parent)
  | .place id block => .ok (p.modify id fun c => c.place block)

end RegistryEdit

namespace RegistryWork

theorem run_add (p : Project) (c : Contract) :
    (add c).run p = match p.add c with
      | .ok q => .ok () q
      | .error e => .error e p := by
  unfold add Project.add
  by_cases h : (p.contract? c.id).isSome
  · rw [if_pos h]
    simp [h]
  · rw [if_neg h]
    cases hc : p.currentId <;> simp [h, hc]

theorem run_remove (p : Project) (id : ContractId) :
    (remove id).run p = match p.remove id with
      | .ok (q, c) => .ok c q
      | .error e => .error e p := by
  have hfind : p.contracts[p.contracts.findIdx fun c => c.id == id]? = p.contract? id :=
    List.find?_eq_getElem?_findIdx.symm
  have herase : p.contracts.eraseIdx (p.contracts.findIdx fun c => c.id == id) =
      p.contracts.eraseP fun c => c.id == id := by
    rw [List.eraseP_eq_eraseIdx, List.findIdx_eq_getD_findIdx?]
    cases p.contracts.findIdx? fun c => c.id == id with
    | none => exact List.eraseIdx_of_length_le (Nat.le_refl _)
    | some i => rfl
  unfold remove Project.remove
  cases hc : p.contract? id with
  | none =>
    simp only [EStateM.run_bind, EStateM.run_get, hfind, hc]
    rfl
  | some c =>
    simp only [EStateM.run_bind, EStateM.run_get, hfind, hc, herase, EStateM.run_modify]
    by_cases hcurrent : p.currentId = some id
    · simp only [if_pos hcurrent]
      rfl
    · simp only [if_neg hcurrent]
      rfl

theorem run_setCurrent (p : Project) (id : ContractId) :
    (setCurrent id).run p = match p.setCurrent id with
      | .ok q => .ok () q
      | .error e => .error e p := by
  unfold setCurrent Project.setCurrent
  cases h : p.contract? id <;> simp [h]

end RegistryWork

/-- **Carrying out an edit is applying it:** one that is refused leaves the project as it was. -/
theorem RegistryEdit.carryOut_eq (e : RegistryEdit) (p : Project) :
    e.carryOut.run p = match e.apply p with
      | .ok q => .ok () q
      | .error error => .error error p := by
  cases e with
  | add c => exact RegistryWork.run_add p c
  | remove id =>
    rw [carryOut, EStateM.run_bind, RegistryWork.run_remove, apply]
    cases p.remove id <;> rfl
  | setCurrent id => exact RegistryWork.run_setCurrent p id
  | inherit id parent | place id block => rfl

/-! ### One contract by itself -/

namespace RegistryEdit

/-- What an edit changes about a registered contract that stays. -/
def change (c : Contract) : RegistryEdit → Contract
  | .inherit id parent => if c.id = id then c.inherit parent else c
  | .place id block => if c.id = id then c.place block else c
  | .add _ | .remove _ | .setCurrent _ => c

/-- The contract that an edit registers in a project, if it registers one. -/
def added? (p : Project) : RegistryEdit → Option Contract
  | .add c => if p.contract? c.id = none then some c else none
  | .remove _ | .setCurrent _ | .inherit _ _ | .place _ _ => none

theorem id_change (e : RegistryEdit) (c : Contract) : (e.change c).id = c.id := by
  cases e with
  | inherit id parent =>
    rw [change, Contract.inherit]
    split <;> [split; skip] <;> rfl
  | place id block =>
    rw [change]
    split <;> rfl
  | add _ | remove _ | setCurrent _ => rfl

end RegistryEdit

namespace Contract

/-- The contract with what the edits change about it, one after the other. -/
def changed (c : Contract) (edits : List RegistryEdit) : Contract :=
  edits.foldl RegistryEdit.change c

/-- What the edits leave of a registered contract: nothing if one of them removes it. -/
def remains? (c : Contract) (edits : List RegistryEdit) : Option Contract :=
  if .remove c.id ∈ edits then none else some (c.changed edits)

theorem id_changed (c : Contract) (edits : List RegistryEdit) : (c.changed edits).id = c.id := by
  induction edits generalizing c with
  | nil => rfl
  | cons e edits ih => exact (ih (e.change c)).trans (e.id_change c)

theorem id_of_remains? {c d : Contract} {edits : List RegistryEdit}
    (h : c.remains? edits = some d) : d.id = c.id := by
  unfold remains? at h
  split at h
  · cases h
  · rw [← Option.some.inj h, id_changed]

theorem remains?_nil (c : Contract) : c.remains? [] = some c := rfl

/-- What is left after one edit and then the others. -/
theorem remains?_cons (c : Contract) (e : RegistryEdit) (edits : List RegistryEdit) :
    c.remains? (e :: edits) = (c.remains? [e]).bind fun d => d.remains? edits := by
  by_cases he : .remove c.id = e
  · rw [remains?, remains?, if_pos (by simp [he]), if_pos (by simp [he])]
    rfl
  · have hone : c.remains? [e] = some (e.change c) := if_neg (by simpa using he)
    rw [hone, Option.bind_some, remains?, remains?, e.id_change]
    simp only [List.mem_cons, he, false_or]
    rfl

/-- What an edit leaves of contracts, if it removes none. -/
theorem filterMap_remains? (cs : List Contract) {e : RegistryEdit} (he : ∀ id, e ≠ .remove id) :
    cs.filterMap (fun c => c.remains? [e]) = cs.map fun c => e.change c := by
  have hone : ∀ c : Contract, c.remains? [e] = some (e.change c) := fun c =>
    if_neg fun h => he c.id (List.mem_singleton.1 h).symm
  rw [funext hone]
  exact congrFun List.filterMap_eq_map cs

/-- What edits leave of contracts keeps the identities and their order. -/
theorem ids_filterMap_sublist (cs : List Contract) (edits : List RegistryEdit) :
    ((cs.filterMap fun c => c.remains? edits).map Contract.id).Sublist (cs.map Contract.id) := by
  induction cs with
  | nil => exact .slnil
  | cons c cs ih =>
    cases hc : c.remains? edits with
    | none =>
      simp only [List.filterMap_cons, hc, List.map_cons]
      exact ih.cons _
    | some d =>
      simp only [List.filterMap_cons, hc, List.map_cons, id_of_remains? hc]
      exact ih.cons_cons _

/-- What a removal leaves of contracts. -/
theorem filterMap_remains?_remove (cs : List Contract) (id : ContractId) :
    cs.filterMap (fun c => c.remains? [.remove id]) = cs.filter fun c => c.id != id := by
  rw [← List.filterMap_eq_filter]
  refine List.filterMap_congr fun c _ => ?_
  by_cases hc : c.id = id
  · rw [remains?, if_pos (by simp [hc]), Option.guard, if_neg (by simp [hc])]
  · rw [remains?, if_neg (by simpa using hc), Option.guard, if_pos (by simpa using hc)]
    rfl

/-- What is left after some edits and then the others. -/
theorem remains?_append (c : Contract) (edits later : List RegistryEdit) :
    c.remains? (edits ++ later) = (c.remains? edits).bind fun d => d.remains? later := by
  induction edits generalizing c with
  | nil => rfl
  | cons e edits ih =>
    rw [List.cons_append, remains?_cons, remains?_cons c e edits, Option.bind_assoc]
    exact congrArg _ (funext fun d => ih d)

end Contract

/-! ### The three pieces of state -/

namespace Project

/-- What an edit makes of a project; if it is refused, what it has left. -/
def perform (p : Project) (e : RegistryEdit) : Project :=
  match e.carryOut.run p with
  | .ok _ q | .error _ q => q

/-- A project after edits, one after the other. -/
def run (p : Project) (edits : List RegistryEdit) : Project := edits.foldl perform p

/-- **The pieces fit together.**  Identities are distinct, and what is current is a registered
contract; there is none only where none is registered. -/
structure Sound (p : Project) : Prop where
  distinct : p.ids.Nodup
  registered : ∀ id, p.currentId = some id → id ∈ p.ids
  chosen : p.currentId = none → p.contracts = []

theorem sound_empty (id name : String) : (empty id name).Sound where
  distinct := List.nodup_nil
  registered := by rintro _ ⟨⟩
  chosen _ := rfl

variable {p : Project}

theorem perform_eq (p : Project) (e : RegistryEdit) :
    p.perform e = match e.apply p with
      | .ok q => q
      | .error _ => p := by
  rw [perform, e.carryOut_eq]
  cases e.apply p <;> rfl

/-- A contract is registered behind the others if its identity is new. -/
theorem add_eq_ok {c : Contract} {q : Project} (h : p.add c = .ok q) :
    c.id ∉ p.ids ∧ q = { p with
      contracts := p.contracts ++ [c]
      currentId := some (p.currentId.getD c.id) } := by
  unfold add at h
  split at h
  · cases h
  · next hc =>
    rw [Option.not_isSome_iff_eq_none, contract?_eq_none_iff] at hc
    exact ⟨hc, (Except.ok.inj h).symm⟩

/-- A contract that is registered is taken out; if it was current, the first one left becomes so. -/
theorem remove_eq_ok {id : ContractId} {q : Project} {d : Contract} (h : p.remove id = .ok (q, d)) :
    ∃ c, p.contract? id = some c ∧ d = { c with components := [] } ∧ q = { p with
      contracts := p.contracts.eraseP fun c => c.id == id
      currentId := if p.currentId = some id
        then (p.contracts.eraseP fun c => c.id == id).head?.map Contract.id else p.currentId } := by
  unfold remove at h
  split at h
  · cases h
  · next c hc =>
    obtain ⟨rfl, rfl⟩ := Prod.mk.inj (Except.ok.inj h)
    exact ⟨c, hc, rfl, rfl⟩

theorem exists_remove_of_apply {id : ContractId} {q : Project}
    (h : RegistryEdit.apply p (.remove id) = .ok q) : ∃ d, p.remove id = .ok (q, d) := by
  rw [RegistryEdit.apply] at h
  cases hr : p.remove id with
  | error error => rw [hr] at h; cases h
  | ok x =>
    rw [hr] at h
    exact ⟨x.2, congrArg _ (Prod.ext (Except.ok.inj h) rfl)⟩

/-- A contract that is registered becomes current. -/
theorem setCurrent_eq_ok {id : ContractId} {q : Project} (h : p.setCurrent id = .ok q) :
    id ∈ p.ids ∧ q = { p with currentId := some id } := by
  unfold setCurrent at h
  split at h
  · next hc =>
    exact ⟨exists_contract?_iff.1 (Option.isSome_iff_exists.1 hc), (Except.ok.inj h).symm⟩
  · cases h

/-- Where identities are distinct, an identity that stands first stands nowhere else. -/
theorem id_ne_of_nodup_cons {c : Contract} {cs : List Contract} {id : ContractId} (hc : c.id = id)
    (hcs : ((c :: cs).map Contract.id).Nodup) : ∀ d ∈ cs, d.id ≠ id := by
  intro d hd hid
  rw [List.map_cons, List.nodup_cons] at hcs
  exact hcs.1 (List.mem_map.2 ⟨d, hd, hid.trans hc.symm⟩)

/-- Where identities are distinct, changing the first contract of an identity is changing all. -/
theorem contracts_modify (hp : p.ids.Nodup) (id : ContractId) (f : Contract → Contract) :
    (p.modify id f).contracts = p.contracts.map fun c => if c.id = id then f c else c := by
  have hlist : ∀ cs : List Contract, (cs.map Contract.id).Nodup →
      cs.modify (cs.findIdx fun c => c.id == id) f =
        cs.map fun c => if c.id = id then f c else c := by
    intro cs hcs
    induction cs with
    | nil => rfl
    | cons c cs ih =>
      by_cases hc : c.id = id
      · have hrest : cs.map (fun d => if d.id = id then f d else d) = cs :=
          (List.map_congr_left fun d hd => if_neg (id_ne_of_nodup_cons hc hcs d hd)).trans
            (List.map_id' cs)
        rw [List.findIdx_cons, hc, beq_self_eq_true, List.map_cons, if_pos hc, hrest]
        rfl
      · rw [List.findIdx_cons, beq_false_of_ne hc, List.map_cons, if_neg hc,
          ← ih (List.nodup_cons.1 hcs).2]
        rfl
  exact hlist _ hp

/-- Where identities are distinct, removing the first contract of an identity is removing all. -/
theorem eraseP_eq_filter (hp : p.ids.Nodup) (id : ContractId) :
    (p.contracts.eraseP fun c => c.id == id) = p.contracts.filter fun c => c.id != id := by
  have hlist : ∀ cs : List Contract, (cs.map Contract.id).Nodup →
      (cs.eraseP fun c => c.id == id) = cs.filter fun c => c.id != id := by
    intro cs hcs
    induction cs with
    | nil => rfl
    | cons c cs ih =>
      by_cases hc : c.id = id
      · have hrest : (cs.filter fun d => d.id != id) = cs :=
          List.filter_eq_self.2 fun d hd => bne_iff_ne.2 (id_ne_of_nodup_cons hc hcs d hd)
        rw [List.eraseP_cons_of_pos (by simpa using hc),
          List.filter_cons_of_neg (by simpa using hc), hrest]
      · rw [List.eraseP_cons_of_neg (by simpa using hc),
          List.filter_cons_of_pos (by simpa using hc), ih (List.nodup_cons.1 hcs).2]
  exact hlist _ hp

/-- **What an edit does to the contracts:** it does something to each by itself, and may put one
more behind them. -/
theorem contracts_perform (hp : p.ids.Nodup) (e : RegistryEdit) :
    (p.perform e).contracts =
      (p.contracts.filterMap fun c => c.remains? [e]) ++ (e.added? p).toList := by
  rw [perform_eq]
  cases e with
  | add c =>
    rw [Contract.filterMap_remains? _ (by simp), RegistryEdit.apply, add, RegistryEdit.added?]
    have hsame : p.contracts.map (RegistryEdit.change · (.add c)) = p.contracts := List.map_id' _
    rw [hsame]
    cases p.contract? c.id with
    | none => rfl
    | some d => exact (List.append_nil _).symm
  | remove id =>
    rw [Contract.filterMap_remains?_remove, ← eraseP_eq_filter hp, RegistryEdit.apply, remove]
    cases hc : p.contract? id with
    | none =>
      have hkept : (p.contracts.eraseP fun c => c.id == id) = p.contracts :=
        List.eraseP_of_forall_not (List.find?_eq_none.1 hc)
      rw [hkept]
      exact (List.append_nil _).symm
    | some c => exact (List.append_nil _).symm
  | setCurrent id =>
    rw [Contract.filterMap_remains? _ (by simp), RegistryEdit.apply, setCurrent]
    have hsame : p.contracts.map (RegistryEdit.change · (.setCurrent id)) = p.contracts :=
      List.map_id' _
    rw [hsame]
    cases (p.contract? id).isSome <;> exact (List.append_nil _).symm
  | inherit id parent | place id block =>
    rw [Contract.filterMap_remains? _ (by simp)]
    exact (contracts_modify hp id _).trans (List.append_nil _).symm

/-- What an edit registers is new. -/
theorem added?_eq_some_iff {e : RegistryEdit} {c : Contract} :
    e.added? p = some c ↔ e = .add c ∧ c.id ∉ p.ids := by
  cases e with
  | add d =>
    simp only [RegistryEdit.added?, contract?_eq_none_iff, Option.ite_none_right_eq_some,
      Option.some.injEq, RegistryEdit.add.injEq]
    constructor
    · rintro ⟨hd, rfl⟩
      exact ⟨rfl, hd⟩
    · rintro ⟨rfl, hd⟩
      exact ⟨hd, rfl⟩
  | remove | setCurrent | inherit | place => simp [RegistryEdit.added?]

/-- The identities after an edit. -/
theorem mem_ids_perform (hp : p.ids.Nodup) (e : RegistryEdit) (id : ContractId) :
    id ∈ (p.perform e).ids ↔
      (id ∈ p.ids ∧ e ≠ .remove id) ∨ ∃ c, e.added? p = some c ∧ c.id = id := by
  rw [ids, contracts_perform hp, List.map_append, List.mem_append]
  refine or_congr ?_ (by simp [Option.mem_toList])
  simp only [ids, List.mem_map, List.mem_filterMap]
  constructor
  · rintro ⟨d, ⟨c, hc, hd⟩, rfl⟩
    rw [Contract.id_of_remains? hd]
    refine ⟨⟨c, hc, rfl⟩, fun he => ?_⟩
    rw [Contract.remains?, if_pos (by simp [he])] at hd
    cases hd
  · rintro ⟨⟨c, hc, rfl⟩, he⟩
    refine ⟨e.change c, ⟨c, hc, if_neg fun h => he (List.mem_singleton.1 h).symm⟩, e.id_change c⟩

/-- **Every edit keeps identities distinct.** -/
theorem distinct_perform (hp : p.ids.Nodup) (e : RegistryEdit) : (p.perform e).ids.Nodup := by
  have hkept := Contract.ids_filterMap_sublist p.contracts [e]
  rw [ids, contracts_perform hp, List.map_append]
  cases hc : e.added? p with
  | none =>
    rw [Option.toList_none, List.map_nil, List.append_nil]
    exact hp.sublist hkept
  | some c =>
    refine List.nodup_append.2 ⟨hp.sublist hkept, List.nodup_singleton _, ?_⟩
    rintro _ ha _ hb rfl
    rw [List.mem_singleton.1 hb] at ha
    exact (added?_eq_some_iff.1 hc).2 (hkept.subset ha)

/-- **Every edit keeps the pieces together.** -/
theorem Sound.perform (hp : p.Sound) (e : RegistryEdit) : (p.perform e).Sound := by
  have hdistinct := distinct_perform hp.distinct e
  have hmem := mem_ids_perform hp.distinct e
  have hperform := p.perform_eq e
  cases h : e.apply p with
  | error error =>
    rw [h] at hperform
    rwa [hperform]
  | ok q =>
    rw [h] at hperform
    rw [hperform] at hdistinct hmem ⊢
    cases e with
    | add c =>
      obtain ⟨hc, rfl⟩ := add_eq_ok h
      refine ⟨hdistinct, fun id hid => (hmem id).2 ?_, fun hnone => by cases hnone⟩
      obtain rfl := Option.some.inj hid
      cases hcurrent : p.currentId with
      | none => exact Or.inr ⟨c, added?_eq_some_iff.2 ⟨rfl, hc⟩, rfl⟩
      | some current => exact Or.inl ⟨hp.registered current hcurrent, by simp⟩
    | remove id =>
      obtain ⟨d, hr⟩ := exists_remove_of_apply h
      obtain ⟨c, -, -, rfl⟩ := remove_eq_ok hr
      by_cases hcurrent : p.currentId = some id
      · -- the first contract left becomes current, if one is left
        rw [if_pos hcurrent] at hdistinct ⊢
        refine ⟨hdistinct, fun i hi => ?_, fun hnone => ?_⟩
        · obtain ⟨d, hd, rfl⟩ := Option.map_eq_some_iff.1 hi
          exact List.mem_map_of_mem (List.mem_of_head? hd)
        · exact List.head?_eq_none_iff.1 (Option.map_eq_none_iff.1 hnone)
      · rw [if_neg hcurrent] at hdistinct hmem ⊢
        refine ⟨hdistinct, fun i hi => (hmem i).2 (Or.inl ⟨hp.registered i hi, ?_⟩),
          fun hnone => ?_⟩
        · rintro ⟨rfl⟩
          exact hcurrent hi
        · rw [hp.chosen hnone, List.eraseP_nil]
    | setCurrent id =>
      obtain ⟨hid, rfl⟩ := setCurrent_eq_ok h
      refine ⟨hp.distinct, fun i hi => ?_, fun hnone => by cases hnone⟩
      obtain rfl := Option.some.inj hi
      exact hid
    | inherit id parent | place id block =>
      obtain rfl := Except.ok.inj h
      refine ⟨hdistinct, fun i hi => (hmem i).2 (Or.inl ⟨hp.registered i hi, by simp⟩),
        fun hnone => ?_⟩
      rw [← hperform, contracts_perform hp.distinct, hp.chosen hnone]
      rfl

theorem Sound.run (hp : p.Sound) (edits : List RegistryEdit) : (p.run edits).Sound := by
  induction edits generalizing p with
  | nil => exact hp
  | cons e edits ih => exact ih (hp.perform e)

/-! ### Runs -/

/-- The contract that the edit of the given number registers, if it registers one. -/
def addition? (p : Project) (edits : List RegistryEdit) (n : Nat) : Option Contract :=
  edits[n]?.bind fun e => e.added? (p.run (edits.take n))

/-- What is left, after all edits, of the contract that the edit of the given number registers. -/
def standing? (p : Project) (edits : List RegistryEdit) (n : Nat) : Option Contract :=
  (p.addition? edits n).bind fun c => c.remains? (edits.drop (n + 1))

/-- **The contracts after a run** are what is left of those that were there before and then of those
that were added, in the order in which they were added. -/
theorem contracts_run (hp : p.Sound) (edits : List RegistryEdit) :
    (p.run edits).contracts = (p.contracts.filterMap fun c => c.remains? edits) ++
      (List.range edits.length).filterMap (p.standing? edits) := by
  induction edits generalizing p with
  | nil => simp [run, Contract.remains?_nil]
  | cons e edits ih =>
    have hfirst : p.standing? (e :: edits) 0 = (e.added? p).bind fun c => c.remains? edits := rfl
    have hlater : (p.standing? (e :: edits)) ∘ Nat.succ = (p.perform e).standing? edits := rfl
    have hboth : ∀ c : Contract, (c.remains? [e]).bind (fun d => d.remains? edits) =
        c.remains? (e :: edits) := fun c => (c.remains?_cons e edits).symm
    have hnew : (e.added? p).toList.filterMap (fun c => c.remains? edits) =
        (p.standing? (e :: edits) 0).toList := by
      rw [hfirst]
      cases e.added? p with
      | none => rfl
      | some c => cases hc : c.remains? edits <;> simp [hc]
    rw [run, List.foldl_cons, ← run, ih (hp.perform e), contracts_perform hp.distinct,
      List.filterMap_append, List.filterMap_filterMap, funext hboth, hnew, List.append_assoc,
      List.length_cons, List.range_succ_eq_map, List.filterMap_cons, List.filterMap_map, hlater]
    cases p.standing? (e :: edits) 0 <;> rfl

/-- What is left of an addition has the identity of what was added. -/
theorem exists_of_standing? {edits : List RegistryEdit} {n : Nat} {c : Contract}
    (h : p.standing? edits n = some c) : ∃ added, p.addition? edits n = some added ∧
      .remove added.id ∉ edits.drop (n + 1) ∧ c = added.changed (edits.drop (n + 1)) := by
  obtain ⟨added, hadded, hc⟩ := Option.bind_eq_some_iff.1 h
  refine ⟨added, hadded, ?_⟩
  unfold Contract.remains? at hc
  split at hc
  · cases hc
  · next hremoved => exact ⟨hremoved, (Option.some.inj hc).symm⟩

/-- What stands after all edits stood after those up to any later one. -/
theorem exists_standing?_take {edits : List RegistryEdit} {n m : Nat} (hnm : n < m)
    (hm : m ≤ edits.length) {c : Contract} (h : p.standing? edits n = some c) :
    ∃ d, p.standing? (edits.take m) n = some d ∧ d.id = c.id := by
  obtain ⟨added, hadded, hc⟩ := Option.bind_eq_some_iff.1 h
  have hearlier : p.addition? (edits.take m) n = some added := by
    rw [← hadded, addition?, addition?, List.getElem?_take_of_lt hnm, List.take_take,
      Nat.min_eq_left (Nat.le_of_lt hnm)]
  have hsplit : edits.drop (n + 1) = (edits.take m).drop (n + 1) ++ edits.drop m := by
    have hlength : n + 1 ≤ (edits.take m).length := by
      rw [List.length_take]
      omega
    rw [← List.drop_append_of_le_length hlength, List.take_append_drop]
  rw [hsplit, Contract.remains?_append] at hc
  obtain ⟨d, hd, hc⟩ := Option.bind_eq_some_iff.1 hc
  refine ⟨d, ?_, (Contract.id_of_remains? hc).symm⟩
  rw [standing?, hearlier]
  exact hd

/-- **Nothing is added later under an identity that is taken.** -/
theorem id_ne_of_addition? (hp : p.Sound) {edits : List RegistryEdit} {n m : Nat} (hnm : n < m)
    {c later : Contract} (h : p.standing? edits n = some c)
    (hlater : p.addition? edits m = some later) : later.id ≠ c.id := by
  obtain ⟨e, he, hadded⟩ := Option.bind_eq_some_iff.1 hlater
  have hlength : m < edits.length := (List.getElem?_eq_some_iff.1 he).1
  obtain ⟨d, hd, hid⟩ := exists_standing?_take hnm (Nat.le_of_lt hlength) h
  have hmem : d ∈ (p.run (edits.take m)).contracts := by
    rw [contracts_run hp]
    refine List.mem_append_right _ (List.mem_filterMap.2 ⟨n, List.mem_range.2 ?_, hd⟩)
    rw [List.length_take]
    omega
  intro hsame
  exact (added?_eq_some_iff.1 hadded).2 (List.mem_map.2 ⟨d, hmem, hid.trans hsame.symm⟩)

/-- **Looking up an identity after a run** of a project without contracts finds the one that was added
last under it, if it was not removed since, with what has been changed about it since. -/
theorem contract?_run_iff (hp : p.Sound) (hempty : p.contracts = []) {edits : List RegistryEdit}
    {id : ContractId} {c : Contract} :
    (p.run edits).contract? id = some c ↔ ∃ n added, p.addition? edits n = some added ∧
      added.id = id ∧ (∀ m later, n < m → p.addition? edits m = some later → later.id ≠ id) ∧
      .remove id ∉ edits.drop (n + 1) ∧ c = added.changed (edits.drop (n + 1)) := by
  rw [contract?_eq_some_iff (hp.run edits).distinct, contracts_run hp, hempty, List.filterMap_nil,
    List.nil_append, List.mem_filterMap]
  constructor
  · rintro ⟨⟨n, -, hn⟩, rfl⟩
    obtain ⟨added, hadded, hremoved, rfl⟩ := exists_of_standing? hn
    refine ⟨n, added, hadded, (added.id_changed _).symm, fun m later hnm hlater => ?_, ?_, rfl⟩
    · exact id_ne_of_addition? hp hnm hn hlater
    · rwa [added.id_changed]
  · rintro ⟨n, added, hadded, rfl, -, hremoved, rfl⟩
    refine ⟨⟨n, List.mem_range.2 ?_, ?_⟩, added.id_changed _⟩
    · obtain ⟨e, he, -⟩ := Option.bind_eq_some_iff.1 hadded
      exact (List.getElem?_eq_some_iff.1 he).1
    · rw [standing?, hadded]
      exact if_neg hremoved

/-- There is a current contract exactly if there is one at all. -/
theorem Sound.current?_eq_none_iff (hp : p.Sound) : p.current? = none ↔ p.contracts = [] := by
  cases hid : p.currentId with
  | none => exact iff_of_true (by rw [current?, hid]; rfl) (hp.chosen hid)
  | some id =>
    obtain ⟨c, hc⟩ := exists_contract?_iff.2 (hp.registered id hid)
    refine iff_of_false (by rw [current?, hid, Option.bind_some, hc]; simp) fun hnil => ?_
    exact List.ne_nil_of_mem (List.mem_of_find?_eq_some hc) hnil

theorem mem_of_current? {c : Contract} (h : p.current? = some c) : c ∈ p.contracts := by
  obtain ⟨id, -, hc⟩ := Option.bind_eq_some_iff.1 h
  exact List.mem_of_find?_eq_some hc

/-- **Adding a contract of a new identity and removing it again** gives back the project as it was,
and the contract without its blocks. -/
theorem Sound.remove_add (hp : p.Sound) {c : Contract} (hc : c.id ∉ p.ids) :
    ∃ q, p.add c = .ok q ∧ q.remove c.id = .ok (p, { c with components := [] }) := by
  have hnone : p.contract? c.id = none := contract?_eq_none_iff.2 hc
  have hothers : ∀ d ∈ p.contracts, ¬(d.id == c.id) = true := List.find?_eq_none.1 hnone
  have hfind : (p.contracts ++ [c]).find? (fun d => d.id == c.id) = some c := by
    rw [List.find?_append, List.find?_eq_none.2 hothers, Option.none_or]
    exact List.find?_cons_of_pos (beq_self_eq_true c.id)
  have herase : (p.contracts ++ [c]).eraseP (fun d => d.id == c.id) = p.contracts := by
    rw [List.eraseP_append_right _ hothers, List.eraseP_cons_of_pos (by simp), List.append_nil]
  have hcurrent : (if some (p.currentId.getD c.id) = some c.id
      then p.contracts.head?.map Contract.id else some (p.currentId.getD c.id)) = p.currentId := by
    cases hid : p.currentId with
    | none =>
      rw [Option.getD_none, if_pos rfl, hp.chosen hid]
      rfl
    | some id =>
      -- the current contract is registered, so it is not the new one
      have hne : some id ≠ some c.id := by
        rintro ⟨rfl⟩
        exact hc (hp.registered _ hid)
      rw [Option.getD_some, if_neg hne]
  refine ⟨_, by rw [add, hnone]; rfl, ?_⟩
  simp only [remove, contract?, hfind, herase, hcurrent]

/-- **The contracts of a project,** after any edits of an empty one, be they refused or not.
Identities are pairwise distinct.  There is a current contract exactly if there is one at all, and
it is one of them.  An edit that is refused has left the project as it was.  The contracts stand in
the order in which they were added; looking up an identity finds the contract that was added last
under it, if it was not removed since, with what has been changed about it since.  Adding a contract
of a new identity and removing it again gives back the project as it was, and the contract without
its blocks. -/
theorem run_registry (id name : String) (edits : List RegistryEdit) :
    let start := empty id name
    let p := start.run edits
    p.ids.Nodup ∧
      ((p.current? = none ↔ p.contracts = []) ∧ ∀ c, p.current? = some c → c ∈ p.contracts) ∧
      (∀ e : RegistryEdit, e.carryOut.run p = match e.apply p with
        | .ok q => .ok () q
        | .error error => .error error p) ∧
      p.contracts = (List.range edits.length).filterMap (start.standing? edits) ∧
      (∀ i c, p.contract? i = some c ↔ ∃ n added, start.addition? edits n = some added ∧
        added.id = i ∧ (∀ m later, n < m → start.addition? edits m = some later → later.id ≠ i) ∧
        .remove i ∉ edits.drop (n + 1) ∧ c = added.changed (edits.drop (n + 1))) ∧
      ∀ c, c.id ∉ p.ids →
        ∃ q, p.add c = .ok q ∧ q.remove c.id = .ok (p, { c with components := [] }) := by
  intro start p
  have hstart : start.Sound := sound_empty id name
  have hp : p.Sound := hstart.run edits
  have hcontracts : p.contracts = (List.range edits.length).filterMap (start.standing? edits) :=
    contracts_run hstart edits
  exact ⟨hp.distinct, ⟨hp.current?_eq_none_iff, fun c hc => mem_of_current? hc⟩,
    fun e => e.carryOut_eq p, hcontracts, fun i c => contract?_run_iff hstart rfl,
    fun c hc => hp.remove_add hc⟩

end Project

end ContractBlocks
