/-
# When there is no linearization

The order of the ancestors of a contract is found by a recursion along paths of parents that does not
use the graph.  It gives up exactly if going up from one of the contracts to put in order one comes
to a contract on the path or to a loop (`Project.orderAbove_eq_none_iff`): a path that meets itself
closes a loop, and a loop that is met is gone round until it meets the path.  So a registered
contract has no linearization exactly if it is on a loop or below one
(`Project.linearize_eq_none_iff`).
-/

import ContractBlocks.Inheritance.Linearization
import ContractBlocks.Proofs.Inheritance.Loops

namespace ContractBlocks
namespace Project

variable {p : Project}

/-- The contract that is found has the identity that was looked up. -/
theorem id_of_contract? {id : ContractId} {c : Contract} (h : p.contract? id = some c) :
    c.id = id :=
  eq_of_beq (List.find?_some (p := fun x : Contract => x.id == id) h)

/-- Where identities are distinct, looking up finds every registered contract. -/
theorem contract?_eq_some_iff (hp : p.ids.Nodup) {id : ContractId} {c : Contract} :
    p.contract? id = some c ↔ c ∈ p.contracts ∧ c.id = id := by
  constructor
  · intro h
    exact ⟨List.mem_of_find?_eq_some h, id_of_contract? h⟩
  · rintro ⟨hc, rfl⟩
    cases hf : p.contract? c.id with
    | none =>
      have := List.find?_eq_none.1 hf c hc
      simp at this
    | some d =>
      rw [List.inj_on_of_nodup_map hp (List.mem_of_find?_eq_some hf) hc (id_of_contract? hf)]

theorem exists_contract?_iff {id : ContractId} : (∃ c, p.contract? id = some c) ↔ id ∈ p.ids := by
  rw [← Option.isSome_iff_exists, contract?, List.find?_isSome, ids, List.mem_map]
  simp only [beq_iff_eq]

theorem contract?_eq_none_iff {id : ContractId} : p.contract? id = none ↔ id ∉ p.ids := by
  rw [← exists_contract?_iff, Option.eq_none_iff_forall_ne_some, not_exists]

/-- Where identities are distinct, the edges from a contract go to its registered parents. -/
theorem edge_iff_of_contract? (hp : p.ids.Nodup) {a b : ContractId} {c : Contract}
    (h : p.contract? a = some c) : p.inheritance.Edge a b ↔ b ∈ c.parents ∧ b ∈ p.ids := by
  rw [edge_iff]
  constructor
  · rintro ⟨⟨d, hd, rfl, hb⟩, hi⟩
    obtain rfl : d = c := Option.some.inj (((contract?_eq_some_iff hp).2 ⟨hd, rfl⟩).symm.trans h)
    exact ⟨hb, hi⟩
  · rintro ⟨hb, hi⟩
    obtain ⟨hc, rfl⟩ := (contract?_eq_some_iff hp).1 h
    exact ⟨⟨c, hc, rfl, hb⟩, hi⟩

/-- A contract that is not registered has no place in the order. -/
theorem orderAbove_cons_of_none {path order rs : List ContractId} {r : ContractId}
    (h : p.contract? r = none) :
    p.orderAbove path order (r :: rs) = p.orderAbove path order rs := by
  rw [orderAbove]
  split
  · rfl
  · next c hc => rw [h] at hc; cases hc

/-- A registered contract has its place behind its ancestors. -/
theorem orderAbove_cons_of_some {path order rs : List ContractId} {r : ContractId}
    {c : Contract} (h : p.contract? r = some c) :
    p.orderAbove path order (r :: rs) = if r ∈ path then none else
      (p.orderAbove (r :: path) order c.parents).bind fun above =>
        p.orderAbove path (if r ∈ above then above else above ++ [r]) rs := by
  rw [orderAbove]
  split
  · next hc => rw [h] at hc; cases hc
  · next d hd =>
    obtain rfl : c = d := Option.some.inj (h.symm.trans hd)
    by_cases hr : r ∈ path
    · rw [dif_pos hr, if_pos hr]
    · rw [dif_neg hr, if_neg hr]
      cases p.orderAbove (r :: path) order c.parents <;> rfl

/-- **The order depends on the parents alone** that the contracts which are found have. -/
theorem orderAbove_congr {q : Project}
    (h : ∀ r, (q.contract? r).map Contract.parents = (p.contract? r).map Contract.parents)
    (path order rs : List ContractId) :
    q.orderAbove path order rs = p.orderAbove path order rs := by
  have hfound : ∀ {r c}, p.contract? r = some c →
      ∃ d, q.contract? r = some d ∧ d.parents = c.parents := fun {r c} hc => by
    have hr := h r
    rw [hc, Option.map_some, Option.map_eq_some_iff] at hr
    exact hr
  fun_induction p.orderAbove path order rs with
  | case1 => rw [orderAbove]
  | case2 path order r rs hnone ih =>
    have hr := h r
    rw [hnone, Option.map_none, Option.map_eq_none_iff] at hr
    rw [orderAbove_cons_of_none hr, ih]
  | case3 path order r rs c hc hr =>
    obtain ⟨d, hd, -⟩ := hfound hc
    rw [orderAbove_cons_of_some hd, if_pos hr]
  | case4 path order r rs c hc hr hnone ih =>
    obtain ⟨d, hd, hparents⟩ := hfound hc
    rw [orderAbove_cons_of_some hd, if_neg hr, hparents, ih, hnone]
    rfl
  | case5 path order r rs c hc hr above habove ihabove ihrest =>
    obtain ⟨d, hd, hparents⟩ := hfound hc
    rw [orderAbove_cons_of_some hd, if_neg hr, hparents, ihabove, habove]
    exact ihrest

theorem linearize_congr {q : Project}
    (h : ∀ r, (q.contract? r).map Contract.parents = (p.contract? r).map Contract.parents)
    (id : ContractId) : q.linearize id = p.linearize id := by
  have hid := h id
  rw [linearize, linearize]
  cases hc : p.contract? id with
  | none =>
    rw [hc, Option.map_none, Option.map_eq_none_iff] at hid
    rw [hid]
  | some c =>
    rw [hc, Option.map_some, Option.map_eq_some_iff] at hid
    obtain ⟨d, hd, hparents⟩ := hid
    simp only [hd, hparents, orderAbove_congr h]

/-- Going up from the contract, one comes to the path or to a loop. -/
def LeadsInto (p : Project) (path : List ContractId) (r : ContractId) : Prop :=
  ∃ m, Relation.ReflTransGen p.inheritance.Edge r m ∧ (m ∈ path ∨ p.inheritance.OnLoop m)

/-- Going up from a contract off the path, one comes to the path or to a loop exactly if from some
parent one comes to the path, to the contract itself or to a loop. -/
theorem leadsInto_iff (hp : p.ids.Nodup) {path : List ContractId} {r : ContractId} {c : Contract}
    (hc : p.contract? r = some c) (hr : r ∉ path) :
    p.LeadsInto path r ↔ ∃ b ∈ c.parents, b ∈ p.ids ∧ p.LeadsInto (r :: path) b := by
  constructor
  · rintro ⟨m, hm, hend⟩
    rcases Relation.ReflTransGen.cases_head hm with rfl | ⟨b, hb, hbm⟩
    · obtain ⟨b, hb, hbr⟩ := Relation.TransGen.head'_iff.1 (hend.resolve_left hr)
      obtain ⟨hbc, hbi⟩ := (edge_iff_of_contract? hp hc).1 hb
      exact ⟨b, hbc, hbi, r, hbr, Or.inl List.mem_cons_self⟩
    · obtain ⟨hbc, hbi⟩ := (edge_iff_of_contract? hp hc).1 hb
      exact ⟨b, hbc, hbi, m, hbm, hend.imp_left (List.mem_cons_of_mem r)⟩
  · rintro ⟨b, hbc, hbi, m, hbm, hend⟩
    have hb : p.inheritance.Edge r b := (edge_iff_of_contract? hp hc).2 ⟨hbc, hbi⟩
    rcases hend with hm | hl
    · rcases List.mem_cons.1 hm with rfl | hm
      · exact ⟨m, .refl, Or.inr (Relation.TransGen.head' hb hbm)⟩
      · exact ⟨m, .head hb hbm, Or.inl hm⟩
    · exact ⟨m, .head hb hbm, Or.inr hl⟩

/-- **The recursion gives up exactly at the path or a loop.** -/
theorem orderAbove_eq_none_iff (hp : p.ids.Nodup) (path order rs : List ContractId) :
    p.orderAbove path order rs = none ↔ ∃ r ∈ rs, r ∈ p.ids ∧ p.LeadsInto path r := by
  fun_induction orderAbove p path order rs with
  | case1 path order => simp
  | case2 path order r rs hc ih =>
    have hr : r ∉ p.ids := contract?_eq_none_iff.1 hc
    rw [ih, List.exists_mem_cons_iff]
    exact ⟨Or.inr, fun h => h.resolve_left fun h => hr h.1⟩
  | case3 path order r rs c hc hr =>
    refine iff_of_true rfl ⟨r, List.mem_cons_self, exists_contract?_iff.1 ⟨c, hc⟩, ?_⟩
    exact ⟨r, .refl, Or.inl hr⟩
  | case4 path order r rs c hc hr hnone ih =>
    refine iff_of_true rfl ⟨r, List.mem_cons_self, exists_contract?_iff.1 ⟨c, hc⟩, ?_⟩
    exact (leadsInto_iff hp hc hr).2 (ih.1 hnone)
  | case5 path order r rs c hc hr above hsome ihc ih =>
    have hn : ¬p.LeadsInto path r := by
      rw [leadsInto_iff hp hc hr, ← ihc, hsome]
      exact Option.some_ne_none above
    rw [dite_eq_ite] at ih
    rw [ih, List.exists_mem_cons_iff]
    exact ⟨Or.inr, fun h => h.resolve_left fun h => hn h.2⟩

/-- **A registered contract has no linearization exactly if it is on a loop or below one.** -/
theorem linearize_eq_none_iff (hp : p.ids.Nodup) {c : Contract} (hc : c ∈ p.contracts) :
    p.linearize c.id = none ↔
      p.inheritance.OnLoop c.id ∨
        ∃ a, Relation.TransGen p.inheritance.Edge c.id a ∧ p.inheritance.OnLoop a := by
  have hf : p.contract? c.id = some c := (contract?_eq_some_iff hp).2 ⟨hc, rfl⟩
  have ho : p.linearize c.id = p.orderAbove [c.id] [] c.parents := by rw [linearize, hf]
  rw [ho, orderAbove_eq_none_iff hp, ← leadsInto_iff hp hf List.not_mem_nil]
  constructor
  · rintro ⟨m, hm, hl⟩
    replace hl := hl.resolve_left List.not_mem_nil
    rcases Relation.reflTransGen_iff_eq_or_transGen.1 hm with rfl | hm
    · exact Or.inl hl
    · exact Or.inr ⟨m, hm, hl⟩
  · rintro (hl | ⟨a, ha, hl⟩)
    · exact ⟨c.id, .refl, Or.inr hl⟩
    · exact ⟨a, ha.to_reflTransGen, Or.inr hl⟩

/-- A registered contract has a linearization if none above it inherits from itself. -/
theorem linearize_ne_none_of_loopless (hp : p.ids.Nodup) {c : Contract} (hc : c ∈ p.contracts)
    (hloopless : ∀ b, Relation.TransGen p.Inherits c.id b → ¬Relation.TransGen p.Inherits b b) :
    p.linearize c.id ≠ none := by
  rw [Ne, linearize_eq_none_iff hp hc, not_or]
  simp only [InheritanceGraph.OnLoop, edge_eq_inherits]
  exact ⟨fun h => hloopless c.id h h, fun ⟨b, hb, h⟩ => hloopless b hb h⟩

/-- Where peeling leaves nothing, no contract inherits from itself. -/
theorem loopless_of_acyclic (hacyclic : p.inheritance.hasCycles = false) (a : ContractId) :
    ¬Relation.TransGen p.Inherits a a := by
  intro h
  rw [← edge_eq_inherits] at h
  rw [(InheritanceGraph.hasCycles_iff p.inheritance_joined).2 ⟨a, h⟩] at hacyclic
  cases hacyclic

end Project
end ContractBlocks
