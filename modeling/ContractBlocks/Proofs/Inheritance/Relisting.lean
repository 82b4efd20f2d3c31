/-
# Naming an ancestor as a parent

A contract may name a contract as a parent that it inherits from already, through another parent.
The edge that this adds to the graph is a short cut: what can be reached stays the same
(`Project.reaches_relist`), so no loop comes into being, and each parent that the contract had
reaches what it reached before.  The new parent reaches itself and what is above it
(`Project.reachedBy_relist`).

The new parent is not reported, since direct parents never are.  What is above it is: the parent
through which it had been reached is one way there, and the new parent is another
(`Project.relisted_diamonds`).  So a chain without a diamond has one as soon as its end names the
middle, too (`Project.relisting_reports_above`).
-/

import ContractBlocks.Proofs.Contract.Registry
import ContractBlocks.Proofs.Inheritance.Diamonds

namespace ContractBlocks

/-- Short cuts along what can be reached lead nowhere else. -/
theorem transGen_eq_of_le {α : Type} {r r' : α → α → Prop} (hle : ∀ a b, r a b → r' a b)
    (hshort : ∀ a b, r' a b → Relation.TransGen r a b) :
    Relation.TransGen r' = Relation.TransGen r := by
  funext a b
  exact propext ⟨Relation.TransGen.closed hshort a b, Relation.TransGen.mono hle a b⟩

/-- The contract with one more parent, which stands behind the first ones of the given number. -/
def Contract.relist (c : Contract) (position : Nat) (a : ContractId) : Contract :=
  { c with parents := c.parents.insertIdx position a }

namespace Project

/-- The project with one more parent for the contract of the given identity. -/
def relist (p : Project) (id : ContractId) (position : Nat) (a : ContractId) : Project :=
  p.modify id fun c => c.relist position a

variable {p : Project} {c : Contract} {position : Nat} {a : ContractId}

/-! ### The project with the short cut -/

theorem ids_relist (hp : p.ids.Nodup) (id : ContractId) : (p.relist id position a).ids = p.ids := by
  rw [ids, relist, contracts_modify hp, List.map_map]
  refine List.map_congr_left fun d _ => ?_
  rw [Function.comp_apply]
  split <;> rfl

theorem nodup_ids_relist (hp : p.ids.Nodup) (id : ContractId) :
    (p.relist id position a).ids.Nodup :=
  (ids_relist hp id).symm ▸ hp

/-- The contract stands in the project with one more parent. -/
theorem relist_mem_contracts (hp : p.ids.Nodup) (hc : c ∈ p.contracts) :
    c.relist position a ∈ (p.relist c.id position a).contracts := by
  rw [relist, contracts_modify hp]
  exact List.mem_map.2 ⟨c, hc, if_pos rfl⟩

/-- What the contracts inherit, with one parent more for one of them. -/
theorem inherits_relist_iff (hp : p.ids.Nodup) (hc : c ∈ p.contracts)
    (hposition : position ≤ c.parents.length) {x y : ContractId} :
    (p.relist c.id position a).Inherits x y ↔
      p.Inherits x y ∨ x = c.id ∧ y = a ∧ a ∈ p.ids := by
  let change : Contract → Contract := fun d => if d.id = c.id then d.relist position a else d
  have hchange : ∀ d ∈ p.contracts, (change d).id = d.id ∧
      ∀ r, r ∈ (change d).parents ↔ r ∈ d.parents ∨ d.id = c.id ∧ r = a := by
    intro d hd
    by_cases hdc : d.id = c.id
    · obtain rfl : d = c := List.inj_on_of_nodup_map hp hd hc hdc
      rw [show change d = d.relist position a from if_pos rfl]
      refine ⟨rfl, fun r => ?_⟩
      rw [Contract.relist, (List.perm_insertIdx a d.parents hposition).mem_iff, List.mem_cons,
        or_comm]
      simp only [true_and]
    · rw [show change d = d from if_neg hdc]
      exact ⟨rfl, fun r => by simp only [hdc, false_and, or_false]⟩
  rw [Inherits, Inherits, ids_relist hp, relist, contracts_modify hp]
  constructor
  · rintro ⟨⟨e, he, hid, hy⟩, hids⟩
    obtain ⟨d, hd, rfl⟩ := List.mem_map.1 he
    obtain ⟨hsame, hparents⟩ := hchange d hd
    rcases (hparents y).1 hy with hy | ⟨hdc, rfl⟩
    · exact Or.inl ⟨⟨d, hd, hsame.symm.trans hid, hy⟩, hids⟩
    · exact Or.inr ⟨hid.symm.trans (hsame.trans hdc), rfl, hids⟩
  · rintro (⟨⟨d, hd, hid, hy⟩, hids⟩ | ⟨rfl, rfl, hids⟩)
    · obtain ⟨hsame, hparents⟩ := hchange d hd
      exact ⟨⟨_, List.mem_map_of_mem hd, hsame.trans hid, (hparents y).2 (Or.inl hy)⟩, hids⟩
    · obtain ⟨hsame, hparents⟩ := hchange c hc
      exact ⟨⟨_, List.mem_map_of_mem hc, hsame, (hparents y).2 (Or.inr ⟨rfl, rfl⟩)⟩, hids⟩

/-- **A short cut leads nowhere else.** -/
theorem reaches_relist (hp : p.ids.Nodup) (hc : c ∈ p.contracts)
    (hposition : position ≤ c.parents.length) (ha : Relation.TransGen p.Inherits c.id a) :
    Relation.TransGen (p.relist c.id position a).Inherits = Relation.TransGen p.Inherits := by
  refine transGen_eq_of_le (fun x y h => (inherits_relist_iff hp hc hposition).2 (Or.inl h))
    fun x y h => ?_
  rcases (inherits_relist_iff hp hc hposition).1 h with h | ⟨rfl, rfl, -⟩
  · exact .single h
  · exact ha

/-! ### What the parents reach -/

/-- **The new parent is one parent more** that reaches itself and what is above it. -/
theorem reachedBy_relist (hp : p.ids.Nodup) (hc : c ∈ p.contracts)
    (hposition : position ≤ c.parents.length) (ha : Relation.TransGen p.Inherits c.id a)
    (x : ContractId) :
    (p.relist c.id position a).reachedBy (c.relist position a) x =
      p.reachedBy c x + if x ∈ p.inheritance.lineage a then 1 else 0 := by
  have hlineage : ∀ r, x ∈ (p.relist c.id position a).inheritance.lineage r ↔
      x ∈ p.inheritance.lineage r := fun r => by
    simp only [mem_lineage_iff_reaches, Relation.reflTransGen_iff_eq_or_transGen,
      reaches_relist hp hc hposition ha]
  rw [reachedBy, reachedBy, Contract.relist,
    (List.perm_insertIdx a c.parents hposition).countP_eq, List.countP_cons]
  simp only [hlineage, decide_eq_true_eq]

/-- A parent through which the new parent is reached reaches what is above the new parent. -/
theorem reachedBy_pos {b x : ContractId} (hb : b ∈ c.parents)
    (hba : Relation.TransGen p.Inherits b a) (hx : Relation.TransGen p.Inherits a x) :
    1 ≤ p.reachedBy c x :=
  List.countP_pos_iff.2
    ⟨b, hb, decide_eq_true (mem_lineage_iff_reaches.2 (hba.trans hx).to_reflTransGen)⟩

/-- What a parent inherits from, the contract inherits from. -/
theorem reaches_of_mem_parents (hc : c ∈ p.contracts) {b : ContractId} (hb : b ∈ c.parents)
    (hba : Relation.TransGen p.Inherits b a) : Relation.TransGen p.Inherits c.id a := by
  obtain ⟨d, ⟨⟨e, he, rfl, -⟩, -⟩, -⟩ := Relation.TransGen.head'_iff.1 hba
  exact .head ⟨⟨c, hc, rfl, hb⟩, List.mem_map_of_mem he⟩ hba

/-! ### What is reported -/

/-- A short cut closes no loop, so the contract still has its ancestors in order. -/
theorem linearize_relist_ne_none (hp : p.ids.Nodup) (hacyclic : p.inheritance.hasCycles = false)
    (hc : c ∈ p.contracts) (hposition : position ≤ c.parents.length)
    (ha : Relation.TransGen p.Inherits c.id a) :
    (p.relist c.id position a).linearize c.id ≠ none := by
  refine linearize_ne_none_of_loopless (c := c.relist position a) (nodup_ids_relist hp c.id)
    (relist_mem_contracts hp hc) fun d _ => ?_
  rw [reaches_relist hp hc hposition ha]
  exact loopless_of_acyclic hacyclic d

/-- **The diamonds behind a short cut** are those before and what is above the new parent, but for
what is named as a parent. -/
theorem mem_diamond_relist_iff (hp : p.ids.Nodup) (hacyclic : p.inheritance.hasCycles = false)
    (hc : c ∈ p.contracts) {b : ContractId} (hb : b ∈ c.parents)
    (hba : Relation.TransGen p.Inherits b a) (hposition : position ≤ c.parents.length)
    {x : ContractId} :
    .diamond c.id x ∈ (p.relist c.id position a).inheritanceIssues ↔
      x ≠ a ∧ (.diamond c.id x ∈ p.inheritanceIssues ∨
        Relation.TransGen p.Inherits a x ∧ x ∉ c.parents) := by
  have hca := reaches_of_mem_parents hc hb hba
  have hafter : .diamond c.id x ∈ (p.relist c.id position a).inheritanceIssues ↔
      x ∉ (c.relist position a).parents ∧
        2 ≤ (p.relist c.id position a).reachedBy (c.relist position a) x :=
    mem_diamond_iff (nodup_ids_relist hp c.id) (relist_mem_contracts hp hc)
      (linearize_relist_ne_none hp hacyclic hc hposition hca)
  have hdirect : x ∉ (c.relist position a).parents ↔ x ≠ a ∧ x ∉ c.parents := by
    rw [Contract.relist, (List.perm_insertIdx a c.parents hposition).mem_iff, List.mem_cons, not_or]
  have hl := linearize_ne_none_of_acyclic hp hacyclic hc
  rw [hafter, mem_diamond_iff hp hc hl, hdirect, reachedBy_relist hp hc hposition hca]
  by_cases hxa : x = a
  · simp only [hxa, ne_eq, not_true_eq_false, false_and]
  · by_cases hx : Relation.TransGen p.Inherits a x
    · -- the new parent reaches the ancestor, and so did a parent before
      have hmem : x ∈ p.inheritance.lineage a := mem_lineage_iff_reaches.2 hx.to_reflTransGen
      have htwo : 2 ≤ p.reachedBy c x + 1 := Nat.succ_le_succ (reachedBy_pos hb hba hx)
      by_cases hxc : x ∈ c.parents <;> simp [hxa, hx, hxc, hmem, htwo]
    · have hnot : x ∉ p.inheritance.lineage a := fun h =>
        (Relation.reflTransGen_iff_eq_or_transGen.1 (mem_lineage_iff_reaches.1 h)).elim hxa hx
      simp [hxa, hx, hnot]

/-- **What naming an ancestor as a parent reports.**  Let a contract of a project without loops name
one more parent, at any place, from which one of its parents inherits.  What is a diamond of the
contract afterwards is never the new parent: it has been one before, or it is above the new parent
and no parent of the contract.  Each of these is a diamond then, and is reported once. -/
theorem relisted_diamonds (hp : p.ids.Nodup) (hacyclic : p.inheritance.hasCycles = false)
    (hc : c ∈ p.contracts) {b : ContractId} (hb : b ∈ c.parents)
    (hba : a ∈ p.inheritance.ancestors b) (hposition : position ≤ c.parents.length)
    (x : ContractId) :
    (.diamond c.id x ∈ (p.relist c.id position a).inheritanceIssues ↔
      x ≠ a ∧ (.diamond c.id x ∈ p.inheritanceIssues ∨
        x ∈ p.inheritance.ancestors a ∧ x ∉ c.parents)) ∧
    (p.relist c.id position a).inheritanceIssues.count (.diamond c.id x) ≤ 1 := by
  rw [mem_ancestors_iff_reaches] at hba
  refine ⟨?_, ?_⟩
  · rw [mem_ancestors_iff_reaches]
    exact mem_diamond_relist_iff hp hacyclic hc hb hba hposition
  · have hq : (p.relist c.id position a).ids.Nodup := nodup_ids_relist hp c.id
    have hl := linearize_relist_ne_none hp hacyclic hc hposition (reaches_of_mem_parents hc hb hba)
    have hcount : (p.relist c.id position a).inheritanceIssues.count (.diamond c.id x) = _ :=
      (count_diamond_inheritanceIssues hq (relist_mem_contracts hp hc) hl).trans
        (count_diamonds_eq _ _ x)
    rw [hcount]
    split <;> omega

namespace Chain

/-- The last contract of the chain. -/
def tip : Contract := ⟨"tip", "Tip", [], ["lower"]⟩

/-- A chain of contracts, each of which inherits from the one before. -/
def chain : Project where
  id := "p"
  name := "Chain"
  contracts := [⟨"root", "Root", [], []⟩, ⟨"middle", "Middle", [], ["root"]⟩,
    ⟨"lower", "Lower", [], ["middle"]⟩, tip]
  currentId := none
  deployment := .idle

theorem inherits_chain : chain.Inherits "lower" "middle" ∧ chain.Inherits "middle" "root" := by
  simp [Inherits, ids, chain, tip]

end Chain

open Chain in
theorem relisted_diamonds_chain :
    chain.ids.Nodup ∧ chain.inheritance.hasCycles = false ∧ tip ∈ chain.contracts ∧
      "lower" ∈ tip.parents ∧ "middle" ∈ chain.inheritance.ancestors "lower" ∧
      1 ≤ tip.parents.length ∧
      .diamond "tip" "root" ∈ (chain.relist "tip" 1 "middle").inheritanceIssues ∧
      .diamond "tip" "middle" ∉ (chain.relist "tip" 1 "middle").inheritanceIssues := by
  have hp : chain.ids.Nodup := by decide
  have hacyclic : chain.inheritance.hasCycles = false := by decide
  have hc : tip ∈ chain.contracts := by simp [chain]
  have hb : "lower" ∈ tip.parents := by decide
  have hba : "middle" ∈ chain.inheritance.ancestors "lower" :=
    mem_ancestors_iff_reaches.2 (.single inherits_chain.1)
  have habove : "root" ∈ chain.inheritance.ancestors "middle" :=
    mem_ancestors_iff_reaches.2 (.single inherits_chain.2)
  have hposition : 1 ≤ tip.parents.length := by decide
  obtain ⟨hreported, -⟩ := relisted_diamonds hp hacyclic hc hb hba hposition "root"
  obtain ⟨hdirect, -⟩ := relisted_diamonds hp hacyclic hc hb hba hposition "middle"
  exact ⟨hp, hacyclic, hc, hb, hba, hposition,
    hreported.2 ⟨by decide, Or.inr ⟨habove, by decide⟩⟩, fun h => (hdirect.1 h).1 rfl⟩

open Chain in
/-- **Naming an ancestor as a parent can report what is above it.**  The end of a chain names a
contract from the middle, too, and the start of the chain is a diamond then, which it has not been
before. -/
theorem relisting_reports_above :
    ∃ p : Project, p.ids.Nodup ∧ p.inheritance.hasCycles = false ∧ ∃ c ∈ p.contracts,
      ∃ b ∈ c.parents, ∃ a ∈ p.inheritance.ancestors b, a ∉ c.parents ∧
        ∃ position ≤ c.parents.length, ∃ x, .diamond c.id x ∉ p.inheritanceIssues ∧
          .diamond c.id x ∈ (p.relist c.id position a).inheritanceIssues := by
  have hp : chain.ids.Nodup := by decide
  have hacyclic : chain.inheritance.hasCycles = false := by decide
  have hc : tip ∈ chain.contracts := by simp [chain]
  have hba : "middle" ∈ chain.inheritance.ancestors "lower" :=
    mem_ancestors_iff_reaches.2 (.single inherits_chain.1)
  have hl := linearize_ne_none_of_acyclic hp hacyclic hc
  have hbefore : .diamond tip.id "root" ∉ chain.inheritanceIssues := by
    rw [mem_diamond_iff hp hc hl, not_and, not_le]
    -- one parent alone is named
    exact fun _ => Nat.lt_succ_of_le List.countP_le_length
  have hafter : .diamond tip.id "root" ∈ (chain.relist tip.id 1 "middle").inheritanceIssues :=
    (mem_diamond_relist_iff hp hacyclic hc (b := "lower") (by decide) (.single inherits_chain.1)
      (by decide)).2 ⟨by decide, Or.inr ⟨.single inherits_chain.2, by decide⟩⟩
  exact ⟨chain, hp, hacyclic, tip, hc, "lower", by decide, "middle", hba, by decide, 1, by decide,
    "root", hbefore, hafter⟩

end Project
end ContractBlocks
