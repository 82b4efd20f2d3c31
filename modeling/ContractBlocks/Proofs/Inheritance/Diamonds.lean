/-
# Diamonds

A diamond is an ancestor that is reached through two direct parents.  The parents are gone through
one after another, with what has been reached before and what has been reported already kept at hand
(`InheritanceGraph.reachedTwice`).  Of one ancestor that is no direct parent the rest of the parents
gives one report if it has not been reported and two parents reach it, the parents before counted as
one as soon as any of them has (`InheritanceGraph.count_reachedTwice`); the step is that one parent
reports an ancestor once at most, because no ancestor stands twice in its lineage
(`InheritanceGraph.count_again`).

`Project.diamonds_exact` says what this means for a project: a contract without a loop above it has
one diamond for each contract that is no direct parent and that two different direct parents reach.
-/

import ContractBlocks.Proofs.Inheritance.Shadowing
import Mathlib.Data.Finset.Card

namespace ContractBlocks

/-! ### Counting -/

/-- Two members of a list without repeats pass the test exactly if two different ones do. -/
theorem two_le_countP_iff {α : Type} [DecidableEq α] {xs : List α} (hx : xs.Nodup)
    (P : α → Bool) : 2 ≤ xs.countP P ↔ ∃ x ∈ xs, ∃ y ∈ xs, x ≠ y ∧ P x ∧ P y := by
  have hcard : (xs.filter P).toFinset.card = xs.countP P := by
    rw [List.toFinset_card_of_nodup (hx.filter P), List.countP_eq_length_filter]
  rw [← hcard, Nat.succ_le_iff, Finset.one_lt_card]
  simp only [List.mem_toFinset, List.mem_filter]
  constructor
  · rintro ⟨x, ⟨hxs, hPx⟩, y, ⟨hys, hPy⟩, hne⟩
    exact ⟨x, hxs, y, hys, hne, hPx, hPy⟩
  · rintro ⟨x, hxs, y, hys, hne, hPx, hPy⟩
    exact ⟨x, ⟨hxs, hPx⟩, y, ⟨hys, hPy⟩, hne⟩

/-! ### What a second parent reaches -/

namespace InheritanceGraph

variable {g : InheritanceGraph}

/-- The lineage of a contract is what it reaches, itself included. -/
theorem mem_lineage_iff (hg : g.Joined) {a b : ContractId} :
    b ∈ g.lineage a ↔ Relation.ReflTransGen g.Edge a b := by
  have hmem : b ∈ g.lineage a ↔ b = a ∨ b ∈ g.above a := by
    rw [lineage, List.mem_mergeSort]
    split
    · next ha => exact ⟨Or.inr, fun h => h.elim (fun hb => hb ▸ ha) id⟩
    · exact List.mem_cons
  rw [hmem, mem_above_iff hg, Relation.reflTransGen_iff_eq_or_transGen]

/-- No contract stands twice in a lineage. -/
theorem nodup_lineage (g : InheritanceGraph) (a : ContractId) : (g.lineage a).Nodup := by
  have habove : (g.above a).Nodup := nodup_walk List.nodup_nil
  rw [lineage, List.nodup_mergeSort]
  split
  · exact habove
  · next ha => exact List.nodup_cons.2 ⟨ha, habove⟩

/-- **One parent reports an ancestor once at most:** if the parent reaches it, it is no direct
parent, it has been reached before and has not been reported. -/
theorem count_again (direct seen reported : List ContractId) (x a : ContractId) :
    (((g.lineage x).filter fun b => b ∉ direct).filter fun b => b ∈ seen && b ∉ reported).count a =
      if a ∈ g.lineage x ∧ a ∉ direct ∧ a ∈ seen ∧ a ∉ reported then 1 else 0 := by
  rw [(((g.nodup_lineage x).filter _).filter _).count]
  simp only [List.mem_filter, Bool.and_eq_true, decide_eq_true_eq, and_assoc]

/-- **How often an ancestor is reported** by the rest of the parents. -/
theorem count_reachedTwice {direct : List ContractId} {a : ContractId} (ha : a ∉ direct)
    (seen reported parents : List ContractId) :
    (g.reachedTwice direct seen reported parents).count a =
      if a ∉ reported ∧
          2 ≤ (if a ∈ seen then 1 else 0) + parents.countP fun x => a ∈ g.lineage x
        then 1 else 0 := by
  induction parents generalizing seen reported with
  | nil =>
    have hle : (if a ∈ seen then 1 else 0) ≤ 1 := by split <;> omega
    rw [reachedTwice, List.count_nil, List.countP_nil, if_neg fun h => by omega]
  | cons x rest ih =>
    have hseen : a ∈ seen ++ (g.lineage x).filter (fun b => b ∉ direct) ↔
        a ∈ seen ∨ a ∈ g.lineage x := by
      simp [ha]
    have hreported : a ∈ reported ++ ((g.lineage x).filter fun b => b ∉ direct).filter
        (fun b => b ∈ seen && b ∉ reported) ↔ a ∈ reported ∨ a ∈ g.lineage x ∧ a ∈ seen := by
      simp only [List.mem_append, List.mem_filter, Bool.and_eq_true, decide_eq_true_eq]
      tauto
    rw [reachedTwice, List.count_append, count_again, ih, List.countP_cons]
    simp only [hseen, hreported]
    generalize (rest.countP fun y => decide (a ∈ g.lineage y)) = n
    by_cases hr : a ∈ reported
    · -- it has been reported, so it is not reported again
      simp [hr]
    · by_cases hx : a ∈ g.lineage x
      · by_cases hs : a ∈ seen
        · -- this is the second parent, which reports it
          have htwo : 2 ≤ 1 + (n + 1) := by omega
          simp [ha, hr, hx, hs, htwo]
        · -- this is the first parent, which takes the place of those before
          have hcomm : 1 + n = 0 + (n + 1) := by omega
          simp [hr, hx, hs, hcomm]
      · -- this parent does not matter
        simp [hr, hx]

/-- A direct parent is never reported. -/
theorem not_mem_reachedTwice {direct : List ContractId} {a : ContractId} (ha : a ∈ direct)
    (seen reported parents : List ContractId) :
    a ∉ g.reachedTwice direct seen reported parents := by
  induction parents generalizing seen reported with
  | nil => exact List.not_mem_nil
  | cons x rest ih =>
    rw [reachedTwice, List.mem_append, not_or]
    refine ⟨fun hmem => ?_, ih _ _⟩
    have hdirect := (List.mem_filter.1 (List.mem_filter.1 hmem).1).2
    exact of_decide_eq_true hdirect ha

end InheritanceGraph

/-! ### The diamonds of a contract -/

namespace Project

variable {p : Project} {c : Contract} {a : ContractId}

/-- The ancestor is no direct parent of the contract, and two different direct parents reach it. -/
def IsDiamond (p : Project) (c : Contract) (a : ContractId) : Prop :=
  a ∉ c.parents ∧ ∃ x ∈ c.parents, ∃ y ∈ c.parents, x ≠ y ∧
    Relation.ReflTransGen p.Inherits x a ∧ Relation.ReflTransGen p.Inherits y a

/-- The lineage of a contract is what can be reached from it, itself included. -/
theorem mem_lineage_iff_reaches {x y : ContractId} :
    y ∈ p.inheritance.lineage x ↔ Relation.ReflTransGen p.Inherits x y := by
  rw [InheritanceGraph.mem_lineage_iff p.inheritance_joined, edge_eq_inherits]

/-- The parents that are found are those that are registered. -/
theorem ids_knownParents (p : Project) (c : Contract) :
    (c.knownParents p.contract?).map Contract.id = c.parents.filter fun r => r ∈ p.ids := by
  rw [Contract.knownParents]
  induction c.parents with
  | nil => rfl
  | cons r rest ih =>
    rw [List.filterMap_cons, List.filter_cons, ← ih]
    cases hr : p.contract? r with
    | none =>
      have hids : r ∉ p.ids := contract?_eq_none_iff.1 hr
      simp [hids]
    | some d =>
      have hids : r ∈ p.ids := exists_contract?_iff.1 ⟨d, hr⟩
      simp [hids, id_of_contract? hr]

/-- What a registered contract reaches is registered. -/
theorem mem_ids_of_reaches {x : ContractId} (hx : x ∈ p.ids)
    (h : Relation.ReflTransGen p.Inherits x a) : a ∈ p.ids := by
  rcases Relation.ReflTransGen.cases_tail h with rfl | ⟨b, -, hb⟩
  · exact hx
  · exact hb.2

/-- What reaches another contract is registered. -/
theorem mem_ids_of_reaches_ne {x : ContractId} (hne : x ≠ a)
    (h : Relation.ReflTransGen p.Inherits x a) : x ∈ p.ids := by
  rcases Relation.ReflTransGen.cases_head h with rfl | ⟨b, ⟨⟨d, hd, rfl, -⟩, -⟩, -⟩
  · exact absurd rfl hne
  · exact List.mem_map_of_mem hd

/-- How many of the parents that a contract names reach another contract. A parent counts as often
as it is named. -/
def reachedBy (p : Project) (c : Contract) (a : ContractId) : Nat :=
  c.parents.countP fun r => a ∈ p.inheritance.lineage r

/-- Parents that are missing reach nothing but themselves. -/
theorem countP_registered (ha : a ∉ c.parents) :
    (c.parents.filter fun r => r ∈ p.ids).countP (fun r => a ∈ p.inheritance.lineage r) =
      p.reachedBy c a := by
  rw [List.countP_filter, reachedBy]
  refine List.countP_congr fun r hr => ?_
  simp only [Bool.and_eq_true, decide_eq_true_eq, and_iff_left_iff_imp]
  intro hra
  exact mem_ids_of_reaches_ne (ne_of_mem_of_not_mem hr ha) (mem_lineage_iff_reaches.1 hra)

/-- A contract that is not registered is not reached from a registered one. -/
theorem countP_of_notMem_ids (ha : a ∉ p.ids) :
    (c.parents.filter fun r => r ∈ p.ids).countP (fun r => a ∈ p.inheritance.lineage r) = 0 := by
  refine List.countP_eq_zero.2 fun r hr hra => ha ?_
  rw [decide_eq_true_eq, mem_lineage_iff_reaches] at hra
  exact mem_ids_of_reaches (by simpa using (List.mem_filter.1 hr).2) hra

/-- **How often a diamond is found:** once if the ancestor is no direct parent and parents that the
contract names reach it twice. -/
theorem count_diamonds_eq (p : Project) (c : Contract) (a : ContractId) :
    (p.diamonds c).count (.diamond c.id a) =
      if a ∉ c.parents ∧ 2 ≤ p.reachedBy c a then 1 else 0 := by
  set direct := c.parents.filter fun r => r ∈ p.ids with hdirect
  have hinjective : Function.Injective (InheritanceIssue.diamond c.id) := fun x y h =>
    (InheritanceIssue.diamond.inj h).2
  have hcount : (p.diamonds c).count (.diamond c.id a) =
      (p.inheritance.reachedTwice direct [] [] direct).count a := by
    rw [diamonds, ids_knownParents, ← hdirect]
    exact List.count_map_of_injective _ _ hinjective a
  rw [hcount]
  by_cases ha : a ∈ c.parents
  · rw [if_neg fun h => h.1 ha]
    by_cases hids : a ∈ p.ids
    · have hmem : a ∈ direct := List.mem_filter.2 ⟨ha, by simpa using hids⟩
      exact List.count_eq_zero.2 (InheritanceGraph.not_mem_reachedTwice hmem [] [] direct)
    · have hmem : a ∉ direct := fun h => hids (by simpa using (List.mem_filter.1 h).2)
      rw [InheritanceGraph.count_reachedTwice hmem, countP_of_notMem_ids hids]
      simp
  · have hmem : a ∉ direct := fun h => ha (List.mem_filter.1 h).1
    rw [InheritanceGraph.count_reachedTwice hmem, countP_registered ha]
    simp [ha]

/-- How often a diamond is found where no parent is named twice. -/
theorem count_diamonds (hparents : c.parents.Nodup) :
    (p.IsDiamond c a → (p.diamonds c).count (.diamond c.id a) = 1) ∧
      (¬p.IsDiamond c a → (p.diamonds c).count (.diamond c.id a) = 0) := by
  have htwo : 2 ≤ p.reachedBy c a ↔ ∃ x ∈ c.parents, ∃ y ∈ c.parents, x ≠ y ∧
      Relation.ReflTransGen p.Inherits x a ∧ Relation.ReflTransGen p.Inherits y a := by
    rw [reachedBy, two_le_countP_iff hparents]
    simp only [decide_eq_true_eq, mem_lineage_iff_reaches]
  rw [count_diamonds_eq, IsDiamond, ← htwo]
  exact ⟨fun h => if_pos h, fun h => if_neg h⟩

/-- Without a loop above a contract, a diamond is reported about it as often as it is found. -/
theorem count_diamond_inheritanceIssues (hp : p.ids.Nodup) (hc : c ∈ p.contracts)
    (hl : p.linearize c.id ≠ none) :
    p.inheritanceIssues.count (.diamond c.id a) = (p.diamonds c).count (.diamond c.id a) := by
  have hambiguities : (p.ambiguities c).count (.diamond c.id a) = 0 := by
    refine List.count_eq_zero.2 fun h => ?_
    obtain ⟨s, sources, he⟩ := contract_eq_of_mem_ambiguities h
    cases he
  have hsubject : (decide ((InheritanceIssue.diamond c.id a).subject? = some c.id)) = true :=
    decide_eq_true rfl
  rw [← List.count_filter (p := fun i : InheritanceIssue => i.subject? = some c.id) hsubject,
    filter_subject?_eq hp hc hl, List.count_append, hambiguities, Nat.add_zero]

/-- A diamond is found exactly if the ancestor is no direct parent and parents that the contract
names reach it twice. -/
theorem mem_diamonds_iff : .diamond c.id a ∈ p.diamonds c ↔ a ∉ c.parents ∧ 2 ≤ p.reachedBy c a := by
  rw [← List.count_pos_iff, count_diamonds_eq]
  split
  · next h => exact iff_of_true Nat.one_pos h
  · next h => exact iff_of_false (lt_irrefl 0) h

/-- The diamonds that are reported are those found for the registered contracts that have no loop
above them. -/
theorem mem_diamond_iff_exists (hp : p.ids.Nodup) {id : ContractId} :
    .diamond id a ∈ p.inheritanceIssues ↔
      ∃ c ∈ p.contracts, c.id = id ∧ p.linearize id ≠ none ∧ a ∉ c.parents ∧
        2 ≤ p.reachedBy c a := by
  have hsubject : (InheritanceIssue.diamond id a).subject? ≠ none := Option.some_ne_none id
  rw [mem_inheritanceIssues_iff_exists hp hsubject]
  refine exists_congr fun c => and_congr_right fun _ => ?_
  constructor
  · rintro ⟨hl, h⟩
    obtain rfl : id = c.id := Option.some.inj (subject?_of_mem h)
    rcases List.mem_append.1 h with h | h
    · exact ⟨rfl, hl, mem_diamonds_iff.1 h⟩
    · obtain ⟨s, sources, heq⟩ := contract_eq_of_mem_ambiguities h
      cases heq
  · rintro ⟨rfl, hl, h⟩
    exact ⟨hl, List.mem_append_left _ (mem_diamonds_iff.2 h)⟩

/-- Without a loop above a contract, a diamond is reported about it exactly if the ancestor is no
direct parent and parents that the contract names reach it twice. -/
theorem mem_diamond_iff (hp : p.ids.Nodup) (hc : c ∈ p.contracts) (hl : p.linearize c.id ≠ none) :
    .diamond c.id a ∈ p.inheritanceIssues ↔ a ∉ c.parents ∧ 2 ≤ p.reachedBy c a := by
  rw [← List.count_pos_iff, count_diamond_inheritanceIssues hp hc hl, List.count_pos_iff,
    mem_diamonds_iff]

/-- **The diamonds of a contract are reported, each once.**  Let no loop be above a contract that
names no parent twice.  A diamond is reported about it exactly if the ancestor is no direct parent
and two different direct parents reach it, and then there is one report, however many parents do. -/
theorem diamonds_exact (hp : p.ids.Nodup) (hc : c ∈ p.contracts) (hparents : c.parents.Nodup)
    (hacyclic : ∀ b, Relation.TransGen p.Inherits c.id b → ¬Relation.TransGen p.Inherits b b)
    (a : ContractId) :
    (.diamond c.id a ∈ p.inheritanceIssues ↔ a ∉ c.parents ∧
      ∃ x ∈ c.parents, ∃ y ∈ c.parents, x ≠ y ∧
        Relation.ReflTransGen p.Inherits x a ∧ Relation.ReflTransGen p.Inherits y a) ∧
    (.diamond c.id a ∈ p.inheritanceIssues →
      p.inheritanceIssues.count (.diamond c.id a) = 1) := by
  have hl := linearize_ne_none_of_loopless hp hc hacyclic
  have hcount := count_diamond_inheritanceIssues (a := a) hp hc hl
  obtain ⟨hone, hzero⟩ := count_diamonds (p := p) (a := a) hparents
  rw [← hcount] at hone hzero
  have hmem : .diamond c.id a ∈ p.inheritanceIssues ↔ p.IsDiamond c a := by
    rw [← List.count_pos_iff]
    constructor
    · intro hpos
      by_contra hnot
      have := hzero hnot
      omega
    · intro h
      have := hone h
      omega
  exact ⟨hmem, fun h => hone (hmem.1 h)⟩

/-- Where contracts inherit only from contracts of lower rank, all above them are of lower rank. -/
theorem rank_lt_of_reaches {rank : ContractId → Nat}
    (hrank : ∀ a b, p.Inherits a b → rank b < rank a) {a b : ContractId}
    (h : Relation.TransGen p.Inherits a b) : rank b < rank a := by
  induction h with
  | single h => exact hrank _ _ h
  | tail _ h ih => exact (hrank _ _ h).trans ih

/-- Where contracts inherit only from contracts of lower rank, there is no loop. -/
theorem acyclic_of_rank {rank : ContractId → Nat}
    (hrank : ∀ a b, p.Inherits a b → rank b < rank a) (a : ContractId) :
    ¬Relation.TransGen p.Inherits a a :=
  fun h => (rank_lt_of_reaches hrank h).false

/-- Where contracts inherit only from contracts before them, all above them stand before them. -/
theorem idxOf_lt_of_reaches
    (hedges : ∀ e ∈ p.inheritance.edges, p.ids.idxOf e.2 < p.ids.idxOf e.1) {a b : ContractId}
    (h : Relation.TransGen p.Inherits a b) : p.ids.idxOf b < p.ids.idxOf a := by
  have hrank : ∀ a b, p.Inherits a b → p.ids.idxOf b < p.ids.idxOf a := fun a b h => by
    rw [← edge_eq_inherits] at h
    exact hedges (a, b) h
  exact rank_lt_of_reaches hrank h

namespace Fan

/-- A contract with a parent that is missing and three that reach `base`, of which one also reaches
another. -/
def tip : Contract := ⟨"tip", "Tip", [], ["left", "gone", "middle", "right"]⟩

/-- The contract with all that is above it, those without parents first. -/
def fan : Project where
  id := "p"
  name := "Fan"
  contracts := [⟨"root", "Root", [], []⟩, ⟨"base", "Base", [], ["root"]⟩,
    ⟨"left", "Left", [], ["base", "base"]⟩, ⟨"middle", "Middle", [], ["base"]⟩,
    ⟨"right", "Right", [], ["left", "base"]⟩, tip]
  currentId := none
  deployment := .idle

/-- Contracts inherit from those before them. -/
theorem fan_rank (a b : ContractId) (h : fan.Inherits a b) :
    fan.ids.idxOf b < fan.ids.idxOf a := by
  have hall : ∀ e ∈ fan.inheritance.edges, fan.ids.idxOf e.2 < fan.ids.idxOf e.1 := by decide
  rw [← edge_eq_inherits] at h
  exact hall (a, b) h

end Fan

open Fan in
theorem diamonds_exact_fan :
    fan.ids.Nodup ∧ tip ∈ fan.contracts ∧ tip.parents.Nodup ∧
      (∀ b, Relation.TransGen fan.Inherits tip.id b → ¬Relation.TransGen fan.Inherits b b) ∧
      fan.inheritanceIssues.count (.diamond "tip" "base") = 1 ∧
      .diamond "tip" "left" ∉ fan.inheritanceIssues := by
  have hp : fan.ids.Nodup := by decide
  have hc : tip ∈ fan.contracts := by simp [fan]
  have hparents : tip.parents.Nodup := by decide
  have hacyclic : ∀ b, Relation.TransGen fan.Inherits tip.id b →
      ¬Relation.TransGen fan.Inherits b b := fun b _ => acyclic_of_rank fan_rank b
  have hedge : ∀ e ∈ [("left", "base"), ("middle", "base")], fan.Inherits e.1 e.2 := by
    rw [← edge_eq_inherits]
    show ∀ e ∈ _, e ∈ fan.inheritance.edges
    decide
  have hleft : fan.Inherits "left" "base" := hedge ("left", "base") (by decide)
  have hmiddle : fan.Inherits "middle" "base" := hedge ("middle", "base") (by decide)
  obtain ⟨hbase, hone⟩ := diamonds_exact hp hc hparents hacyclic "base"
  have hmem : .diamond tip.id "base" ∈ fan.inheritanceIssues :=
    hbase.2 ⟨by decide, "left", by decide, "middle", by decide, by decide, .single hleft,
      .single hmiddle⟩
  obtain ⟨hdirect, -⟩ := diamonds_exact hp hc hparents hacyclic "left"
  exact ⟨hp, hc, hparents, hacyclic, hone hmem, fun h => (hdirect.1 h).1 (by decide)⟩

end Project

end ContractBlocks
