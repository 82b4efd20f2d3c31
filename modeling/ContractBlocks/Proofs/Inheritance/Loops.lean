/-
# Loops of the inheritance graph

A contract is on a loop if it can be reached from itself (`InheritanceGraph.OnLoop`).  Two functions
look for loops in different ways.  Peeling takes away the contracts that have no parent left, round
by round: a contract on a loop is never taken away, and a graph in which every contract that is left
has a parent left has a loop (`InheritanceGraph.hasCycles_iff`).  Grouping puts the contracts that
reach each other together: of a set that holds with a contract all that it shares a loop with, each
group is one such class (`InheritanceGraph.groups_spec`), and the groups that count as loops hold
exactly the contracts on loops (`InheritanceGraph.mem_cycles_iff`).
-/

import ContractBlocks.Proofs.Inheritance.Reach
import Mathlib.Order.WellFounded
import Mathlib.Data.Fintype.EquivFin
import Mathlib.Data.Fintype.Sets

namespace ContractBlocks
namespace InheritanceGraph

variable {g : InheritanceGraph}

/-- The contract can be reached from itself. -/
def OnLoop (g : InheritanceGraph) (a : ContractId) : Prop := Relation.TransGen g.Edge a a

/-- The two contracts can be reached from each other. -/
def Mutual (g : InheritanceGraph) (a b : ContractId) : Prop :=
  Relation.TransGen g.Edge a b ∧ Relation.TransGen g.Edge b a

theorem Mutual.symm {a b : ContractId} (h : g.Mutual a b) : g.Mutual b a := ⟨h.2, h.1⟩

theorem Mutual.trans {a b c : ContractId} (h : g.Mutual a b) (h' : g.Mutual b c) :
    g.Mutual a c :=
  ⟨h.1.trans h'.1, h'.2.trans h.2⟩

theorem Mutual.onLoop {a b : ContractId} (h : g.Mutual a b) : g.OnLoop a := h.1.trans h.2

/-! ### Peeling -/

/-- **Where every contract has a parent, there is a loop.**  Otherwise being above would be a strict
order on finitely many contracts, and one of them would have nothing above it. -/
theorem exists_onLoop {S : List ContractId} (hne : S ≠ [])
    (hS : ∀ a ∈ S, ∃ b ∈ S, g.Edge a b) : ∃ a ∈ S, g.OnLoop a := by
  by_contra hno
  let r : {a // a ∈ S} → {a // a ∈ S} → Prop := fun b a => Relation.TransGen g.Edge a.1 b.1
  have : IsTrans {a // a ∈ S} r := ⟨fun _ _ _ hab hbc => hbc.trans hab⟩
  have : Std.Irrefl r := ⟨fun a ha => hno ⟨a.1, a.2, ha⟩⟩
  have hwf : WellFounded r := Finite.wellFounded_of_trans_of_irrefl r
  obtain ⟨a, ha⟩ := List.exists_mem_of_ne_nil S hne
  obtain ⟨m, -, hm⟩ := hwf.has_min Set.univ ⟨⟨a, ha⟩, trivial⟩
  obtain ⟨b, hb, he⟩ := hS m.1 m.2
  exact hm ⟨b, hb⟩ trivial (.single he)

/-- A contract that has a parent among the rest stays. -/
theorem mem_peel {P : ContractId → Prop} (hP : ∀ a, P a → ∃ b, g.Edge a b ∧ P b) (n : Nat)
    {left : List ContractId} (hleft : ∀ a, P a → a ∈ left) {a : ContractId} (ha : P a) :
    a ∈ g.peel n left := by
  induction n generalizing left with
  | zero => exact hleft a ha
  | succ n ih =>
    refine ih fun b hb => ?_
    obtain ⟨c, hc, hPc⟩ := hP b hb
    rw [List.mem_filter, List.any_eq_true]
    exact ⟨hleft b hb, c, mem_parents_iff.2 hc, by simpa using hleft c hPc⟩

theorem peel_nil (n : Nat) : g.peel n [] = [] := by
  induction n with
  | zero => rfl
  | succ n ih => exact ih

/-- What is left after as many rounds as there were contracts is a set in which every contract has a
parent, if anything is left at all. -/
theorem peel_closed {n : Nat} {left : List ContractId} (hn : left.length ≤ n)
    (hne : g.peel n left ≠ []) :
    ∃ S : List ContractId, S ≠ [] ∧ ∀ a ∈ S, ∃ b ∈ S, g.Edge a b := by
  induction n generalizing left with
  | zero => exact absurd (List.length_eq_zero_iff.1 (Nat.le_zero.1 hn)) hne
  | succ n ih =>
    rw [peel] at hne
    set rest := left.filter fun id => (g.parents id).any fun p => p ∈ left with hrest
    have hsub : rest.Sublist left := List.filter_sublist
    by_cases hlt : rest.length < left.length
    · exact ih (by omega) hne
    · have heq : rest = left := hsub.eq_of_length (by have := hsub.length_le; omega)
      refine ⟨left, ?_, fun a ha => ?_⟩
      · rintro rfl
        exact hne (heq ▸ peel_nil n)
      · rw [← heq, hrest, List.mem_filter, List.any_eq_true] at ha
        obtain ⟨-, b, hb, hl⟩ := ha
        exact ⟨b, by simpa using hl, mem_parents_iff.1 hb⟩

/-- **There are cycles exactly if some contract is on a loop.** -/
theorem hasCycles_iff (hg : g.Joined) : g.hasCycles ↔ ∃ a, g.OnLoop a := by
  have hb : g.hasCycles ↔ g.peel g.nodes.length g.nodes ≠ [] := by simp [hasCycles]
  rw [hb]
  constructor
  · intro hne
    obtain ⟨S, hS, hc⟩ := peel_closed (Nat.le_refl _) hne
    obtain ⟨a, -, ha⟩ := exists_onLoop hS hc
    exact ⟨a, ha⟩
  · rintro ⟨a, ha⟩
    refine List.ne_nil_of_mem (mem_peel (P := g.OnLoop) ?_ _ ?_ ha)
    · intro a ha
      obtain ⟨b, hb, hr⟩ := Relation.TransGen.head'_iff.1 ha
      exact ⟨b, hb, Relation.TransGen.tail' hr hb⟩
    · exact fun a ha => (hg.mem_nodes ha).1

/-! ### Groups -/

theorem mem_mutualWith_iff (hg : g.Joined) {n m : ContractId} {others : List ContractId} :
    m ∈ g.mutualWith n others ↔ m ∈ others ∧ g.Mutual n m := by
  rw [mutualWith, List.mem_filter, Bool.and_eq_true, decide_eq_true_iff, decide_eq_true_iff,
    mem_above_iff hg, mem_below_iff hg, Mutual]

theorem groups_cons (n : ContractId) (rest : List ContractId) :
    g.groups (n :: rest) =
      (n :: g.mutualWith n rest) ::
        g.groups (rest.filter fun m => m ∉ g.mutualWith n rest) := by
  rw [groups]

/-- The list holds with a contract all that it shares a loop with. -/
def Whole (g : InheritanceGraph) (ns : List ContractId) : Prop :=
  ∀ a ∈ ns, ∀ b, g.Mutual a b → b ∈ ns

/-- A group is one contract with all others that it shares a loop with. -/
def IsGroup (g : InheritanceGraph) (group : List ContractId) : Prop :=
  ∃ n others, group = n :: others ∧ (∀ m ∈ others, g.Mutual n m) ∧
    ∀ m, g.Mutual n m → m ≠ n → m ∈ others

/-- **Grouping splits a whole list into its groups.** -/
theorem groups_spec (hg : g.Joined) {ns : List ContractId} (hns : g.Whole ns) :
    (∀ group ∈ g.groups ns, g.IsGroup group) ∧
      ∀ a, (∃ group ∈ g.groups ns, a ∈ group) ↔ a ∈ ns := by
  induction hl : ns.length using Nat.strong_induction_on generalizing ns with
  | _ l ih =>
    cases ns with
    | nil => simp [groups]
    | cons n rest =>
      set others := g.mutualWith n rest with ho
      set left := rest.filter fun m => m ∉ others with hleft
      have hmem : ∀ m, m ∈ others ↔ m ∈ rest ∧ g.Mutual n m := fun m => mem_mutualWith_iff hg
      have hmem' : ∀ m, m ∈ left ↔ m ∈ rest ∧ ¬g.Mutual n m := by
        intro m
        rw [hleft, List.mem_filter, decide_eq_true_iff, hmem]
        exact ⟨fun h => ⟨h.1, fun hm => h.2 ⟨h.1, hm⟩⟩, fun h => ⟨h.1, fun hm => h.2 hm.2⟩⟩
      have hwhole : g.Whole left := by
        intro a ha b hab
        obtain ⟨har, hna⟩ := (hmem' a).1 ha
        have hnb : ¬g.Mutual n b := fun hnb => hna (hnb.trans hab.symm)
        rcases List.mem_cons.1 (hns a (List.mem_cons_of_mem _ har) b hab) with rfl | hb
        · exact absurd hab.symm hna
        · exact (hmem' b).2 ⟨hb, hnb⟩
      have hlt : left.length < l := by
        have := List.length_filter_le (fun m => decide (m ∉ others)) rest
        rw [← hl, List.length_cons]
        exact Nat.lt_succ_of_le this
      obtain ⟨hgroups, hcover⟩ := ih left.length hlt hwhole rfl
      rw [groups_cons, ← ho, ← hleft]
      refine ⟨fun group hgr => ?_, fun a => ?_⟩
      · rcases List.mem_cons.1 hgr with rfl | hgr
        · refine ⟨n, others, rfl, fun m hm => ((hmem m).1 hm).2, fun m hm hne => ?_⟩
          rcases List.mem_cons.1 (hns n List.mem_cons_self m hm) with he | hr
          · exact absurd he hne
          · exact (hmem m).2 ⟨hr, hm⟩
        · exact hgroups group hgr
      · simp only [List.mem_cons, exists_eq_or_imp]
        rw [hcover a, hmem' a, hmem a]
        by_cases hm : g.Mutual n a
        · simp [hm]
        · simp [hm]

/-- **A group counts as a loop exactly if any of its members is on a loop,** and then all are. -/
theorem IsGroup.isLoop_iff {group : List ContractId} (h : g.IsGroup group) {a : ContractId}
    (ha : a ∈ group) : g.isLoop group ↔ g.OnLoop a := by
  obtain ⟨n, others, rfl, hm, hall⟩ := h
  cases others with
  | nil =>
    obtain rfl := List.mem_singleton.1 ha
    rw [isLoop, List.contains_iff_mem, mem_parents_iff]
    constructor
    · exact fun he => .single he
    · intro hl
      obtain ⟨b, hb, hr⟩ := Relation.TransGen.head'_iff.1 hl
      rcases Relation.reflTransGen_iff_eq_or_transGen.1 hr with rfl | ht
      · exact hb
      · by_cases hne : b = a
        · exact hne ▸ hb
        · exact absurd (hall b ⟨.single hb, ht⟩ hne) List.not_mem_nil
  | cons o others =>
    refine ⟨fun _ => ?_, fun _ => rfl⟩
    rcases List.mem_cons.1 ha with rfl | ha
    · exact (hm o List.mem_cons_self).onLoop
    · exact (hm a ha).symm.onLoop

/-- The nodes of a graph whose edges join nodes are whole. -/
theorem Joined.whole (hg : g.Joined) : g.Whole g.nodes := fun _ _ _ h => (hg.mem_nodes h.1).2

theorem mem_cycles {group : List ContractId} :
    group ∈ g.cycles ↔
      ∃ members ∈ g.groups g.nodes, g.isLoop members ∧
        (members.mergeSort fun a b => a ≤ b) = group := by
  rw [cycles, List.mem_mergeSort, List.mem_map]
  simp only [List.mem_filter, and_assoc]

/-- **The cycles hold exactly the contracts on loops.** -/
theorem mem_cycles_iff (hg : g.Joined) {a : ContractId} :
    (∃ group ∈ g.cycles, a ∈ group) ↔ g.OnLoop a := by
  obtain ⟨hgroups, hcover⟩ := groups_spec hg hg.whole
  constructor
  · rintro ⟨group, hgr, ha⟩
    obtain ⟨members, hm, hl, rfl⟩ := mem_cycles.1 hgr
    rw [List.mem_mergeSort] at ha
    exact ((hgroups members hm).isLoop_iff ha).1 hl
  · intro ha
    obtain ⟨members, hm, ham⟩ := (hcover a).2 (hg.mem_nodes ha).1
    refine ⟨_, mem_cycles.2 ⟨members, hm, ((hgroups members hm).isLoop_iff ham).2 ha, rfl⟩, ?_⟩
    rwa [List.mem_mergeSort]

/-- There is a cycle exactly if some contract is on a loop. -/
theorem cycles_ne_nil_iff (hg : g.Joined) : g.cycles ≠ [] ↔ ∃ a, g.OnLoop a := by
  constructor
  · intro hne
    obtain ⟨group, hgr⟩ := List.exists_mem_of_ne_nil _ hne
    obtain ⟨members, hm, -, rfl⟩ := mem_cycles.1 hgr
    obtain ⟨n, others, rfl, -, -⟩ := (groups_spec hg hg.whole).1 members hm
    exact ⟨n, (mem_cycles_iff hg).1 ⟨_, hgr, List.mem_mergeSort.2 List.mem_cons_self⟩⟩
  · rintro ⟨a, ha⟩
    obtain ⟨group, hgr, -⟩ := (mem_cycles_iff hg).2 ha
    exact List.ne_nil_of_mem hgr

end InheritanceGraph
end ContractBlocks
