/-
# The loops of a project are a partition

Contracts that can be reached from each other make up a component of the inheritance graph
(`InheritanceGraph.IsComponents`).  Of the components of a graph, however they are found and in
whatever order they come, those that are loops are put in order (`InheritanceGraph.loopsOf`).  What
comes out does not depend on how they were found: a list stands in it exactly if it holds, in order
and once, a contract on a loop with all that share a loop with it (`mem_loopsOf_iff`), and two lists
in strict order with the same members are the same.  `cycles` is such a list, too, found by grouping
(`cycles_eq_loopsOf`).

`Project.cycles_partition` says what this means for a project: its loops are disjoint and cover the
contracts that inherit from themselves, they are the same for every order of the contracts, and each
is reported once.
-/

import ContractBlocks.Proofs.Inheritance.Shadowing
import Mathlib.Data.List.Lex

namespace ContractBlocks
namespace InheritanceGraph

variable {g : InheritanceGraph} {components : List (List ContractId)}

/-! ### Components -/

/-- The lists are the components of the graph: each node stands in one of them, once, together with
the contracts that it reaches and that reach it. -/
structure IsComponents (g : InheritanceGraph) (components : List (List ContractId)) : Prop where
  ne_nil : ∀ component ∈ components, component ≠ []
  nodup : components.flatten.Nodup
  mem_iff : ∀ a, a ∈ components.flatten ↔ a ∈ g.nodes
  together_iff : ∀ component ∈ components, ∀ a ∈ component, ∀ b, b ∈ component ↔
    Relation.ReflTransGen g.Edge a b ∧ Relation.ReflTransGen g.Edge b a

/-- The loops among the components, each in order of identity, in order. -/
def loopsOf (g : InheritanceGraph) (components : List (List ContractId)) :
    List (List ContractId) :=
  ((components.filter g.isLoop).map fun c => c.mergeSort fun a b => a ≤ b).mergeSort
    fun c d => c ≤ d

/-- Different contracts that reach each other share a loop. -/
theorem mutual_of_ne {a b : ContractId} (hab : Relation.ReflTransGen g.Edge a b)
    (hba : Relation.ReflTransGen g.Edge b a) (hne : b ≠ a) : g.Mutual a b := by
  have hab' := (Relation.reflTransGen_iff_eq_or_transGen.1 hab).resolve_left hne
  have hba' := (Relation.reflTransGen_iff_eq_or_transGen.1 hba).resolve_left hne.symm
  exact ⟨hab', hba'⟩

/-- A component is a group. -/
theorem IsComponents.isGroup (h : g.IsComponents components) {component : List ContractId}
    (hc : component ∈ components) : g.IsGroup component := by
  have hnodup : component.Nodup := (List.nodup_flatten.1 h.nodup).1 component hc
  obtain ⟨n, others, rfl⟩ := List.exists_cons_of_ne_nil (h.ne_nil component hc)
  have hmem := h.together_iff _ hc n List.mem_cons_self
  refine ⟨n, others, rfl, fun m hm => ?_, fun m hm hne => ?_⟩
  · have hne : m ≠ n := fun heq => (List.nodup_cons.1 hnodup).1 (heq ▸ hm)
    obtain ⟨hnm, hmn⟩ := (hmem m).1 (List.mem_cons_of_mem _ hm)
    exact mutual_of_ne hnm hmn hne
  · have hm' := (hmem m).2 ⟨hm.1.to_reflTransGen, hm.2.to_reflTransGen⟩
    exact (List.mem_cons.1 hm').resolve_left hne

/-! ### Loops in order -/

/-- The list holds, in order and once, a contract on a loop with all that share a loop with it. -/
structure IsLoopGroup (g : InheritanceGraph) (group : List ContractId) : Prop where
  ne_nil : group ≠ []
  pairwise : group.Pairwise (· < ·)
  mem_iff : ∀ a ∈ group, ∀ b, b ∈ group ↔ g.Mutual a b

/-- Lists in strict order with the same members are the same. -/
theorem eq_of_pairwise_lt {α : Type} [LinearOrder α] {xs ys : List α} (hx : xs.Pairwise (· < ·))
    (hy : ys.Pairwise (· < ·)) (h : ∀ a, a ∈ xs ↔ a ∈ ys) : xs = ys := by
  have : Std.Antisymm fun a b : α => a < b := ⟨fun a b hab hba => absurd hab (lt_asymm hba)⟩
  exact hx.eq_of_mem_iff hy h

/-- Groups with a common member are the same. -/
theorem IsLoopGroup.eq_of_mem {c d : List ContractId} (hc : g.IsLoopGroup c)
    (hd : g.IsLoopGroup d) {a : ContractId} (hac : a ∈ c) (had : a ∈ d) : c = d :=
  eq_of_pairwise_lt hc.pairwise hd.pairwise fun b => by
    rw [hc.mem_iff a hac, hd.mem_iff a had]

/-- A component that counts as a loop is such a group once it is in order. -/
theorem IsComponents.isLoopGroup (h : g.IsComponents components) {component : List ContractId}
    (hc : component ∈ components) (hloop : g.isLoop component) :
    g.IsLoopGroup (component.mergeSort fun a b => a ≤ b) := by
  have hnodup : component.Nodup := (List.nodup_flatten.1 h.nodup).1 component hc
  refine ⟨fun hnil => ?_, pairwise_lt_mergeSort hnodup, fun a ha b => ?_⟩
  · have hlen := congrArg List.length hnil
    rw [List.length_mergeSort] at hlen
    exact h.ne_nil component hc (List.length_eq_zero_iff.1 hlen)
  · rw [List.mem_mergeSort] at ha ⊢
    rw [h.together_iff component hc a ha]
    have hself : g.OnLoop a := ((h.isGroup hc).isLoop_iff ha).1 hloop
    constructor
    · rintro ⟨hab, hba⟩
      by_cases hne : b = a
      · rw [hne]
        exact ⟨hself, hself⟩
      · exact mutual_of_ne hab hba hne
    · exact fun hm => ⟨hm.1.to_reflTransGen, hm.2.to_reflTransGen⟩

/-- **What the loops among the components are** does not depend on how the components were found. -/
theorem mem_loopsOf_iff (hg : g.Joined) (h : g.IsComponents components)
    {group : List ContractId} : group ∈ g.loopsOf components ↔ g.IsLoopGroup group := by
  rw [loopsOf, List.mem_mergeSort, List.mem_map]
  constructor
  · rintro ⟨component, hc, rfl⟩
    obtain ⟨hc, hloop⟩ := List.mem_filter.1 hc
    exact h.isLoopGroup hc hloop
  · intro hgroup
    obtain ⟨a, ha⟩ := List.exists_mem_of_ne_nil _ hgroup.ne_nil
    have hself : g.OnLoop a := ((hgroup.mem_iff a ha a).1 ha).1
    have hnode : a ∈ g.nodes := (hg.mem_nodes hself).1
    obtain ⟨component, hc, hac⟩ := List.mem_flatten.1 ((h.mem_iff a).2 hnode)
    have hloop : g.isLoop component := ((h.isGroup hc).isLoop_iff hac).2 hself
    refine ⟨component, List.mem_filter.2 ⟨hc, hloop⟩, ?_⟩
    exact (h.isLoopGroup hc hloop).eq_of_mem hgroup (List.mem_mergeSort.2 hac) ha

/-- No loop is found twice. -/
theorem IsComponents.nodup_sorted (h : g.IsComponents components) :
    ((components.filter g.isLoop).map fun c => c.mergeSort fun a b => a ≤ b).Nodup := by
  have hdisjoint : components.Pairwise List.Disjoint := (List.nodup_flatten.1 h.nodup).2
  refine List.pairwise_map.2 ((hdisjoint.sublist List.filter_sublist).imp_of_mem ?_)
  intro c d hc hd hcd heq
  obtain ⟨a, ha⟩ := List.exists_mem_of_ne_nil c (h.ne_nil c (List.mem_filter.1 hc).1)
  have ha' : a ∈ d.mergeSort fun a b => a ≤ b := heq ▸ List.mem_mergeSort.2 ha
  exact hcd ha (List.mem_mergeSort.1 ha')

/-- The loops stand in strict order. -/
theorem IsComponents.pairwise_loopsOf (h : g.IsComponents components) :
    (g.loopsOf components).Pairwise (· < ·) :=
  pairwise_lt_mergeSort h.nodup_sorted

/-- **Graphs with the same edges have the same loops,** in the same order. -/
theorem loopsOf_congr {g' : InheritanceGraph} {components' : List (List ContractId)}
    (hg : g.Joined) (hg' : g'.Joined) (h : g.IsComponents components)
    (h' : g'.IsComponents components') (hedge : g.Edge = g'.Edge) :
    g.loopsOf components = g'.loopsOf components' := by
  have hgroup : ∀ group, g.IsLoopGroup group ↔ g'.IsLoopGroup group := fun group => by
    have hmutual : g.Mutual = g'.Mutual := by
      unfold Mutual
      rw [hedge]
    exact ⟨fun hl => ⟨hl.ne_nil, hl.pairwise, hmutual ▸ hl.mem_iff⟩,
      fun hl => ⟨hl.ne_nil, hl.pairwise, hmutual ▸ hl.mem_iff⟩⟩
  refine eq_of_pairwise_lt h.pairwise_loopsOf h'.pairwise_loopsOf fun group => ?_
  rw [mem_loopsOf_iff hg h, mem_loopsOf_iff hg' h', hgroup]

/-! ### Grouping finds the components -/

/-- Grouping loses no contract and doubles none. -/
theorem groups_perm (g : InheritanceGraph) (ns : List ContractId) :
    (g.groups ns).flatten.Perm ns := by
  induction hl : ns.length using Nat.strong_induction_on generalizing ns with
  | _ l ih =>
    cases ns with
    | nil => simp [groups]
    | cons n rest =>
      set others := g.mutualWith n rest with ho
      have hsplit : rest.filter (fun m => m ∉ others) =
          rest.filter fun m => !(decide (m ∈ g.above n) && decide (m ∈ g.below n)) := by
        refine List.filter_congr fun m hm => ?_
        rw [ho, mutualWith]
        simp [hm]
      have hlt : (rest.filter fun m => m ∉ others).length < l := by
        have := List.length_filter_le (fun m => decide (m ∉ others)) rest
        rw [← hl, List.length_cons]
        omega
      have hrest := ih _ hlt (rest.filter fun m => m ∉ others) rfl
      rw [groups_cons, ← ho, List.flatten_cons, List.cons_append]
      refine List.Perm.cons n ((hrest.append_left others).trans ?_)
      rw [hsplit]
      exact List.filter_append_perm _ rest

/-- **Grouping the nodes finds the components.** -/
theorem isComponents_groups (hg : g.Joined) (hn : g.nodes.Nodup) :
    g.IsComponents (g.groups g.nodes) := by
  obtain ⟨hgroups, -⟩ := groups_spec hg hg.whole
  have hperm := g.groups_perm g.nodes
  refine ⟨fun group hgr => ?_, hperm.nodup_iff.2 hn, fun a => hperm.mem_iff,
    fun group hgr a ha b => ?_⟩
  · obtain ⟨n, others, rfl, -⟩ := hgroups group hgr
    exact List.cons_ne_nil n others
  · obtain ⟨n, others, rfl, hm, hall⟩ := hgroups group hgr
    have hroot : ∀ m ∈ n :: others, Relation.ReflTransGen g.Edge n m ∧
        Relation.ReflTransGen g.Edge m n := by
      intro m hmem
      rcases List.mem_cons.1 hmem with rfl | hmem
      · exact ⟨.refl, .refl⟩
      · exact ⟨(hm m hmem).1.to_reflTransGen, (hm m hmem).2.to_reflTransGen⟩
    obtain ⟨hna, han⟩ := hroot a ha
    constructor
    · intro hb
      obtain ⟨hnb, hbn⟩ := hroot b hb
      exact ⟨han.trans hnb, hbn.trans hna⟩
    · rintro ⟨hab, hba⟩
      by_cases hne : b = n
      · exact hne ▸ List.mem_cons_self
      · exact List.mem_cons_of_mem _ (hall b (mutual_of_ne (hna.trans hab) (hba.trans han) hne) hne)

/-- The order by first members is an order of all lists. -/
theorem pairwise_firstLe (groups : List (List ContractId)) :
    (groups.mergeSort firstLe).Pairwise fun c d => firstLe c d = true := by
  refine List.pairwise_mergeSort (fun c d e hcd hde => ?_) (fun c d => ?_) groups
  · cases c with
    | nil => rfl
    | cons x c =>
      cases d with
      | nil => cases hcd
      | cons y d =>
        cases e with
        | nil => cases hde
        | cons z e =>
          have hxy : x ≤ y := of_decide_eq_true hcd
          have hyz : y ≤ z := of_decide_eq_true hde
          exact decide_eq_true (hxy.trans hyz)
  · cases c with
    | nil => rfl
    | cons x c =>
      cases d with
      | nil => rfl
      | cons y d =>
        rw [Bool.or_eq_true]
        exact (le_total x y).imp decide_eq_true decide_eq_true

/-- Different groups are in strict order as soon as their first members are in order. -/
theorem IsLoopGroup.lt_of_firstLe {c d : List ContractId} (hc : g.IsLoopGroup c)
    (hd : g.IsLoopGroup d) (hle : firstLe c d) (hne : c ≠ d) : c < d := by
  obtain ⟨x, c, rfl⟩ := List.exists_cons_of_ne_nil hc.ne_nil
  obtain ⟨y, d, rfl⟩ := List.exists_cons_of_ne_nil hd.ne_nil
  have hxy : x ≤ y := of_decide_eq_true hle
  have hne' : x ≠ y := fun heq =>
    hne (hc.eq_of_mem hd List.mem_cons_self (heq ▸ List.mem_cons_self))
  exact List.Lex.rel (lt_of_le_of_ne hxy hne')

/-- **The cycles are the loops among the components.**  Loops are disjoint, so the order by first
members is the order of the lists. -/
theorem cycles_eq_loopsOf (hg : g.Joined) (hn : g.nodes.Nodup) :
    g.cycles = g.loopsOf (g.groups g.nodes) := by
  have h := isComponents_groups hg hn
  have hperm : g.cycles.Perm (g.loopsOf (g.groups g.nodes)) :=
    (List.mergeSort_perm _ _).trans (List.mergeSort_perm _ _).symm
  have hgroup : ∀ c ∈ g.cycles, g.IsLoopGroup c := fun c hc =>
    (mem_loopsOf_iff hg h).1 (hperm.mem_iff.1 hc)
  have hnodup : g.cycles.Pairwise (· ≠ ·) := List.nodup_mergeSort.2 h.nodup_sorted
  have hlt : g.cycles.Pairwise (· < ·) :=
    ((pairwise_firstLe _).and hnodup).imp_of_mem fun hc hd hcd =>
      (hgroup _ hc).lt_of_firstLe (hgroup _ hd) hcd.1 hcd.2
  exact eq_of_pairwise_lt hlt h.pairwise_loopsOf fun c => hperm.mem_iff

/-- A list stands among the cycles exactly if it is a loop in order. -/
theorem mem_cycles_iff_isLoopGroup (hg : g.Joined) (hn : g.nodes.Nodup)
    {group : List ContractId} : group ∈ g.cycles ↔ g.IsLoopGroup group := by
  rw [cycles_eq_loopsOf hg hn, mem_loopsOf_iff hg (isComponents_groups hg hn)]

-- Two loops that share a contract are one, and a contract below a loop is on none.
example : (InheritanceGraph.mk ["d", "a", "e", "b", "c"]
    [("e", "a"), ("a", "b"), ("b", "a"), ("b", "a"), ("b", "c"), ("c", "b"), ("d", "d")]).cycles =
      [["a", "b", "c"], ["d"]] := by cbv

/-- Two contracts stand in one cycle exactly if they reach each other. -/
theorem exists_cycle_iff (hg : g.Joined) (hn : g.nodes.Nodup) {a b : ContractId} :
    (∃ group ∈ g.cycles, a ∈ group ∧ b ∈ group) ↔ g.Mutual a b := by
  constructor
  · rintro ⟨group, hgr, ha, hb⟩
    have hgroup := (mem_cycles_iff_isLoopGroup hg hn).1 hgr
    exact (hgroup.mem_iff a ha b).1 hb
  · intro hab
    obtain ⟨group, hgr, ha⟩ := (mem_cycles_iff hg).2 hab.onLoop
    have hgroup := (mem_cycles_iff_isLoopGroup hg hn).1 hgr
    exact ⟨group, hgr, ha, (hgroup.mem_iff a ha b).2 hab⟩

/-- Cycles have no contract in common. -/
theorem pairwise_disjoint_cycles (hg : g.Joined) (hn : g.nodes.Nodup) :
    g.cycles.Pairwise List.Disjoint := by
  have hlt : g.cycles.Pairwise (· < ·) := by
    rw [cycles_eq_loopsOf hg hn]
    exact (isComponents_groups hg hn).pairwise_loopsOf
  refine hlt.imp_of_mem fun {c d} hc hd hcd a hac had => hcd.ne ?_
  have hc' := (mem_cycles_iff_isLoopGroup hg hn).1 hc
  have hd' := (mem_cycles_iff_isLoopGroup hg hn).1 hd
  exact hc'.eq_of_mem hd' hac had

/-- A contract is a loop by itself exactly if it is its own parent and reaches no other contract
that reaches it. -/
theorem isLoopGroup_singleton {a : ContractId} :
    g.IsLoopGroup [a] ↔ g.Edge a a ∧ ∀ b, g.Mutual a b → b = a := by
  constructor
  · intro h
    have hmem : ∀ b, g.Mutual a b → b = a := fun b hb =>
      List.mem_singleton.1 ((h.mem_iff a List.mem_cons_self b).2 hb)
    have hself : g.Mutual a a := (h.mem_iff a List.mem_cons_self a).1 List.mem_cons_self
    obtain ⟨b, hab, hba⟩ := Relation.TransGen.head'_iff.1 hself.1
    refine ⟨?_, hmem⟩
    rcases Relation.reflTransGen_iff_eq_or_transGen.1 hba with rfl | hba
    · exact hab
    · exact hmem b ⟨.single hab, hba⟩ ▸ hab
  · rintro ⟨haa, hmem⟩
    refine ⟨List.cons_ne_nil a [], List.pairwise_singleton _ a, fun c hc b => ?_⟩
    obtain rfl := List.mem_singleton.1 hc
    rw [List.mem_singleton]
    refine ⟨?_, hmem b⟩
    rintro rfl
    exact ⟨.single haa, .single haa⟩

end InheritanceGraph

/-! ### The loops of a project -/

/-- The members of the loop that is reported, if a loop is. -/
def InheritanceIssue.loop? : InheritanceIssue → Option (List ContractId)
  | .cycle members => some members
  | _ => none

namespace Project

variable {p q : Project}

/-- What a project's contracts inherit does not depend on their order. -/
theorem inherits_congr (h : q.contracts.Perm p.contracts) : q.Inherits = p.Inherits := by
  funext a b
  have hids : b ∈ q.ids ↔ b ∈ p.ids := (h.map Contract.id).mem_iff
  simp only [Inherits, h.mem_iff, hids]

/-- **The loops that are reported are the cycles,** one report for each. -/
theorem filterMap_loop?_inheritanceIssues (p : Project) :
    p.inheritanceIssues.filterMap InheritanceIssue.loop? = p.inheritance.cycles := by
  have hmissing : p.missingParents.filterMap InheritanceIssue.loop? = [] := by
    refine List.filterMap_eq_nil_iff.2 fun i hi => ?_
    obtain ⟨e, -, rfl⟩ := List.mem_map.1 hi
    rfl
  have hcycles : (p.inheritance.cycles.map InheritanceIssue.cycle).filterMap
      InheritanceIssue.loop? = p.inheritance.cycles := by
    rw [List.filterMap_map]
    exact List.filterMap_some
  have hothers : ∀ i : InheritanceIssue, i.subject? ≠ none → i.loop? = none := fun i hi => by
    cases i with
    | cycle => exact absurd rfl hi
    | missingParent | diamond | ambiguousFunction => rfl
  rw [filterMap_inheritanceIssues hothers, hmissing, hcycles, List.nil_append]

/-- **The cycles of a project are its loops.**  They are the loops among the components of its
graph, whoever finds the components and in whatever order.  A contract stands in one exactly if it
inherits from itself in one or more steps, and two contracts stand in the same one exactly if each
inherits from the other.  The cycles are disjoint, in strict order, and so are the members of each;
a contract is a cycle by itself if it is its own parent and is on no larger loop.  They do not
depend on the order of the contracts, and one loop is reported for each. -/
theorem cycles_partition (p : Project) :
    (p.inheritance.IsComponents (p.inheritance.groups p.inheritance.nodes) ∧
      ∀ components, p.inheritance.IsComponents components →
        p.inheritance.loopsOf components = p.inheritance.cycles) ∧
    (∀ a, (∃ group ∈ p.inheritance.cycles, a ∈ group) ↔ Relation.TransGen p.Inherits a a) ∧
    (∀ a b, a ≠ b → ((∃ group ∈ p.inheritance.cycles, a ∈ group ∧ b ∈ group) ↔
      Relation.TransGen p.Inherits a b ∧ Relation.TransGen p.Inherits b a)) ∧
    p.inheritance.cycles.Pairwise List.Disjoint ∧
    (∀ group ∈ p.inheritance.cycles, group.Pairwise (· < ·)) ∧
    p.inheritance.cycles.Pairwise (· < ·) ∧
    (∀ a, [a] ∈ p.inheritance.cycles ↔ p.Inherits a a ∧
      ∀ b, Relation.TransGen p.Inherits a b → Relation.TransGen p.Inherits b a → b = a) ∧
    (∀ q : Project, q.contracts.Perm p.contracts →
      q.inheritance.cycles = p.inheritance.cycles) ∧
    p.inheritanceIssues.filterMap InheritanceIssue.loop? = p.inheritance.cycles := by
  have hg := p.inheritance_joined
  have hn := p.nodup_nodes
  have hcomponents := InheritanceGraph.isComponents_groups hg hn
  have hcycles := InheritanceGraph.cycles_eq_loopsOf hg hn
  refine ⟨⟨hcomponents, fun components h => ?_⟩, fun a => ?_, fun a b _ => ?_,
    InheritanceGraph.pairwise_disjoint_cycles hg hn, fun group hgr => ?_, ?_, fun a => ?_,
    fun q hq => ?_, p.filterMap_loop?_inheritanceIssues⟩
  · rw [hcycles]
    exact InheritanceGraph.loopsOf_congr hg hg h hcomponents rfl
  · rw [← p.edge_eq_inherits]
    exact InheritanceGraph.mem_cycles_iff hg
  · rw [← p.edge_eq_inherits]
    exact InheritanceGraph.exists_cycle_iff hg hn
  · exact ((InheritanceGraph.mem_cycles_iff_isLoopGroup hg hn).1 hgr).pairwise
  · rw [hcycles]
    exact hcomponents.pairwise_loopsOf
  · rw [← p.edge_eq_inherits, InheritanceGraph.mem_cycles_iff_isLoopGroup hg hn,
      InheritanceGraph.isLoopGroup_singleton]
    exact and_congr_right fun _ => forall_congr' fun b => and_imp
  · have hg' := q.inheritance_joined
    have hn' := q.nodup_nodes
    have hedge : q.inheritance.Edge = p.inheritance.Edge := by
      rw [edge_eq_inherits, edge_eq_inherits, inherits_congr hq]
    rw [hcycles, InheritanceGraph.cycles_eq_loopsOf hg' hn']
    exact InheritanceGraph.loopsOf_congr hg' hg
      (InheritanceGraph.isComponents_groups hg' hn') hcomponents hedge

end Project

end ContractBlocks
