/-
# What a walk through the inheritance graph meets

An edge of the graph leads from a contract to one of its parents (`InheritanceGraph.Edge`).  A walk
meets exactly what can be reached from the nodes still to do (`InheritanceGraph.mem_walk_iff`), so
`above` is what can be reached over one or more edges, `below` is what `above` is reached from, and
the ancestors are what is above.  All of this holds of graphs whose edges join nodes, as those of a
project do (`Project.inheritance_joined`).  A walk sees no node twice, so the ancestors stand in
strict order of identity (`InheritanceGraph.pairwise_ancestors`).
-/

import ContractBlocks.Inheritance.Graph
import Mathlib.Data.List.Induction
import Mathlib.Data.List.Nodup
import Mathlib.Data.List.Sort
import Mathlib.Data.String.Basic
import Mathlib.Logic.Relation

namespace ContractBlocks

/-- A list without repeats is put in strict order. -/
theorem pairwise_lt_mergeSort {α : Type} [LinearOrder α] {xs : List α} (hx : xs.Nodup) :
    (xs.mergeSort fun a b => a ≤ b).Pairwise (· < ·) := by
  have hsorted : (xs.mergeSort fun a b => a ≤ b).Pairwise (· ≤ ·) := List.pairwise_mergeSort' _ _
  exact (hsorted.and (List.nodup_mergeSort.2 hx)).imp fun h => lt_of_le_of_ne h.1 h.2

namespace InheritanceGraph

variable {g : InheritanceGraph}

/-- The edge from a contract to one of its parents. -/
def Edge (g : InheritanceGraph) (a b : ContractId) : Prop := (a, b) ∈ g.edges

/-- The edges join nodes. -/
def Joined (g : InheritanceGraph) : Prop := ∀ a b, g.Edge a b → a ∈ g.nodes ∧ b ∈ g.nodes

theorem mem_parents_iff {a b : ContractId} : b ∈ g.parents a ↔ g.Edge a b := by
  simp only [parents, List.mem_filterMap, Edge]
  constructor
  · rintro ⟨⟨x, y⟩, he, hb⟩
    split at hb
    · next hx =>
      obtain rfl : x = a := hx
      exact Option.some.inj hb ▸ he
    · cases hb
  · exact fun he => ⟨(a, b), he, if_pos rfl⟩

theorem mem_children_iff {a b : ContractId} : b ∈ g.children a ↔ g.Edge b a := by
  simp only [children, List.mem_filterMap, Edge]
  constructor
  · rintro ⟨⟨x, y⟩, he, hb⟩
    split at hb
    · next hy =>
      obtain rfl : y = a := hy
      exact Option.some.inj hb ▸ he
    · cases hb
  · exact fun he => ⟨(b, a), he, if_pos rfl⟩

/-! ### Walks -/

section Walk

variable {next : ContractId → List ContractId}

/-- A walk meets only what it has seen already and what can be reached from the nodes to do. -/
theorem walk_sound {seen todo : List ContractId} {m : ContractId}
    (hm : m ∈ g.walk next seen todo) :
    m ∈ seen ∨ ∃ n ∈ todo, Relation.ReflTransGen (fun a b => b ∈ next a) n m := by
  fun_induction walk g next seen todo with
  | case1 seen => exact Or.inl hm
  | case2 seen n todo hn ih =>
    rcases ih hm with hs | ⟨k, hk, hr⟩
    · rcases List.mem_cons.1 hs with rfl | hs
      · exact Or.inr ⟨m, List.mem_cons_self, .refl⟩
      · exact Or.inl hs
    · rcases List.mem_append.1 hk with hk | hk
      · exact Or.inr ⟨n, List.mem_cons_self, .head hk hr⟩
      · exact Or.inr ⟨k, List.mem_cons_of_mem _ hk, hr⟩
  | case3 seen n todo hn ih =>
    rcases ih hm with hs | ⟨k, hk, hr⟩
    · exact Or.inl hs
    · exact Or.inr ⟨k, List.mem_cons_of_mem _ hk, hr⟩

/-- **A walk leaves nothing out.**  If all that follows on what has been seen is seen or to do, then
the walk meets all that has been seen, all that is to do, and all that follows on what it meets. -/
theorem walk_complete (hnext : ∀ a, ∀ b ∈ next a, b ∈ g.nodes) {seen todo : List ContractId}
    (htodo : ∀ n ∈ todo, n ∈ g.nodes) (hseen : ∀ a ∈ seen, ∀ b ∈ next a, b ∈ seen ∨ b ∈ todo) :
    (∀ a ∈ seen, a ∈ g.walk next seen todo) ∧ (∀ a ∈ todo, a ∈ g.walk next seen todo) ∧
      ∀ a ∈ g.walk next seen todo, ∀ b ∈ next a, b ∈ g.walk next seen todo := by
  fun_induction walk g next seen todo with
  | case1 seen =>
    refine ⟨fun a ha => ha, fun a ha => absurd ha List.not_mem_nil, fun a ha b hb => ?_⟩
    exact (hseen a ha b hb).resolve_right List.not_mem_nil
  | case2 seen n todo hn ih =>
    have htodo' : ∀ k ∈ next n ++ todo, k ∈ g.nodes := by
      intro k hk
      rcases List.mem_append.1 hk with hk | hk
      · exact hnext n k hk
      · exact htodo k (List.mem_cons_of_mem _ hk)
    have hseen' : ∀ a ∈ n :: seen, ∀ b ∈ next a, b ∈ n :: seen ∨ b ∈ next n ++ todo := by
      intro a ha b hb
      rcases List.mem_cons.1 ha with rfl | ha
      · exact Or.inr (List.mem_append_left _ hb)
      · rcases hseen a ha b hb with hb | hb
        · exact Or.inl (List.mem_cons_of_mem _ hb)
        · rcases List.mem_cons.1 hb with rfl | hb
          · exact Or.inl List.mem_cons_self
          · exact Or.inr (List.mem_append_right _ hb)
    obtain ⟨h₁, h₂, h₃⟩ := ih htodo' hseen'
    refine ⟨fun a ha => h₁ a (List.mem_cons_of_mem _ ha), fun a ha => ?_, h₃⟩
    rcases List.mem_cons.1 ha with rfl | ha
    · exact h₁ a List.mem_cons_self
    · exact h₂ a (List.mem_append_right _ ha)
  | case3 seen n todo hn ih =>
    have hs : n ∈ seen :=
      Decidable.byContradiction fun hs => hn ⟨htodo n List.mem_cons_self, hs⟩
    have hseen' : ∀ a ∈ seen, ∀ b ∈ next a, b ∈ seen ∨ b ∈ todo := by
      intro a ha b hb
      rcases hseen a ha b hb with hb | hb
      · exact Or.inl hb
      · rcases List.mem_cons.1 hb with rfl | hb
        · exact Or.inl hs
        · exact Or.inr hb
    obtain ⟨h₁, h₂, h₃⟩ := ih (fun k hk => htodo k (List.mem_cons_of_mem _ hk)) hseen'
    refine ⟨h₁, fun a ha => ?_, h₃⟩
    rcases List.mem_cons.1 ha with rfl | ha
    · exact h₁ a hs
    · exact h₂ a ha

/-- **A walk that has seen nothing meets exactly what can be reached.** -/
theorem mem_walk_iff (hnext : ∀ a, ∀ b ∈ next a, b ∈ g.nodes) {todo : List ContractId}
    (htodo : ∀ n ∈ todo, n ∈ g.nodes) {m : ContractId} :
    m ∈ g.walk next [] todo ↔
      ∃ n ∈ todo, Relation.ReflTransGen (fun a b => b ∈ next a) n m := by
  constructor
  · exact fun hm => (walk_sound hm).resolve_left List.not_mem_nil
  · rintro ⟨n, hn, hr⟩
    obtain ⟨-, h₂, h₃⟩ := walk_complete hnext htodo fun a ha => absurd ha List.not_mem_nil
    induction hr with
    | refl => exact h₂ n hn
    | tail _ hb ih => exact h₃ _ ih _ hb

/-- **A walk sees no node twice.** -/
theorem nodup_walk {seen todo : List ContractId} (hseen : seen.Nodup) :
    (g.walk next seen todo).Nodup := by
  fun_induction walk g next seen todo with
  | case1 seen => exact hseen
  | case2 seen n todo hn ih => exact ih (List.nodup_cons.2 ⟨hn.2, hseen⟩)
  | case3 seen n todo hn ih => exact ih hseen

end Walk

/-! ### Above, below and the ancestors -/

/-- **What is above a contract** can be reached over one or more edges. -/
theorem mem_above_iff (hg : g.Joined) {a b : ContractId} :
    b ∈ g.above a ↔ Relation.TransGen g.Edge a b := by
  have hnext : ∀ a, ∀ b ∈ g.parents a, b ∈ g.nodes := fun a b hb =>
    (hg a b (mem_parents_iff.1 hb)).2
  rw [above, mem_walk_iff hnext (hnext a), Relation.TransGen.head'_iff]
  simp only [mem_parents_iff]

/-- **What is below a contract** reaches it over one or more edges. -/
theorem mem_below_iff (hg : g.Joined) {a b : ContractId} :
    b ∈ g.below a ↔ Relation.TransGen g.Edge b a := by
  have hnext : ∀ a, ∀ b ∈ g.children a, b ∈ g.nodes := fun a b hb =>
    (hg b a (mem_children_iff.1 hb)).1
  rw [below, mem_walk_iff hnext (hnext a), ← Relation.transGen_swap, Relation.TransGen.head'_iff]
  simp only [mem_children_iff]

theorem mem_ancestors_iff (hg : g.Joined) {a b : ContractId} :
    b ∈ g.ancestors a ↔ Relation.TransGen g.Edge a b := by
  rw [ancestors, List.mem_mergeSort, mem_above_iff hg]

/-- The ancestors stand in strict order. -/
theorem pairwise_ancestors (g : InheritanceGraph) (id : ContractId) :
    (g.ancestors id).Pairwise (· < ·) := by
  have hnodup : (g.above id).Nodup := nodup_walk List.nodup_nil
  exact pairwise_lt_mergeSort hnodup

/-- What is reached from a node is a node. -/
theorem Joined.mem_nodes (hg : g.Joined) {a b : ContractId} (h : Relation.TransGen g.Edge a b) :
    a ∈ g.nodes ∧ b ∈ g.nodes := by
  obtain ⟨c, hc, -⟩ := Relation.TransGen.head'_iff.1 h
  obtain ⟨d, -, hd⟩ := Relation.TransGen.tail'_iff.1 h
  exact ⟨(hg a c hc).1, (hg d b hd).2⟩

end InheritanceGraph

/-! ### The graph of a project -/

theorem eraseDups_concat {α : Type} [BEq α] [LawfulBEq α] (xs : List α) (x : α) :
    (xs ++ [x]).eraseDups = if x ∈ xs.eraseDups then xs.eraseDups else xs.eraseDups ++ [x] := by
  rw [List.eraseDups_append]
  by_cases hx : x ∈ xs
  · rw [if_pos (List.mem_eraseDups.2 hx)]
    simp [List.removeAll, hx]
  · rw [if_neg fun h => hx (List.mem_eraseDups.1 h)]
    simp [List.removeAll, hx, List.eraseDups_cons]

/-- Of what is kept nothing comes twice. -/
theorem nodup_eraseDups {α : Type} [BEq α] [LawfulBEq α] (xs : List α) : xs.eraseDups.Nodup := by
  induction xs using List.reverseRecOn with
  | nil => exact List.nodup_nil
  | append_singleton xs x ih =>
    rw [eraseDups_concat]
    split
    · exact ih
    · next hx =>
      rw [← List.concat_eq_append]
      exact ih.concat hx

namespace Project

variable {p : Project}

theorem mem_nodes_iff {id : ContractId} : id ∈ p.inheritance.nodes ↔ id ∈ p.ids := by
  rw [inheritance, List.mem_eraseDups]

theorem nodup_nodes (p : Project) : p.inheritance.nodes.Nodup := nodup_eraseDups p.ids

/-- An edge of the project leads from a contract to a registered contract among its parents. -/
theorem edge_iff {a b : ContractId} :
    p.inheritance.Edge a b ↔ (∃ c ∈ p.contracts, c.id = a ∧ b ∈ c.parents) ∧ b ∈ p.ids := by
  simp only [InheritanceGraph.Edge, inheritance, parentReferences, List.mem_filter,
    List.mem_flatMap, List.mem_map, Prod.mk.injEq, List.contains_iff_mem]
  constructor
  · rintro ⟨⟨c, hc, r, hr, rfl, rfl⟩, hb⟩
    exact ⟨⟨c, hc, rfl, hr⟩, hb⟩
  · rintro ⟨⟨c, hc, rfl, hr⟩, hb⟩
    exact ⟨⟨c, hc, b, hr, rfl, rfl⟩, hb⟩

/-- The contract is registered, and so is the other one, which is among its parents. -/
def Inherits (p : Project) (a b : ContractId) : Prop :=
  (∃ c ∈ p.contracts, c.id = a ∧ b ∈ c.parents) ∧ b ∈ p.ids

/-- The edges of a project are what its contracts inherit. -/
theorem edge_eq_inherits (p : Project) : p.inheritance.Edge = p.Inherits :=
  funext fun _ => funext fun _ => propext edge_iff

/-- The edges of a project join registered contracts. -/
theorem inheritance_joined (p : Project) : p.inheritance.Joined := by
  intro a b h
  obtain ⟨⟨c, hc, rfl, -⟩, hb⟩ := edge_iff.1 h
  exact ⟨mem_nodes_iff.2 (List.mem_map_of_mem hc), mem_nodes_iff.2 hb⟩

/-- The ancestors of a contract are what it inherits from in one or more steps. -/
theorem mem_ancestors_iff_reaches {a b : ContractId} :
    b ∈ p.inheritance.ancestors a ↔ Relation.TransGen p.Inherits a b := by
  rw [InheritanceGraph.mem_ancestors_iff p.inheritance_joined, edge_eq_inherits]

end Project

end ContractBlocks
