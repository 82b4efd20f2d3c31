/-
# Parents that are named twice

A contract that is built up names no parent twice, but one that is read may.  A parent that is named
again leads nowhere else, so what is told from what can be reached does not change when the later
mentions are dropped (`Project.withoutRepeats`): the ancestors, whether there is a loop, the loops and
the ambiguous functions.  The order of the ancestors keeps first occurrences, and what is above a
parent that is named again has been come to before (`Project.PostOrder.withoutRepeats`).

Diamonds are another matter.  The direct parents are told apart by where they stand and not by which
contracts they are, so a parent that is named twice counts as two ways to what is above it
(`two_le_countP_iff_eraseDups`).  `Project.repeats_exact` says that this is all that the repeats
change, and `Project.repeat_reported` is a contract with one parent and a diamond.
-/

import ContractBlocks.Proofs.Inheritance.Components
import ContractBlocks.Proofs.Inheritance.Diamonds
import ContractBlocks.Proofs.Inheritance.PostOrder

namespace ContractBlocks

/-! ### First occurrences -/

section FirstOccurrences

variable {α : Type} [BEq α] [LawfulBEq α]

theorem eraseDups_eq_self {xs : List α} (hx : xs.Nodup) : xs.eraseDups = xs := by
  induction xs using List.reverseRecOn with
  | nil => rfl
  | append_singleton xs x ih =>
    obtain ⟨hxs, -, hdisjoint⟩ := List.nodup_append.1 hx
    rw [eraseDups_concat, ih hxs, if_neg fun h => hdisjoint x h x List.mem_cons_self rfl]

theorem eraseDups_sublist (xs : List α) : xs.eraseDups.Sublist xs := by
  induction xs using List.reverseRecOn with
  | nil => exact .slnil
  | append_singleton xs x ih =>
    rw [eraseDups_concat]
    split
    · exact ih.trans (List.sublist_append_left xs [x])
    · exact ih.append (List.Sublist.refl [x])

/-- The first occurrences in two lists are those in what is kept of the two. -/
theorem eraseDups_append_eraseDups (xs ys : List α) :
    (xs.eraseDups ++ ys.eraseDups).eraseDups = (xs ++ ys).eraseDups := by
  induction ys using List.reverseRecOn with
  | nil =>
    rw [List.eraseDups_nil, List.append_nil, List.append_nil, eraseDups_eq_self (nodup_eraseDups xs)]
  | append_singleton ys y ih =>
    rw [← List.append_assoc, eraseDups_concat (xs ++ ys), eraseDups_concat ys]
    by_cases hy : y ∈ ys.eraseDups
    · have hboth : y ∈ (xs ++ ys).eraseDups := by
        simpa using Or.inr (List.mem_eraseDups.1 hy)
      rw [if_pos hy, if_pos hboth, ih]
    · rw [if_neg hy, ← List.append_assoc, eraseDups_concat, ih]

/-- First occurrences in two lists do not depend on what is not kept. -/
theorem eraseDups_append_congr {xs xs' ys ys' : List α} (hx : xs'.eraseDups = xs.eraseDups)
    (hy : ys'.eraseDups = ys.eraseDups) : (xs' ++ ys').eraseDups = (xs ++ ys).eraseDups := by
  rw [← eraseDups_append_eraseDups xs' ys', hx, hy, eraseDups_append_eraseDups]

/-- What has been met before adds nothing. -/
theorem eraseDups_append_of_subset {xs ys : List α} (h : ys ⊆ xs) :
    (xs ++ ys).eraseDups = xs.eraseDups := by
  have hnone : ys.removeAll xs = [] := List.filter_eq_nil_iff.2 fun y hy => by simp [h hy]
  rw [List.eraseDups_append, hnone, List.eraseDups_nil, List.append_nil]

end FirstOccurrences

/-- **Two members pass a test** exactly if two different ones do or one does that stands twice. -/
theorem two_le_countP_iff_eraseDups {α : Type} [DecidableEq α] {xs : List α} {P : α → Bool} :
    2 ≤ xs.countP P ↔ 2 ≤ xs.eraseDups.countP P ∨ ∃ x ∈ xs, 2 ≤ xs.count x ∧ P x := by
  constructor
  · intro h
    obtain ⟨x, hx, hPx⟩ := List.countP_pos_iff.1 (Nat.lt_of_lt_of_le Nat.two_pos h)
    by_cases hother : ∃ y ∈ xs, y ≠ x ∧ P y
    · obtain ⟨y, hy, hne, hPy⟩ := hother
      exact Or.inl ((two_le_countP_iff (nodup_eraseDups xs) P).2
        ⟨y, List.mem_eraseDups.2 hy, x, List.mem_eraseDups.2 hx, hne, hPy, hPx⟩)
    · -- all that pass are the one
      have hcount : xs.countP P = xs.count x := by
        refine List.countP_congr fun y hy => ?_
        rw [beq_iff_eq]
        constructor
        · exact fun hPy => by_contra fun hne => hother ⟨y, hy, hne, hPy⟩
        · rintro rfl
          exact hPx
      exact Or.inr ⟨x, hx, hcount ▸ h, hPx⟩
  · rintro (h | ⟨x, -, hx, hPx⟩)
    · exact h.trans ((eraseDups_sublist xs).countP_le)
    · refine hx.trans (List.countP_mono_left fun y _ hy => ?_)
      rw [eq_of_beq hy]
      exact hPx

/-! ### A project without repeats -/

/-- The contract with each parent where it is named first. -/
def Contract.withoutRepeats (c : Contract) : Contract := { c with parents := c.parents.eraseDups }

namespace Project

/-- The project in which no contract names a parent again. -/
def withoutRepeats (p : Project) : Project :=
  { p with contracts := p.contracts.map Contract.withoutRepeats }

variable {p : Project} {c : Contract}

theorem ids_withoutRepeats (p : Project) : p.withoutRepeats.ids = p.ids := List.map_map

theorem nodup_ids_withoutRepeats (hp : p.ids.Nodup) : p.withoutRepeats.ids.Nodup :=
  p.ids_withoutRepeats.symm ▸ hp

theorem contract?_withoutRepeats (p : Project) (id : ContractId) :
    p.withoutRepeats.contract? id = (p.contract? id).map Contract.withoutRepeats := List.find?_map

/-- **Naming a parent again leads nowhere else.** -/
theorem inherits_withoutRepeats (p : Project) : p.withoutRepeats.Inherits = p.Inherits := by
  funext a b
  rw [Inherits, Inherits, ids_withoutRepeats]
  refine propext (and_congr_left fun _ => ?_)
  simp only [withoutRepeats, List.mem_map, exists_exists_and_eq_and, Contract.withoutRepeats,
    List.mem_eraseDups]

theorem edge_withoutRepeats (p : Project) :
    p.withoutRepeats.inheritance.Edge = p.inheritance.Edge := by
  rw [edge_eq_inherits, edge_eq_inherits, inherits_withoutRepeats]

theorem ancestors_withoutRepeats (p : Project) (id : ContractId) :
    p.withoutRepeats.inheritance.ancestors id = p.inheritance.ancestors id := by
  refine InheritanceGraph.eq_of_pairwise_lt (InheritanceGraph.pairwise_ancestors _ id)
    (InheritanceGraph.pairwise_ancestors _ id) fun a => ?_
  rw [mem_ancestors_iff_reaches, mem_ancestors_iff_reaches, inherits_withoutRepeats]

theorem hasCycles_withoutRepeats (p : Project) :
    p.withoutRepeats.inheritance.hasCycles = p.inheritance.hasCycles := by
  rw [Bool.eq_iff_iff, InheritanceGraph.hasCycles_iff (inheritance_joined _),
    InheritanceGraph.hasCycles_iff (inheritance_joined _)]
  simp only [InheritanceGraph.OnLoop, edge_withoutRepeats]

theorem cycles_withoutRepeats (p : Project) :
    p.withoutRepeats.inheritance.cycles = p.inheritance.cycles := by
  have hcomponents : ∀ q : Project, q.inheritance.IsComponents
      (q.inheritance.groups q.inheritance.nodes) := fun q =>
    InheritanceGraph.isComponents_groups q.inheritance_joined q.nodup_nodes
  rw [InheritanceGraph.cycles_eq_loopsOf (inheritance_joined _) (nodup_nodes _),
    InheritanceGraph.cycles_eq_loopsOf (inheritance_joined _) (nodup_nodes _)]
  exact InheritanceGraph.loopsOf_congr (inheritance_joined _) (inheritance_joined _)
    (hcomponents _) (hcomponents _) p.edge_withoutRepeats

/-! ### The order of the ancestors -/

namespace PostOrder

variable {rs out : List ContractId}

/-- Two post-orders make up one. -/
theorem append {rs' out' : List ContractId} (h : p.PostOrder rs out) (h' : p.PostOrder rs' out') :
    p.PostOrder (rs ++ rs') (out ++ out') := by
  induction h with
  | nil => exact h'
  | missing hr _ ih => exact .missing hr ih
  | visit hr habove _ _ ih => simpa using PostOrder.visit hr habove ih

/-- A post-order is made up of those of its parts. -/
theorem exists_of_append {first : List ContractId} (h : p.PostOrder (first ++ rs) out) :
    ∃ out₁ out₂, p.PostOrder first out₁ ∧ p.PostOrder rs out₂ ∧ out = out₁ ++ out₂ := by
  induction first generalizing out with
  | nil => exact ⟨[], out, .nil, h, rfl⟩
  | cons r first ih =>
    cases h with
    | missing hr hrs =>
      obtain ⟨out₁, out₂, h₁, h₂, rfl⟩ := ih hrs
      exact ⟨out₁, out₂, .missing hr h₁, h₂, rfl⟩
    | visit hr habove hrs =>
      obtain ⟨out₁, out₂, h₁, h₂, rfl⟩ := ih hrs
      exact ⟨_, out₂, .visit hr habove h₁, h₂, by simp⟩

/-- **Coming to a contract again adds nothing new** to what is left. -/
theorem eraseDups (hp : p.ids.Nodup) (h : p.PostOrder rs out) :
    ∃ out', p.PostOrder rs.eraseDups out' ∧ out'.eraseDups = out.eraseDups := by
  induction rs using List.reverseRecOn generalizing out with
  | nil => exact ⟨out, h, rfl⟩
  | append_singleton rs r ih =>
    obtain ⟨out₁, out₂, h₁, h₂, rfl⟩ := h.exists_of_append
    obtain ⟨out', h', hsame⟩ := ih h₁
    rw [eraseDups_concat]
    by_cases hr : r ∈ rs.eraseDups
    · -- what is above a contract that is named again has been come to
      have hsubset : out₂ ⊆ out₁ := fun a ha => by
        obtain ⟨x, hx, hid, hreach⟩ := (h₂.mem_iff hp).1 ha
        obtain rfl := List.mem_singleton.1 hx
        exact (h₁.mem_iff hp).2 ⟨x, List.mem_eraseDups.1 hr, hid, hreach⟩
      rw [if_pos hr]
      exact ⟨out', h', hsame.trans (eraseDups_append_of_subset hsubset).symm⟩
    · rw [if_neg hr]
      exact ⟨out' ++ out₂, h'.append h₂, eraseDups_append_congr hsame rfl⟩

/-- **Without repeats the first occurrences stay** where they are. -/
theorem withoutRepeats (hp : p.ids.Nodup) (h : p.PostOrder rs out) :
    ∃ out', p.withoutRepeats.PostOrder rs out' ∧ out'.eraseDups = out.eraseDups := by
  induction h with
  | nil => exact ⟨[], .nil, rfl⟩
  | @missing r rs out hr _ ih =>
    obtain ⟨out', h', hsame⟩ := ih
    exact ⟨out', .missing (by rw [contract?_withoutRepeats, hr]; rfl) h', hsame⟩
  | @visit r rs above out c hr _ _ ihabove ih =>
    obtain ⟨above', habove, hsameabove⟩ := ihabove
    obtain ⟨out', h', hsame⟩ := ih
    obtain ⟨first, hfirst, hsamefirst⟩ := habove.eraseDups (nodup_ids_withoutRepeats hp)
    have hr' : p.withoutRepeats.contract? r = some c.withoutRepeats := by
      rw [contract?_withoutRepeats, hr]
      rfl
    have hone : [r].eraseDups = [r].eraseDups := rfl
    exact ⟨first ++ r :: out', .visit hr' hfirst h',
      eraseDups_append_congr (hsamefirst.trans hsameabove) (eraseDups_append_congr hone hsame)⟩

end PostOrder

theorem linearize_withoutRepeats (hp : p.ids.Nodup) (id : ContractId) :
    p.withoutRepeats.linearize id = p.linearize id := by
  have hq := nodup_ids_withoutRepeats hp
  cases horder : p.linearize id with
  | some order =>
    obtain ⟨c, post, hc, hpost, rfl⟩ := (linearize_eq_some_iff hp).1 horder
    obtain ⟨post₁, hpost₁, hsame₁⟩ := hpost.withoutRepeats hp
    obtain ⟨post₂, hpost₂, hsame₂⟩ := hpost₁.eraseDups hq
    refine (linearize_eq_some_iff hq).2 ⟨c.withoutRepeats, post₂, ?_, hpost₂, ?_⟩
    · rw [contract?_withoutRepeats, hc]
      rfl
    · rw [hsame₂, hsame₁]
  | none =>
    cases hc : p.contract? id with
    | none => rw [linearize, contract?_withoutRepeats, hc]; rfl
    | some c =>
      obtain ⟨hmem, rfl⟩ := (contract?_eq_some_iff hp).1 hc
      have hmem' : c.withoutRepeats ∈ p.withoutRepeats.contracts := List.mem_map_of_mem hmem
      have hnone := (linearize_eq_none_iff hp hmem).1 horder
      refine (linearize_eq_none_iff hq hmem').2 ?_
      simp only [InheritanceGraph.OnLoop, edge_withoutRepeats]
      exact hnone

/-! ### Ambiguous functions and diamonds -/

theorem above_withoutRepeats_iff {a b : ContractId} :
    b ∈ p.withoutRepeats.inheritance.above a ↔ b ∈ p.inheritance.above a := by
  rw [InheritanceGraph.mem_above_iff (inheritance_joined _),
    InheritanceGraph.mem_above_iff (inheritance_joined _), edge_withoutRepeats]

theorem ancestorContracts_withoutRepeats (p : Project) (id : ContractId) :
    p.withoutRepeats.ancestorContracts id =
      (p.ancestorContracts id).map Contract.withoutRepeats := by
  rw [ancestorContracts, ancestorContracts, ancestors_withoutRepeats, List.map_filterMap]
  exact List.filterMap_congr fun id _ => p.contract?_withoutRepeats id

/-- The same contracts are most derived. -/
theorem mostDerived_withoutRepeats (p : Project) (sources : List Contract) :
    p.withoutRepeats.inheritance.mostDerived (sources.map Contract.withoutRepeats) =
      (p.inheritance.mostDerived sources).map Contract.withoutRepeats := by
  have hid : ∀ c : Contract, c.withoutRepeats.id = c.id := fun _ => rfl
  rw [InheritanceGraph.mostDerived, InheritanceGraph.mostDerived, List.filter_map]
  refine congrArg _ (List.filter_congr fun c _ => ?_)
  simp only [Function.comp_apply, List.any_map, List.contains_eq_mem, above_withoutRepeats_iff, hid]
  rfl

/-- **The same functions are ambiguous.** -/
theorem ambiguities_withoutRepeats (p : Project) (c : Contract) :
    p.withoutRepeats.ambiguities c.withoutRepeats = p.ambiguities c := by
  have hid : c.withoutRepeats.id = c.id := rfl
  have hsignatures : ∀ d : Contract, d.withoutRepeats.signatures = d.signatures := fun _ => rfl
  have hoverridden : c.withoutRepeats.overriddenIds = c.overriddenIds := rfl
  have hdeclared : ∀ ds : List Contract,
      (ds.map Contract.withoutRepeats).flatMap Contract.ancestorFunctions =
        (ds.flatMap Contract.ancestorFunctions).map fun f =>
          { f with source := f.source.withoutRepeats } := fun ds => by
    rw [List.flatMap_map, List.map_flatMap]
    refine List.flatMap_congr fun d _ => ?_
    rw [Contract.ancestorFunctions, Contract.ancestorFunctions, List.map_map]
    rfl
  rw [ambiguities_eq, ambiguities_eq, hid, ancestorContracts_withoutRepeats]
  simp only [hdeclared, hoverridden, hsignatures, List.map_map, List.any_map, List.filter_map,
    mostDerived_withoutRepeats, List.length_map, Function.comp_def]
  rfl

/-- The contracts of the project without repeats that pass a test. -/
theorem exists_mem_withoutRepeats {P : Contract → Prop} :
    (∃ c ∈ p.withoutRepeats.contracts, P c) ↔ ∃ c ∈ p.contracts, P c.withoutRepeats := by
  simp only [withoutRepeats, List.mem_map, exists_exists_and_eq_and]

/-- **The same ambiguous functions are reported.** -/
theorem mem_ambiguousFunction_withoutRepeats (hp : p.ids.Nodup) {id : ContractId} {s : String}
    {names : List String} :
    .ambiguousFunction id s names ∈ p.withoutRepeats.inheritanceIssues ↔
      .ambiguousFunction id s names ∈ p.inheritanceIssues := by
  have hq := nodup_ids_withoutRepeats hp
  have hsubject : (InheritanceIssue.ambiguousFunction id s names).subject? ≠ none :=
    Option.some_ne_none id
  rw [mem_inheritanceIssues_iff_exists hq hsubject, mem_inheritanceIssues_iff_exists hp hsubject,
    exists_mem_withoutRepeats]
  refine exists_congr fun c => and_congr_right fun _ => ?_
  have hid : c.withoutRepeats.id = c.id := rfl
  rw [ambiguousFunction_mem_append_iff, ambiguousFunction_mem_append_iff,
    ambiguities_withoutRepeats, linearize_withoutRepeats hp, hid]

/-- How often another contract is reached when each parent counts once. -/
theorem reachedBy_withoutRepeats (p : Project) (c : Contract) (a : ContractId) :
    p.withoutRepeats.reachedBy c.withoutRepeats a =
      c.parents.eraseDups.countP fun r => a ∈ p.inheritance.lineage r := by
  refine List.countP_congr fun r _ => ?_
  simp only [decide_eq_true_eq, mem_lineage_iff_reaches, inherits_withoutRepeats]

/-- **The diamonds that are reported** are those without repeats, and what is above a parent that is
named twice. -/
theorem mem_diamond_withoutRepeats (hp : p.ids.Nodup) {id a : ContractId} :
    .diamond id a ∈ p.inheritanceIssues ↔
      .diamond id a ∈ p.withoutRepeats.inheritanceIssues ∨
        ∃ c ∈ p.contracts, c.id = id ∧ p.linearize id ≠ none ∧ a ∉ c.parents ∧
          ∃ x ∈ c.parents, 2 ≤ c.parents.count x ∧ a ∈ p.inheritance.ancestors x := by
  have hq := nodup_ids_withoutRepeats hp
  rw [mem_diamond_iff_exists hp, mem_diamond_iff_exists hq, exists_mem_withoutRepeats, ← exists_or]
  refine exists_congr fun c => ?_
  have hid : c.withoutRepeats.id = c.id := rfl
  have hparents : a ∈ c.withoutRepeats.parents ↔ a ∈ c.parents := List.mem_eraseDups
  rw [linearize_withoutRepeats hp, reachedBy_withoutRepeats, reachedBy,
    two_le_countP_iff_eraseDups, hid, hparents]
  simp only [← and_or_left]
  refine and_congr_right fun _ => and_congr_right fun _ => and_congr_right fun _ =>
    and_congr_right fun ha => or_congr_right ?_
  refine exists_congr fun x => and_congr_right fun hx => and_congr_right fun _ => ?_
  have hne : a ≠ x := fun heq => ha (heq ▸ hx)
  rw [decide_eq_true_eq, mem_lineage_iff_reaches, mem_ancestors_iff_reaches,
    Relation.reflTransGen_iff_eq_or_transGen, or_iff_right hne]

/-- **What parents that are named twice change.**  Let every contract of a project keep each parent
where it names it first, and not again.  The ancestors stay the same, and so do the answer whether
there is a loop, the loops, the order of the ancestors and the ambiguous functions that are reported.
The diamonds that are reported stay, too, but those of a contract that names a parent twice and has
no loop above it: with the repeats each ancestor of that parent that is no direct parent is one, even
if no other parent reaches it. -/
theorem repeats_exact (hp : p.ids.Nodup) :
    (∀ id, p.withoutRepeats.inheritance.ancestors id = p.inheritance.ancestors id) ∧
    p.withoutRepeats.inheritance.hasCycles = p.inheritance.hasCycles ∧
    p.withoutRepeats.inheritance.cycles = p.inheritance.cycles ∧
    (∀ id, p.withoutRepeats.linearize id = p.linearize id) ∧
    (∀ id s names, .ambiguousFunction id s names ∈ p.withoutRepeats.inheritanceIssues ↔
      .ambiguousFunction id s names ∈ p.inheritanceIssues) ∧
    ∀ id a, .diamond id a ∈ p.inheritanceIssues ↔
      .diamond id a ∈ p.withoutRepeats.inheritanceIssues ∨
        ∃ c ∈ p.contracts, c.id = id ∧ p.linearize id ≠ none ∧ a ∉ c.parents ∧
          ∃ x ∈ c.parents, 2 ≤ c.parents.count x ∧ a ∈ p.inheritance.ancestors x :=
  ⟨p.ancestors_withoutRepeats, p.hasCycles_withoutRepeats, p.cycles_withoutRepeats,
    linearize_withoutRepeats hp, fun _ _ _ => mem_ambiguousFunction_withoutRepeats hp,
    fun _ _ => mem_diamond_withoutRepeats hp⟩

namespace Repeat

/-- A contract that names its parent twice. -/
def child : Contract := ⟨"child", "Child", [], ["parent", "parent"]⟩

/-- The contract with its only parent and what is above that. -/
def family : Project where
  id := "p"
  name := "Family"
  contracts := [⟨"root", "Root", [], []⟩, ⟨"parent", "Parent", [], ["root"]⟩, child]
  currentId := none
  deployment := .idle

theorem parent_inherits : family.Inherits "parent" "root" := by
  simp [Inherits, ids, family, child]

theorem linearize_child : family.linearize child.id ≠ none := by
  have hp : family.ids.Nodup := by decide
  have hc : child ∈ family.contracts := by simp [family]
  have hacyclic : family.inheritance.hasCycles = false := by decide
  exact linearize_ne_none_of_acyclic hp hacyclic hc

end Repeat

open Repeat in
theorem repeats_exact_family :
    family.ids.Nodup ∧ .diamond "child" "root" ∈ family.inheritanceIssues ∧
      family.withoutRepeats.linearize "child" = family.linearize "child" := by
  have hp : family.ids.Nodup := by decide
  have hc : child ∈ family.contracts := by simp [family]
  obtain ⟨-, -, -, hlinearize, -, hdiamond⟩ := repeats_exact hp
  have habove : "root" ∈ family.inheritance.ancestors "parent" :=
    mem_ancestors_iff_reaches.2 (.single parent_inherits)
  exact ⟨hp, (hdiamond "child" "root").2 (Or.inr ⟨child, hc, rfl, linearize_child, by decide,
    "parent", by decide, by decide, habove⟩), hlinearize "child"⟩

open Repeat in
/-- **A parent that is named twice is reported.**  A contract that inherits from one contract has a
diamond, which it has not if it names its parent once. -/
theorem repeat_reported : ∃ p : Project, p.ids.Nodup ∧ ∃ c ∈ p.contracts, ∃ a,
    .diamond c.id a ∈ p.inheritanceIssues ∧
      .diamond c.id a ∉ p.withoutRepeats.inheritanceIssues := by
  have hp : family.ids.Nodup := by decide
  have hq := nodup_ids_withoutRepeats hp
  have hc : child ∈ family.contracts := by simp [family]
  have hc' : child.withoutRepeats ∈ family.withoutRepeats.contracts := List.mem_map_of_mem hc
  have habove : "root" ∈ family.inheritance.ancestors "parent" :=
    mem_ancestors_iff_reaches.2 (.single parent_inherits)
  have hrepeated : .diamond child.id "root" ∈ family.inheritanceIssues :=
    (mem_diamond_withoutRepeats hp).2 (Or.inr ⟨child, hc, rfl, linearize_child, by decide,
      "parent", by decide, by decide, habove⟩)
  have hl : family.withoutRepeats.linearize child.withoutRepeats.id ≠ none := by
    rw [linearize_withoutRepeats hp]
    exact linearize_child
  have honce : .diamond child.withoutRepeats.id "root" ∉
      family.withoutRepeats.inheritanceIssues := by
    rw [mem_diamond_iff hq hc' hl, not_and, not_le]
    -- one parent is left
    exact fun _ => Nat.lt_succ_of_le List.countP_le_length
  exact ⟨family, hp, child, hc, "root", hrepeated, honce⟩

end Project
end ContractBlocks
