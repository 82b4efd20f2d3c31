/-
# The ways to find a loop agree

Four functions say in their own ways whether contracts inherit in a loop: peeling (`hasCycles`),
grouping (`cycles`), walking (`ancestors`) and the recursion along paths of parents (`linearize`).
Each has been described by what can be reached over the edges of the graph, so they agree, on the
project as a whole and contract by contract (`Project.loop_detectors_agree`), and any other way to
decide the same would give the same answers.  The contracts without a linearization are also those
that are left out when diamonds and ambiguous functions are looked for.
-/

import ContractBlocks.Inheritance.Issue
import ContractBlocks.Proofs.Inheritance.Linearization

namespace ContractBlocks

/-- What only one member of a list without repeats gives is what that member gives. -/
theorem flatMap_eq_of_mem {α β : Type} {f : α → List β} {xs : List α} (hxs : xs.Nodup) {x : α}
    (hx : x ∈ xs) (hothers : ∀ y ∈ xs, y ≠ x → f y = []) : xs.flatMap f = f x := by
  induction xs with
  | nil => cases hx
  | cons y ys ih =>
    obtain ⟨hy, hys⟩ := List.nodup_cons.1 hxs
    rw [List.flatMap_cons]
    rcases List.mem_cons.1 hx with rfl | hx
    · have hrest : ys.flatMap f = [] := List.flatMap_eq_nil_iff.2 fun z hz =>
        hothers z (List.mem_cons_of_mem _ hz) (ne_of_mem_of_not_mem hz hy)
      rw [hrest, List.append_nil]
    · rw [hothers y List.mem_cons_self (ne_of_mem_of_not_mem hx hy).symm, List.nil_append,
        ih hys hx fun z hz => hothers z (List.mem_cons_of_mem _ hz)]

/-- The contract that a diamond or an ambiguous function is reported about. -/
def InheritanceIssue.subject? : InheritanceIssue → Option ContractId
  | .diamond c _ | .ambiguousFunction c _ _ => some c
  | .missingParent _ _ | .cycle _ => none

namespace InheritanceGraph

variable {g : InheritanceGraph}

/-- A contract meets a loop exactly if it is on one or below one. -/
theorem meetsLoop_iff (hg : g.Joined) {a : ContractId} :
    g.meetsLoop g.cycles.flatten a ↔
      g.OnLoop a ∨ ∃ b, Relation.TransGen g.Edge a b ∧ g.OnLoop b := by
  rw [meetsLoop, Bool.or_eq_true, List.any_eq_true]
  simp only [List.contains_iff_mem, List.mem_flatten, mem_cycles_iff hg, mem_above_iff hg]

end InheritanceGraph

namespace Project

variable {p : Project}

/-- The contracts left out when diamonds and ambiguous functions are looked for are those without a
linearization. -/
theorem meetsLoop_iff_linearize (hp : p.ids.Nodup) {c : Contract} (hc : c ∈ p.contracts) :
    p.inheritance.meetsLoop p.inheritance.cycles.flatten c.id ↔ p.linearize c.id = none := by
  rw [InheritanceGraph.meetsLoop_iff p.inheritance_joined, linearize_eq_none_iff hp hc]

/-- A diamond is reported about the contract that it is looked for in. -/
theorem contract_eq_of_mem_diamonds {c : Contract} {i : InheritanceIssue}
    (h : i ∈ p.diamonds c) : ∃ a, i = .diamond c.id a := by
  obtain ⟨a, -, rfl⟩ := List.mem_map.1 h
  exact ⟨a, rfl⟩

/-- An ambiguous function is reported about the contract that it is looked for in. -/
theorem contract_eq_of_mem_ambiguities {c : Contract} {i : InheritanceIssue}
    (h : i ∈ p.ambiguities c) : ∃ s sources, i = .ambiguousFunction c.id s sources := by
  obtain ⟨s, -, hs⟩ := List.mem_filterMap.1 h
  dsimp only at hs
  split at hs
  · exact ⟨s.signature, _, (Option.some.inj hs).symm⟩
  · cases hs

/-- What is found contract by contract is a diamond or an ambiguous function of the contract. -/
theorem diamond_or_ambiguous_of_mem {c : Contract} {i : InheritanceIssue}
    (h : i ∈ p.diamonds c ++ p.ambiguities c) :
    (∃ a, i = .diamond c.id a) ∨ ∃ s sources, i = .ambiguousFunction c.id s sources :=
  (List.mem_append.1 h).imp contract_eq_of_mem_diamonds contract_eq_of_mem_ambiguities

/-- The issues, with the contracts that have no linearization left out. -/
theorem inheritanceIssues_eq (hp : p.ids.Nodup) :
    p.inheritanceIssues =
      p.missingParents ++ p.inheritance.cycles.map .cycle ++
        p.contracts.flatMap fun c =>
          if p.linearize c.id = none then [] else p.diamonds c ++ p.ambiguities c := by
  refine congrArg (_ ++ _ ++ ·) (List.flatMap_congr fun c hc => ?_)
  simp only [meetsLoop_iff_linearize hp hc]

/-- What is reported contract by contract is about a contract with a linearization. -/
theorem linearize_ne_none_of_mem (hp : p.ids.Nodup) {id : ContractId} {i : InheritanceIssue}
    (hi : (∃ a, i = .diamond id a) ∨ ∃ s sources, i = .ambiguousFunction id s sources)
    (h : i ∈ p.inheritanceIssues) : p.linearize id ≠ none := by
  rw [inheritanceIssues_eq hp, List.mem_append, List.mem_append] at h
  rcases h with (hm | hm) | hm
  · obtain ⟨e, -, rfl⟩ := List.mem_map.1 hm
    simp at hi
  · obtain ⟨group, -, rfl⟩ := List.mem_map.1 hm
    simp at hi
  · obtain ⟨c, -, hc⟩ := List.mem_flatMap.1 hm
    split at hc
    · cases hc
    · rename_i hl
      have hid : c.id = id := by
        rcases diamond_or_ambiguous_of_mem hc with ⟨a, rfl⟩ | ⟨s, sources, rfl⟩
        · simpa using hi
        · simpa using hi
      rwa [← hid]

/-- What is found for a contract is about that contract. -/
theorem subject?_of_mem {c : Contract} {i : InheritanceIssue}
    (h : i ∈ p.diamonds c ++ p.ambiguities c) : i.subject? = some c.id := by
  rcases diamond_or_ambiguous_of_mem h with ⟨a, rfl⟩ | ⟨s, sources, rfl⟩ <;> rfl

/-- What is found as an ambiguous function is found among the ambiguities. -/
theorem ambiguousFunction_mem_append_iff {c : Contract} {id : ContractId} {s : String}
    {names : List String} :
    .ambiguousFunction id s names ∈ p.diamonds c ++ p.ambiguities c ↔
      .ambiguousFunction id s names ∈ p.ambiguities c := by
  refine List.mem_append.trans (or_iff_right fun h => ?_)
  obtain ⟨a, ha⟩ := contract_eq_of_mem_diamonds h
  cases ha

/-- **What is reported about a contract** with a linearization is what is found for it. -/
theorem filter_subject?_eq (hp : p.ids.Nodup) {c : Contract} (hc : c ∈ p.contracts)
    (hl : p.linearize c.id ≠ none) :
    (p.inheritanceIssues.filter fun i => i.subject? = some c.id) =
      p.diamonds c ++ p.ambiguities c := by
  have hmissing : (p.missingParents.filter fun i => i.subject? = some c.id) = [] := by
    refine List.filter_eq_nil_iff.2 fun i hi => ?_
    obtain ⟨e, -, rfl⟩ := List.mem_map.1 hi
    simp [InheritanceIssue.subject?]
  have hcycles : ((p.inheritance.cycles.map InheritanceIssue.cycle).filter fun i =>
      i.subject? = some c.id) = [] := by
    refine List.filter_eq_nil_iff.2 fun i hi => ?_
    obtain ⟨members, -, rfl⟩ := List.mem_map.1 hi
    simp [InheritanceIssue.subject?]
  have hothers : ∀ d ∈ p.contracts, d ≠ c →
      ((if p.linearize d.id = none then [] else p.diamonds d ++ p.ambiguities d).filter fun i =>
        i.subject? = some c.id) = [] := by
    intro d hd hne
    have hid : d.id ≠ c.id := fun hid => hne (List.inj_on_of_nodup_map hp hd hc hid)
    refine List.filter_eq_nil_iff.2 fun i hi => ?_
    split at hi
    · cases hi
    · simpa [subject?_of_mem hi] using hid
  rw [inheritanceIssues_eq hp, List.filter_append, List.filter_append, hmissing, hcycles,
    List.nil_append, List.nil_append, List.filter_flatMap,
    flatMap_eq_of_mem (List.Nodup.of_map _ hp) hc hothers, if_neg hl]
  exact List.filter_eq_self.2 fun i hi => decide_eq_true (subject?_of_mem hi)

/-- An issue about a contract with a linearization is reported exactly if it is found for it. -/
theorem mem_inheritanceIssues_iff (hp : p.ids.Nodup) {c : Contract} (hc : c ∈ p.contracts)
    (hl : p.linearize c.id ≠ none) {i : InheritanceIssue} (hi : i.subject? = some c.id) :
    i ∈ p.inheritanceIssues ↔ i ∈ p.diamonds c ++ p.ambiguities c := by
  rw [← filter_subject?_eq hp hc hl, List.mem_filter, decide_eq_true_eq, and_iff_left hi]

/-- A question that diamonds and ambiguous functions do not answer is one about the references to
missing parents and the loops. -/
theorem filterMap_inheritanceIssues {β : Type} {f : InheritanceIssue → Option β}
    (hf : ∀ i, i.subject? ≠ none → f i = none) (p : Project) :
    p.inheritanceIssues.filterMap f =
      p.missingParents.filterMap f ++ (p.inheritance.cycles.map .cycle).filterMap f := by
  have hrest : (p.contracts.flatMap fun c =>
      if p.inheritance.meetsLoop p.inheritance.cycles.flatten c.id then []
      else p.diamonds c ++ p.ambiguities c).filterMap f = [] := by
    refine List.filterMap_eq_nil_iff.2 fun i hi => ?_
    obtain ⟨c, -, hi⟩ := List.mem_flatMap.1 hi
    split at hi
    · cases hi
    · exact hf i (subject?_of_mem hi ▸ Option.some_ne_none c.id)
  simp only [inheritanceIssues, List.filterMap_append, hrest, List.append_nil]

/-- What is reported about any contract is found for a registered one with a linearization. -/
theorem mem_inheritanceIssues_iff_exists (hp : p.ids.Nodup) {i : InheritanceIssue}
    (hi : i.subject? ≠ none) :
    i ∈ p.inheritanceIssues ↔
      ∃ c ∈ p.contracts, p.linearize c.id ≠ none ∧ i ∈ p.diamonds c ++ p.ambiguities c := by
  have hmissing : i ∉ p.missingParents := fun h => by
    obtain ⟨e, -, rfl⟩ := List.mem_map.1 h
    exact hi rfl
  have hcycle : i ∉ p.inheritance.cycles.map .cycle := fun h => by
    obtain ⟨members, -, rfl⟩ := List.mem_map.1 h
    exact hi rfl
  rw [inheritanceIssues_eq hp, List.mem_append, List.mem_append, or_iff_right hmissing,
    or_iff_right hcycle, List.mem_flatMap]
  refine exists_congr fun c => and_congr_right fun _ => ?_
  split <;> simp [*]

/-- **The ways to find a loop agree.**  Peeling leaves a contract exactly if there is a group that is
a loop, exactly if a contract is its own ancestor, and exactly if a contract has no linearization.
The contracts without one are those on a loop or below one, and they are the contracts that are left
out when diamonds and ambiguous functions are looked for. -/
theorem loop_detectors_agree (p : Project) (hp : p.ids.Nodup) :
    ((p.inheritance.hasCycles ↔ p.inheritance.cycles ≠ []) ∧
      (p.inheritance.cycles ≠ [] ↔ ∃ id ∈ p.ids, id ∈ p.inheritance.ancestors id) ∧
      ((∃ id ∈ p.ids, id ∈ p.inheritance.ancestors id) ↔
        ∃ id ∈ p.ids, p.linearize id = none)) ∧
    (∀ id ∈ p.ids, p.linearize id = none ↔
      ∃ group ∈ p.inheritance.cycles, id ∈ group ∨ ∃ a ∈ p.inheritance.ancestors id, a ∈ group) ∧
    (p.inheritanceIssues =
      p.missingParents ++ p.inheritance.cycles.map .cycle ++
        p.contracts.flatMap fun c =>
          if p.linearize c.id = none then [] else p.diamonds c ++ p.ambiguities c) ∧
    ∀ id, p.linearize id = none →
      (∀ a, .diamond id a ∉ p.inheritanceIssues) ∧
        ∀ s sources, .ambiguousFunction id s sources ∉ p.inheritanceIssues := by
  have hg := p.inheritance_joined
  have hself : (∃ id ∈ p.ids, id ∈ p.inheritance.ancestors id) ↔ ∃ a, p.inheritance.OnLoop a := by
    simp only [InheritanceGraph.mem_ancestors_iff hg]
    exact ⟨fun ⟨a, _, ha⟩ => ⟨a, ha⟩, fun ⟨a, ha⟩ => ⟨a, mem_nodes_iff.1 (hg.mem_nodes ha).1, ha⟩⟩
  have hnone : ∀ id ∈ p.ids, p.linearize id = none ↔ p.inheritance.OnLoop id ∨
      ∃ a, Relation.TransGen p.inheritance.Edge id a ∧ p.inheritance.OnLoop a := by
    intro id hid
    obtain ⟨c, hc, rfl⟩ := List.mem_map.1 hid
    exact linearize_eq_none_iff hp hc
  have hsome : (∃ id ∈ p.ids, p.linearize id = none) ↔ ∃ a, p.inheritance.OnLoop a := by
    constructor
    · rintro ⟨id, hid, h⟩
      rcases (hnone id hid).1 h with hl | ⟨a, -, hl⟩
      · exact ⟨id, hl⟩
      · exact ⟨a, hl⟩
    · rintro ⟨a, hl⟩
      have ha : a ∈ p.ids := mem_nodes_iff.1 (hg.mem_nodes hl).1
      exact ⟨a, ha, (hnone a ha).2 (Or.inl hl)⟩
  refine ⟨⟨?_, ?_, ?_⟩, ?_, inheritanceIssues_eq hp, ?_⟩
  · rw [InheritanceGraph.hasCycles_iff hg, InheritanceGraph.cycles_ne_nil_iff hg]
  · rw [InheritanceGraph.cycles_ne_nil_iff hg, hself]
  · rw [hself, hsome]
  · intro id hid
    rw [hnone id hid]
    simp only [← InheritanceGraph.mem_cycles_iff hg, InheritanceGraph.mem_ancestors_iff hg]
    constructor
    · rintro (⟨group, hgr, h⟩ | ⟨a, ha, group, hgr, h⟩)
      · exact ⟨group, hgr, Or.inl h⟩
      · exact ⟨group, hgr, Or.inr ⟨a, ha, h⟩⟩
    · rintro ⟨group, hgr, h | ⟨a, ha, h⟩⟩
      · exact Or.inl ⟨group, hgr, h⟩
      · exact Or.inr ⟨a, ha, group, hgr, h⟩
  · intro id hid
    exact ⟨fun a h => linearize_ne_none_of_mem hp (Or.inl ⟨a, rfl⟩) h hid,
      fun s sources h => linearize_ne_none_of_mem hp (Or.inr ⟨s, sources, rfl⟩) h hid⟩

/-- Contracts in a loop of two, one on a loop by itself, one below the loop with a parent that is
missing and one named twice, and one that inherits from nothing. -/
def tangled : Project where
  id := "p"
  name := "Tangled"
  contracts := [⟨"a", "A", [], ["b"]⟩, ⟨"b", "B", [], ["a", "a"]⟩, ⟨"c", "C", [], ["c"]⟩,
    ⟨"d", "D", [], ["gone", "e", "a", "a"]⟩, ⟨"e", "E", [], []⟩]
  currentId := none
  deployment := .idle

theorem loop_detectors_agree_tangled :
    tangled.ids.Nodup ∧ tangled.inheritance.hasCycles ∧ tangled.inheritance.cycles ≠ [] ∧
      (∃ id ∈ tangled.ids, id ∈ tangled.inheritance.ancestors id) ∧
      tangled.linearize "d" = none ∧ tangled.linearize "e" = some [] ∧
      ∀ a, .diamond "d" a ∉ tangled.inheritanceIssues := by
  have hp : tangled.ids.Nodup := by decide
  have hcycles : tangled.inheritance.hasCycles := by decide
  have hedge : ∀ e ∈ [("a", "b"), ("b", "a"), ("d", "a")], e ∈ tangled.inheritance.edges := by
    decide
  have ha : tangled.inheritance.OnLoop "a" :=
    .trans (.single (hedge ("a", "b") (by decide))) (.single (hedge ("b", "a") (by decide)))
  have hd : tangled.linearize "d" = none :=
    (linearize_eq_none_iff hp (c := ⟨"d", "D", [], ["gone", "e", "a", "a"]⟩) (by decide)).2
      (Or.inr ⟨"a", .single (hedge ("d", "a") (by decide)), ha⟩)
  have he : tangled.linearize "e" = some [] := by
    simp [linearize, orderAbove, contract?, tangled]
  obtain ⟨⟨h₁, h₂, -⟩, -, -, h₄⟩ := loop_detectors_agree tangled hp
  exact ⟨hp, hcycles, h₁.1 hcycles, h₂.1 (h₁.1 hcycles), hd, he, (h₄ "d" hd).1⟩

end Project

end ContractBlocks
