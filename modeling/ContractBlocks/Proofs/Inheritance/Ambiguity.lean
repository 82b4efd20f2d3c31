/-
# What settles an ambiguous function

Several ancestors of a contract may declare a function of one signature.  Those of them from which no
other one inherits are rivals (`Project.Rival`).  Where there are two, the analysis reports the
function, unless the contract declares it or keeps an override of one of the declarations.  Any
ancestor will do for that, and the function need not be virtual (`Project.Settles`).  The generator
asks for more: it writes an override only of a virtual function of a direct parent.

`Project.ambiguity_settled_iff` says exactly when the analysis is silent and when the source has an
override, so the second entails the first.  It is not so the other way round: an override of a
function that is not virtual settles an ambiguity for the analysis and leaves no trace in the source
(`Project.settled_without_source`).
-/

import ContractBlocks.Proofs.Inheritance.Signatures
import ContractBlocks.Proofs.Source.Overrides

namespace ContractBlocks

/-! ### The overrides of a contract -/

namespace Contract

/-- The overrides that the functions of a contract keep, in order. -/
def storedOverrides (c : Contract) : List StoredOverride :=
  c.functions.flatMap fun f => f.2.overrides

/-- The overrides that are written into the source of a contract, in order, each with the function
that it replaces. -/
def synthesized (c : Contract) (registry : Registry) :
    List (StoredOverride × OverridableFunction) :=
  c.storedOverrides.filterMap fun o =>
    (o.target? (c.overridable registry)).map fun target => (o, target)

theorem mem_overriddenIds {c : Contract} {id : BlockId} :
    id ∈ c.overriddenIds ↔ ∃ o ∈ c.storedOverrides, o.functionId = id := by
  simp only [overriddenIds, storedOverrides, List.mem_flatMap, List.mem_map]
  constructor
  · rintro ⟨f, hf, o, ho, rfl⟩
    exact ⟨o, ⟨f, hf, ho⟩, rfl⟩
  · rintro ⟨o, ⟨f, hf, ho⟩, rfl⟩
    exact ⟨f, hf, o, ho, rfl⟩

theorem mem_signatures {c : Contract} {s : String} :
    s ∈ c.signatures ↔ ∃ f ∈ c.functions, signatureKey f.1.name f.2.parameters = s :=
  List.mem_map

theorem mem_overridable {c : Contract} {registry : Registry} {target : OverridableFunction} :
    target ∈ c.overridable registry ↔ ∃ parent ∈ c.knownParents registry,
      ∃ g ∈ parent.functions, g.2.isVirtual ∧ .ofFunction parent g.1 g.2 = target := by
  simp only [overridable, virtualFunctions, List.mem_flatMap, List.mem_map, List.mem_filter,
    and_assoc]

theorem mem_synthesized {c : Contract} {registry : Registry} {o : StoredOverride}
    {target : OverridableFunction} :
    (o, target) ∈ c.synthesized registry ↔
      o ∈ c.storedOverrides ∧ o.Replaces (c.overridable registry) target := by
  simp only [synthesized, List.mem_filterMap, Option.map_eq_some_iff, Prod.mk.injEq,
    StoredOverride.target?_eq_some_iff]
  constructor
  · rintro ⟨o, ho, target, ht, rfl, rfl⟩
    exact ⟨ho, ht⟩
  · rintro ⟨ho, ht⟩
    exact ⟨o, ho, target, ht, rfl, rfl⟩

/-- The overrides of the functions of a contract are those of its blocks. -/
theorem storedOverrides_eq (c : Contract) : c.storedOverrides = c.blocks.flatMap Block.overrides := by
  unfold storedOverrides functions
  induction c.blocks with
  | nil => rfl
  | cons b bs ih =>
    rw [List.flatMap_cons, b.overrides_eq, ← ih]
    cases hf : b.function? with
    | none => rw [List.filterMap_cons_none (by rw [hf]; rfl)]; rfl
    | some f => rw [List.filterMap_cons_some (by rw [hf]; rfl), List.flatMap_cons]; rfl

/-- What is synthesized is among the fragments of the blocks, in order. -/
theorem synthesized_sublist_fragments (c : Contract) (registry : Registry) :
    ((c.synthesized registry).map fun x => x.1.fragment x.2).Sublist (c.fragments registry) := by
  have hone : ∀ b : Block, ((b.overrides.filterMap fun o =>
      (o.target? (c.overridable registry)).map fun target => (o, target)).map
        fun x => x.1.fragment x.2) = b.overrideFragments (c.overridable registry) := by
    intro b
    rw [List.map_filterMap, Block.overrideFragments]
    refine List.filterMap_congr fun o _ => ?_
    cases o.target? (c.overridable registry) <;> rfl
  rw [fragments_eq, synthesized, storedOverrides_eq, List.filterMap_flatMap, List.map_flatMap]
  simp only [hone]
  induction c.blocks with
  | nil => exact .slnil
  | cons b bs ih =>
    rw [List.flatMap_cons, List.flatMap_cons]
    exact (List.sublist_append_right _ _).append ih

/-- **What is synthesized stands in the source,** in order, among the texts of the blocks. -/
theorem synthesized_sublist (c : Contract) (registry : Registry) (o : SourceOptions) :
    ((c.synthesized registry).map fun x => x.1.source x.2 o).Sublist
      (c.sourceBlocks registry o) := by
  have h := (c.synthesized_sublist_fragments registry).map fun f => String.ofList (f.text o.indent)
  rwa [List.map_map] at h

end Contract

/-! ### Rivals -/

namespace Project

variable {p : Project} {c : Contract} {s : String}

/-- An ancestor of the contract that declares a function of the signature. -/
structure DeclaresAbove (p : Project) (c : Contract) (s : String) (d : Contract) : Prop where
  registered : d ∈ p.contracts
  above : d.id ∈ p.inheritance.ancestors c.id
  declares : s ∈ d.signatures

/-- An ancestor that declares the signature and from which no other such ancestor inherits. -/
structure Rival (p : Project) (c : Contract) (s : String) (d : Contract) : Prop
    extends p.DeclaresAbove c s d where
  derived : ∀ o, p.DeclaresAbove c s o → o.id ≠ d.id → d.id ∉ p.inheritance.ancestors o.id

/-- The contract keeps an override of a function of the signature that an ancestor declares. -/
def Settles (p : Project) (c : Contract) (s : String) : Prop :=
  ∃ o ∈ c.storedOverrides, ∃ d, p.DeclaresAbove c s d ∧
    ∃ g ∈ d.functions, g.1.id = o.functionId ∧ signatureKey g.1.name g.2.parameters = s

theorem mem_ancestorContracts_iff (hp : p.ids.Nodup) {id : ContractId} {d : Contract} :
    d ∈ p.ancestorContracts id ↔ d ∈ p.contracts ∧ d.id ∈ p.inheritance.ancestors id := by
  simp only [ancestorContracts, List.mem_filterMap, contract?_eq_some_iff hp]
  constructor
  · rintro ⟨a, ha, hd, rfl⟩
    exact ⟨hd, ha⟩
  · rintro ⟨hd, ha⟩
    exact ⟨d.id, ha, hd, rfl⟩

/-- The ancestors of a contract that declare a signature. -/
def sources (p : Project) (c : Contract) (s : String) : List Contract :=
  (p.ancestorContracts c.id).filter fun d => d.signatures.contains s

theorem mem_sources_iff (hp : p.ids.Nodup) {d : Contract} :
    d ∈ p.sources c s ↔ p.DeclaresAbove c s d := by
  rw [sources, List.mem_filter, mem_ancestorContracts_iff hp, List.contains_iff_mem]
  exact ⟨fun h => ⟨h.1.1, h.1.2, h.2⟩, fun h => ⟨⟨h.registered, h.above⟩, h.declares⟩⟩

theorem mem_mostDerived_iff (hp : p.ids.Nodup) {d : Contract} :
    d ∈ p.inheritance.mostDerived (p.sources c s) ↔ p.Rival c s d := by
  have habove : ∀ a b, b ∈ p.inheritance.above a ↔ b ∈ p.inheritance.ancestors a := fun a b => by
    rw [InheritanceGraph.ancestors, List.mem_mergeSort]
  rw [InheritanceGraph.mostDerived, List.mem_filter, mem_sources_iff hp, Bool.not_eq_true',
    List.any_eq_false]
  simp only [Bool.and_eq_true, bne_iff_ne, List.contains_iff_mem, habove, mem_sources_iff hp,
    not_and]
  exact ⟨fun h => ⟨h.1, h.2⟩, fun h => ⟨h.toDeclaresAbove, h.derived⟩⟩

/-- Two rivals make the list of rivals longer than one. -/
theorem one_lt_length_of_rivals (hp : p.ids.Nodup) {a b : Contract} (ha : p.Rival c s a)
    (hb : p.Rival c s b) (hab : a.id ≠ b.id) :
    1 < (p.inheritance.mostDerived (p.sources c s)).length := by
  have ha := (mem_mostDerived_iff hp).2 ha
  have hb := (mem_mostDerived_iff hp).2 hb
  match h : p.inheritance.mostDerived (p.sources c s) with
  | [] => rw [h] at ha; cases ha
  | [d] =>
    rw [h, List.mem_singleton] at ha hb
    exact absurd (ha.trans hb.symm) fun he => hab (congrArg Contract.id he)
  | _ :: _ :: ds => exact Nat.lt_of_lt_of_le Nat.one_lt_two (Nat.le_add_left 2 ds.length)

/-! ### When an ambiguity is reported -/

/-- A declared signature is among those that are looked at. -/
theorem mem_declared_iff (hp : p.ids.Nodup) :
    s ∈ ((p.ancestorContracts c.id).flatMap Contract.ancestorFunctions).map
        AncestorFunction.signature ↔ ∃ d, p.DeclaresAbove c s d := by
  simp only [← mem_sources_iff hp, sources, List.mem_filter, List.contains_iff_mem,
    Contract.mem_signatures, Contract.ancestorFunctions, List.mem_map, List.mem_flatMap]
  constructor
  · rintro ⟨_, ⟨d, hd, f, hf, rfl⟩, rfl⟩
    exact ⟨d, hd, f, hf, rfl⟩
  · rintro ⟨d, hd, f, hf, rfl⟩
    exact ⟨_, ⟨d, hd, f, hf, rfl⟩, rfl⟩

/-- The analysis takes a signature for settled by an override exactly if it is. -/
theorem any_overridden_iff (hp : p.ids.Nodup) :
    (((p.ancestorContracts c.id).flatMap Contract.ancestorFunctions).any fun f =>
        f.signature == s && c.overriddenIds.contains f.id) ↔ p.Settles c s := by
  simp only [List.any_eq_true, List.mem_flatMap, Contract.ancestorFunctions, List.mem_map,
    Bool.and_eq_true, beq_iff_eq, List.contains_iff_mem, Contract.mem_overriddenIds,
    mem_ancestorContracts_iff hp]
  constructor
  · rintro ⟨_, ⟨d, ⟨hd, ha⟩, g, hg, rfl⟩, hs, o, ho, hid⟩
    exact ⟨o, ho, d, ⟨hd, ha, Contract.mem_signatures.2 ⟨g, hg, hs⟩⟩, g, hg, hid.symm, hs⟩
  · rintro ⟨o, ho, d, hd, g, hg, hid, hs⟩
    exact ⟨_, ⟨d, ⟨hd.registered, hd.above⟩, g, hg, rfl⟩, hs, o, ho, hid.symm⟩

/-- **An ambiguity is found** exactly for a signature that the contract neither declares nor settles
and that has more than one rival. -/
theorem mem_ambiguities_iff (hp : p.ids.Nodup) {names : List String} :
    .ambiguousFunction c.id s names ∈ p.ambiguities c ↔
      (∃ d, p.DeclaresAbove c s d) ∧ s ∉ c.signatures ∧ ¬p.Settles c s ∧
        1 < (p.inheritance.mostDerived (p.sources c s)).length ∧
        names = (p.inheritance.mostDerived (p.sources c s)).map Contract.name := by
  rw [← mem_declared_iff hp, ← any_overridden_iff hp, ambiguities_eq]
  refine List.mem_filterMap.trans ?_
  constructor
  · rintro ⟨t, ht, h⟩
    dsimp only at h
    split at h
    · cases h
    · next hn =>
      split at h
      · next hlt =>
        simp only [Option.some.injEq, InheritanceIssue.ambiguousFunction.injEq, true_and] at h
        obtain ⟨rfl, hnames⟩ := h
        rw [Bool.or_eq_true, not_or, decide_eq_true_iff] at hn
        exact ⟨List.mem_eraseDups.1 ht, hn.1, hn.2, hlt, hnames.symm⟩
      · cases h
  · rintro ⟨ht, hs, ho, hlt, rfl⟩
    refine ⟨s, List.mem_eraseDups.2 ht, ?_⟩
    dsimp only
    rw [if_neg (by rw [Bool.or_eq_true, not_or, decide_eq_true_iff]; exact ⟨hs, ho⟩)]
    exact if_pos hlt

/-- Where there is no loop above a contract, the ambiguities reported about it are those found. -/
theorem ambiguousFunction_mem_iff (hp : p.ids.Nodup) (hc : c ∈ p.contracts)
    (hl : p.linearize c.id ≠ none) {names : List String} :
    .ambiguousFunction c.id s names ∈ p.inheritanceIssues ↔
      .ambiguousFunction c.id s names ∈ p.ambiguities c := by
  rw [mem_inheritanceIssues_iff hp hc hl rfl, ambiguousFunction_mem_append_iff]

/-- **Two rivals are reported unless the contract keeps an override of one of the declarations.** -/
theorem not_reported_iff (hp : p.ids.Nodup) (hc : c ∈ p.contracts) (hl : p.linearize c.id ≠ none)
    (hs : s ∉ c.signatures) {a b : Contract} (ha : p.Rival c s a) (hb : p.Rival c s b)
    (hab : a.id ≠ b.id) :
    (∀ names, .ambiguousFunction c.id s names ∉ p.inheritanceIssues) ↔ p.Settles c s := by
  simp only [ambiguousFunction_mem_iff hp hc hl, mem_ambiguities_iff hp]
  constructor
  · intro h
    by_contra hn
    exact h _ ⟨⟨a, ha.toDeclaresAbove⟩, hs, hn, one_lt_length_of_rivals hp ha hb hab, rfl⟩
  · exact fun h names hm => hm.2.2.1 h

/-- A known parent is above the contract. -/
theorem mem_ancestors_of_mem_knownParents (hp : p.ids.Nodup) (hc : c ∈ p.contracts)
    {parent : Contract} (h : parent ∈ c.knownParents p.contract?) :
    parent ∈ p.contracts ∧ parent.id ∈ p.inheritance.ancestors c.id := by
  obtain ⟨id, hid, hf⟩ := List.mem_filterMap.1 h
  obtain ⟨hm, rfl⟩ := (contract?_eq_some_iff hp).1 hf
  refine ⟨hm, (InheritanceGraph.mem_ancestors_iff p.inheritance_joined).2 (.single ?_)⟩
  exact (edge_iff_of_contract? hp ((contract?_eq_some_iff hp).2 ⟨hc, rfl⟩)).2
    ⟨hid, List.mem_map_of_mem hm⟩

/-- What the source overrides is settled for the analysis, too. -/
theorem settles_of_mem_synthesized (hp : p.ids.Nodup) (hc : c ∈ p.contracts)
    {x : StoredOverride × OverridableFunction} (hx : x ∈ c.synthesized p.contract?) :
    p.Settles c (signatureKey x.2.name x.2.parameters) := by
  obtain ⟨o, target⟩ := x
  obtain ⟨ho, hid, before, after, heq, -⟩ := Contract.mem_synthesized.1 hx
  have hm : target ∈ c.overridable p.contract? := by rw [heq]; simp
  obtain ⟨parent, hparent, g, hg, -, rfl⟩ := Contract.mem_overridable.1 hm
  obtain ⟨hr, ha⟩ := mem_ancestors_of_mem_knownParents hp hc hparent
  exact ⟨o, ho, parent, ⟨hr, ha, Contract.mem_signatures.2 ⟨g, hg, rfl⟩⟩, g, hg, hid, rfl⟩

/-- **What settles an ambiguous function.**  Above a contract without a loop let two rivals declare a
function that the contract does not declare.  The analysis reports nothing about it exactly if the
contract keeps an override of one of the declarations, be it virtual or not and the ancestor a parent
or not.  The source has an override of a function of that name and those parameter types exactly if
the contract keeps one that names, first of the virtual functions of its parents, such a function; it
stands among the blocks of the source, and the analysis reports nothing then. -/
theorem ambiguity_settled_iff (hp : p.ids.Nodup) (hc : c ∈ p.contracts)
    (hl : p.linearize c.id ≠ none) {name : String} {parameters : List Parameter}
    (hs : signatureKey name parameters ∉ c.signatures) {a b : Contract}
    (ha : p.Rival c (signatureKey name parameters) a)
    (hb : p.Rival c (signatureKey name parameters) b) (hab : a.id ≠ b.id) :
    ((∀ names, .ambiguousFunction c.id (signatureKey name parameters) names ∉
        p.inheritanceIssues) ↔ p.Settles c (signatureKey name parameters)) ∧
      ((∃ x ∈ c.synthesized p.contract?, x.2.name = name ∧
          x.2.parameters.map Parameter.dataType = parameters.map Parameter.dataType) ↔
        ∃ o ∈ c.storedOverrides, ∃ parent ∈ c.knownParents p.contract?,
          ∃ g ∈ parent.functions, g.2.isVirtual ∧ g.1.name = name ∧
            g.2.parameters.map Parameter.dataType = parameters.map Parameter.dataType ∧
            o.Replaces (c.overridable p.contract?) (.ofFunction parent g.1 g.2)) ∧
      (∀ o, c.source p.contract? o =
          Source.assemble o (Source.header c.name ((c.knownParents p.contract?).map Contract.name))
            (c.sourceBlocks p.contract? o) ∧
        ((c.synthesized p.contract?).map fun x => x.1.source x.2 o).Sublist
          (c.sourceBlocks p.contract? o)) ∧
      ((∃ x ∈ c.synthesized p.contract?, x.2.name = name ∧
          x.2.parameters.map Parameter.dataType = parameters.map Parameter.dataType) →
        ∀ names, .ambiguousFunction c.id (signatureKey name parameters) names ∉
          p.inheritanceIssues) := by
  have hreported := not_reported_iff hp hc hl hs ha hb hab
  refine ⟨hreported, ⟨?_, ?_⟩, fun o => ⟨c.source_eq_assemble _ o, c.synthesized_sublist _ o⟩, ?_⟩
  · rintro ⟨⟨o, target⟩, hx, hname, htypes⟩
    obtain ⟨ho, hr⟩ := Contract.mem_synthesized.1 hx
    have hm : target ∈ c.overridable p.contract? := by
      obtain ⟨-, before, after, heq, -⟩ := hr
      rw [heq]
      simp
    obtain ⟨parent, hparent, g, hg, hv, rfl⟩ := Contract.mem_overridable.1 hm
    exact ⟨o, ho, parent, hparent, g, hg, hv, hname, htypes, hr⟩
  · rintro ⟨o, ho, parent, -, g, -, -, hname, htypes, hr⟩
    exact ⟨(o, _), Contract.mem_synthesized.2 ⟨ho, hr⟩, hname, htypes⟩
  · rintro ⟨x, hx, hname, htypes⟩
    have hkey : signatureKey x.2.name x.2.parameters = signatureKey name parameters := by
      unfold signatureKey
      rw [hname, htypes]
    exact hreported.2 (hkey ▸ settles_of_mem_synthesized hp hc hx)

/-! ### A contested function -/

namespace Contested

variable (isVirtual : Bool)

/-- A function `pause` without parameters. -/
def pause (id : BlockId) : Block :=
  ⟨id, "pause", "", .basic, [], .function ⟨.pub, .nonpayable, [], [], [], isVirtual, "", []⟩⟩

/-- A contract that declares `pause`. -/
def left : Contract := ⟨"left", "Left", [⟨pause isVirtual "l-f", .origin⟩], []⟩

/-- Another one. -/
def right : Contract := ⟨"right", "Right", [⟨pause isVirtual "r-f", .origin⟩], []⟩

/-- A contract that inherits from both and keeps, with a function of another name, an override of the
`pause` of the first. -/
def child : Contract :=
  ⟨"child", "Child", [⟨⟨"c-f", "resume", "", .basic, [], .function
    ⟨.pub, .nonpayable, [], [], [], false, "", [.fresh "l-f"]⟩⟩, .origin⟩], ["left", "right"]⟩

/-- The three contracts; `pause` is virtual or not. -/
def project : Project := ⟨"p", "Contested", [left isVirtual, right isVirtual, child], none, .idle⟩

theorem ids_nodup : (project isVirtual).ids.Nodup := by
  show ["left", "right", "child"].Nodup
  decide

theorem edge_iff {a b : ContractId} :
    (project isVirtual).inheritance.Edge a b ↔ a = "child" ∧ (b = "left" ∨ b = "right") := by
  have hedges : (project isVirtual).inheritance.edges = [("child", "left"), ("child", "right")] := by
    cases isVirtual <;> decide
  rw [InheritanceGraph.Edge, hedges]
  simp only [List.mem_cons, List.not_mem_nil, or_false, Prod.mk.injEq, and_or_left]

/-- No parent has a parent. -/
theorem mem_ancestors_iff {a b : ContractId} : b ∈ (project isVirtual).inheritance.ancestors a ↔
    a = "child" ∧ (b = "left" ∨ b = "right") := by
  rw [InheritanceGraph.mem_ancestors_iff (inheritance_joined _)]
  refine ⟨fun h => ?_, fun h => .single ((edge_iff isVirtual).2 h)⟩
  induction h with
  | single h => exact (edge_iff isVirtual).1 h
  | tail _ hb ih =>
    obtain ⟨rfl, -⟩ := (edge_iff isVirtual).1 hb
    exact absurd ih.2 (by decide)

theorem not_onLoop (a : ContractId) : ¬(project isVirtual).inheritance.OnLoop a := fun h => by
  obtain ⟨rfl, h⟩ := (mem_ancestors_iff isVirtual).1
    ((InheritanceGraph.mem_ancestors_iff (inheritance_joined _)).2 h)
  exact absurd h (by decide)

theorem linearize_ne_none : (project isVirtual).linearize child.id ≠ none := fun h => by
  rcases (linearize_eq_none_iff (ids_nodup isVirtual) (c := child) (by simp [project])).1 h with
    h | ⟨a, -, h⟩
  · exact not_onLoop isVirtual _ h
  · exact not_onLoop isVirtual _ h

/-- A parent that declares the function is a rival. -/
theorem rival {d : Contract} (hd : d ∈ (project isVirtual).contracts)
    (hid : d.id = "left" ∨ d.id = "right") (hs : "pause()" ∈ d.signatures) :
    (project isVirtual).Rival child "pause()" d where
  registered := hd
  above := (mem_ancestors_iff isVirtual).2 ⟨rfl, hid⟩
  declares := hs
  derived o ho _ h := by
    obtain ⟨hchild, -⟩ := (mem_ancestors_iff isVirtual).1 h
    obtain ⟨-, habove⟩ := (mem_ancestors_iff isVirtual).1 ho.above
    rw [hchild] at habove
    exact absurd habove (by decide)

theorem rival_left : (project isVirtual).Rival child "pause()" (left isVirtual) :=
  rival isVirtual (by simp [project]) (Or.inl rfl) (by cases isVirtual <;> decide)

theorem rival_right : (project isVirtual).Rival child "pause()" (right isVirtual) :=
  rival isVirtual (by simp [project]) (Or.inr rfl) (by cases isVirtual <;> decide)

/-- The override settles the function for the analysis. -/
theorem settles : (project isVirtual).Settles child "pause()" :=
  ⟨.fresh "l-f", by decide, left isVirtual, (rival_left isVirtual).toDeclaresAbove,
    (pause isVirtual "l-f", ⟨.pub, .nonpayable, [], [], [], isVirtual, "", []⟩),
    by cases isVirtual <;> decide, rfl, by cases isVirtual <;> decide⟩

end Contested

open Contested in
theorem ambiguity_settled_iff_contested :
    (project true).ids.Nodup ∧ (project true).linearize child.id ≠ none ∧
      signatureKey "pause" [] ∉ child.signatures ∧
      (project true).Rival child "pause()" (left true) ∧
      (project true).Rival child "pause()" (right true) ∧
      (∃ x ∈ child.synthesized (project true).contract?, x.2.name = "pause" ∧
        x.2.parameters.map Parameter.dataType = []) ∧
      ∀ names, .ambiguousFunction "child" "pause()" names ∉ (project true).inheritanceIssues := by
  have hs : signatureKey "pause" [] ∉ child.signatures := by decide
  obtain ⟨-, hsource, -, hsettled⟩ := ambiguity_settled_iff (ids_nodup true) (c := child)
    (by simp [project]) (linearize_ne_none true) hs (rival_left true)
    (rival_right true) (by decide)
  have hoverride := hsource.2
    ⟨.fresh "l-f", by decide, left true, by decide,
      (pause true "l-f", ⟨.pub, .nonpayable, [], [], [], true, "", []⟩), by decide, rfl, rfl, rfl,
      rfl, [], _, rfl, by simp⟩
  exact ⟨ids_nodup true, linearize_ne_none true, hs, rival_left true, rival_right true, hoverride,
    hsettled hoverride⟩

open Contested in
/-- **Silence of the analysis does not mean that the source has an override:** where the function that
is overridden is not virtual, the analysis reports nothing and nothing is written. -/
theorem settled_without_source :
    ¬∀ (p : Project), p.ids.Nodup → ∀ c ∈ p.contracts, p.linearize c.id ≠ none →
      ∀ (name : String) (parameters : List Parameter),
        signatureKey name parameters ∉ c.signatures →
        ∀ a b, p.Rival c (signatureKey name parameters) a →
          p.Rival c (signatureKey name parameters) b → a.id ≠ b.id →
          (∀ names, .ambiguousFunction c.id (signatureKey name parameters) names ∉
            p.inheritanceIssues) →
          ∃ x ∈ c.synthesized p.contract?, x.2.name = name ∧
            x.2.parameters.map Parameter.dataType = parameters.map Parameter.dataType := by
  intro h
  have hs : signatureKey "pause" [] ∉ child.signatures := by decide
  have hc : child ∈ (project false).contracts := by simp [project]
  have hsilent := (not_reported_iff (ids_nodup false) hc (linearize_ne_none false) hs
    (rival_left false) (rival_right false) (by decide)).2 (settles false)
  obtain ⟨x, hx, -⟩ := h (project false) (ids_nodup false) child hc (linearize_ne_none false)
    "pause" [] hs (left false) (right false) (rival_left false) (rival_right false) (by decide)
    hsilent
  have hnone : child.synthesized (project false).contract? = [] := by decide
  rw [hnone] at hx
  cases hx

end Project

end ContractBlocks
