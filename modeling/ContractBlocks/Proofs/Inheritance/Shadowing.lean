/-
# What settles a function for the contracts below

A contract may settle a function for itself in two ways: it may declare it, or it may keep an
override of one of the declarations above it.  Only the first counts for the contracts below.  A
contract that declares the function shadows the declarations above it, so below it there are no
rivals where all other declarations are above it.  An override that a contract keeps is asked for
when that contract is looked at, and not when those below are: below it the rivals are those that it
has itself, in the same order (`Project.sources_eq`).

`Project.settled_above` says both.  `Project.settled_for_parent_only` is a contract that settles a
function by an override and leaves it contested for its heir.

Two rivals are needed for an ambiguity, so it matters that no ancestor is met twice: the ancestors
stand in strict order of identity (`Project.pairwise_ancestorContracts`).
-/

import ContractBlocks.Proofs.Inheritance.Ambiguity

namespace ContractBlocks

namespace Project

variable {p : Project} {c m : Contract} {s : String}

/-- The ancestors that declare a signature stand in strict order of identity. -/
theorem pairwise_sources (p : Project) (c : Contract) (s : String) :
    (p.sources c s).Pairwise fun a b => a.id < b.id :=
  (p.pairwise_ancestorContracts c.id).sublist List.filter_sublist

/-- **The same declarations above two contracts** are found in the same order. -/
theorem sources_eq (hp : p.ids.Nodup)
    (h : ∀ d, p.DeclaresAbove c s d ↔ p.DeclaresAbove m s d) : p.sources c s = p.sources m s := by
  let r : Contract → Contract → Prop := fun a b => a.id < b.id
  have : Std.Irrefl r := ⟨fun a => lt_irrefl a.id⟩
  have : Std.Antisymm r := ⟨fun a b hab hba => absurd hab (lt_asymm hba)⟩
  have hc : (p.sources c s).Pairwise r := p.pairwise_sources c s
  refine hc.eq_of_mem_iff (p.pairwise_sources m s) fun d => ?_
  rw [mem_sources_iff hp, mem_sources_iff hp, h]

/-- The list of rivals is longer than one exactly if there are two. -/
theorem one_lt_length_iff (hp : p.ids.Nodup) :
    1 < (p.inheritance.mostDerived (p.sources c s)).length ↔
      ∃ a b, p.Rival c s a ∧ p.Rival c s b ∧ a.id ≠ b.id := by
  constructor
  · intro h
    have hpairwise : (p.inheritance.mostDerived (p.sources c s)).Pairwise fun a b => a.id < b.id :=
      (p.pairwise_sources c s).sublist List.filter_sublist
    match hr : p.inheritance.mostDerived (p.sources c s) with
    | [] | [a] => rw [hr] at h; simp at h
    | a :: b :: rest =>
      rw [hr] at hpairwise
      have ha : p.Rival c s a := (mem_mostDerived_iff hp).1 (by rw [hr]; simp)
      have hb : p.Rival c s b := (mem_mostDerived_iff hp).1 (by rw [hr]; simp)
      exact ⟨a, b, ha, hb, ne_of_lt ((List.pairwise_cons.1 hpairwise).1 b List.mem_cons_self)⟩
  · rintro ⟨a, b, ha, hb, hab⟩
    exact one_lt_length_of_rivals hp ha hb hab

/-! ### Above an ancestor that settles a function -/

/-- An ancestor of an ancestor is an ancestor. -/
theorem mem_ancestors_trans {a b d : ContractId} (hb : b ∈ p.inheritance.ancestors a)
    (hd : d ∈ p.inheritance.ancestors b) : d ∈ p.inheritance.ancestors a := by
  rw [InheritanceGraph.mem_ancestors_iff p.inheritance_joined] at hb hd ⊢
  exact hb.trans hd

/-- Without loops, every registered contract has its ancestors in order. -/
theorem linearize_ne_none_of_acyclic (hp : p.ids.Nodup) (hacyclic : p.inheritance.hasCycles = false)
    (hc : c ∈ p.contracts) : p.linearize c.id ≠ none :=
  linearize_ne_none_of_loopless hp hc fun b _ => loopless_of_acyclic hacyclic b

/-- All contracts above the first one that declare the signature are the second one or above it. -/
def Covers (p : Project) (c : Contract) (s : String) (m : Contract) : Prop :=
  ∀ d, p.DeclaresAbove c s d → d.id ≠ m.id → d.id ∈ p.inheritance.ancestors m.id

/-- **A declaration shadows those above it:** it has no rivals where all others are above it. -/
theorem Covers.eq_of_rival (h : p.Covers c s m) (hm : p.DeclaresAbove c s m) {d : Contract}
    (hd : p.Rival c s d) : d.id = m.id := by
  by_contra hne
  exact hd.derived m hm (Ne.symm hne) (h d hd.toDeclaresAbove hne)

/-- Below an ancestor that does not declare the signature, the declarations above are its own. -/
theorem Covers.declaresAbove_iff (h : p.Covers c s m) (hp : p.ids.Nodup) (hm : m ∈ p.contracts)
    (habove : m.id ∈ p.inheritance.ancestors c.id) (hs : s ∉ m.signatures) (d : Contract) :
    p.DeclaresAbove c s d ↔ p.DeclaresAbove m s d := by
  constructor
  · intro hd
    refine ⟨hd.registered, h d hd fun hid => ?_, hd.declares⟩
    obtain rfl : d = m := List.inj_on_of_nodup_map hp hd.registered hm hid
    exact hs hd.declares
  · exact fun hd => ⟨hd.registered, mem_ancestors_trans habove hd.above, hd.declares⟩

/-- The rivals below an ancestor that does not declare the signature are its own. -/
theorem Covers.reported_iff (h : p.Covers c s m) (hp : p.ids.Nodup)
    (hl : p.linearize c.id ≠ none) (hc : c ∈ p.contracts) (hm : m ∈ p.contracts)
    (habove : m.id ∈ p.inheritance.ancestors c.id) (hs : s ∉ m.signatures) (names : List String) :
    .ambiguousFunction c.id s names ∈ p.inheritanceIssues ↔
      s ∉ c.signatures ∧ ¬p.Settles c s ∧
        (∃ a b, p.Rival m s a ∧ p.Rival m s b ∧ a.id ≠ b.id) ∧
        names = (p.inheritance.mostDerived (p.sources m s)).map Contract.name := by
  have hsame := h.declaresAbove_iff hp hm habove hs
  rw [ambiguousFunction_mem_iff hp hc hl, mem_ambiguities_iff hp, sources_eq hp hsame,
    one_lt_length_iff hp]
  constructor
  · rintro ⟨-, hdeclared, hsettled, hrivals, hnames⟩
    exact ⟨hdeclared, hsettled, hrivals, hnames⟩
  · rintro ⟨hdeclared, hsettled, ⟨a, b, ha, hb, hab⟩, hnames⟩
    exact ⟨⟨a, (hsame a).2 ha.toDeclaresAbove⟩, hdeclared, hsettled, ⟨a, b, ha, hb, hab⟩, hnames⟩

/-- An override that is found among the virtual functions of the parents settles its signature. -/
theorem settles_of_target? (hp : p.ids.Nodup) (hm : m ∈ p.contracts) {o : StoredOverride}
    (ho : o ∈ m.storedOverrides) {target : OverridableFunction}
    (ht : o.target? (m.overridable p.contract?) = some target) :
    p.Settles m (signatureKey target.name target.parameters) :=
  settles_of_mem_synthesized hp hm (x := (o, target))
    (Contract.mem_synthesized.2 ⟨ho, StoredOverride.target?_eq_some_iff.1 ht⟩)

/-- **What settles a function for the contracts below.**  In a project without loops let all other
ancestors of a contract that declare a signature be ancestors of one of its ancestors.  If that
ancestor declares the signature, no ambiguity is reported about the contract.  If it does not, but
keeps an override that is found among the virtual functions of its parents, none is reported about
the ancestor itself.  Yet the override does not count below it: about the contract an ambiguity is
reported exactly if the contract neither declares nor settles the signature and the ancestor has two
rivals for it, and what is reported is what the ancestor has contested. -/
theorem settled_above (hp : p.ids.Nodup) (hacyclic : p.inheritance.hasCycles = false)
    (hc : c ∈ p.contracts) (hm : m ∈ p.contracts) (habove : m.id ∈ p.inheritance.ancestors c.id)
    (hcovers : p.Covers c s m) :
    (s ∈ m.signatures → ∀ names, .ambiguousFunction c.id s names ∉ p.inheritanceIssues) ∧
      (∀ o ∈ m.storedOverrides, ∀ target, o.target? (m.overridable p.contract?) = some target →
        signatureKey target.name target.parameters = s →
        ∀ names, .ambiguousFunction m.id s names ∉ p.inheritanceIssues) ∧
      (s ∉ m.signatures → ∀ names,
        .ambiguousFunction c.id s names ∈ p.inheritanceIssues ↔
          s ∉ c.signatures ∧ ¬p.Settles c s ∧
            (∃ a b, p.Rival m s a ∧ p.Rival m s b ∧ a.id ≠ b.id) ∧
            names = (p.inheritance.mostDerived (p.sources m s)).map Contract.name) := by
  have hlc := linearize_ne_none_of_acyclic hp hacyclic hc
  have hlm := linearize_ne_none_of_acyclic hp hacyclic hm
  refine ⟨fun hs names hreported => ?_, fun o ho target ht htarget names hreported => ?_,
    fun hs names => hcovers.reported_iff hp hlc hc hm habove hs names⟩
  · rw [ambiguousFunction_mem_iff hp hc hlc, mem_ambiguities_iff hp, one_lt_length_iff hp]
      at hreported
    obtain ⟨-, -, -, ⟨a, b, ha, hb, hab⟩, -⟩ := hreported
    have hdeclares : p.DeclaresAbove c s m := ⟨hm, habove, hs⟩
    exact hab ((hcovers.eq_of_rival hdeclares ha).trans (hcovers.eq_of_rival hdeclares hb).symm)
  · rw [ambiguousFunction_mem_iff hp hm hlm, mem_ambiguities_iff hp] at hreported
    obtain rfl := htarget
    exact hreported.2.2.1 (settles_of_target? hp hm ho ht)

/-! ### An heir -/

namespace Contested

/-- A contract without blocks that inherits from `child`. -/
def heir : Contract := ⟨"heir", "Heir", [], ["child"]⟩

/-- The three contracts, with virtual functions, and the heir. -/
def lineage : Project := ⟨"p", "Contested", [left true, right true, child, heir], none, .idle⟩

theorem lineage_ids_nodup : lineage.ids.Nodup := by
  show ["left", "right", "child", "heir"].Nodup
  decide

theorem lineage_edge_iff {a b : ContractId} : lineage.inheritance.Edge a b ↔
    a = "child" ∧ (b = "left" ∨ b = "right") ∨ a = "heir" ∧ b = "child" := by
  have hedges : lineage.inheritance.edges =
      [("child", "left"), ("child", "right"), ("heir", "child")] := by decide
  rw [InheritanceGraph.Edge, hedges]
  simp only [List.mem_cons, List.not_mem_nil, or_false, Prod.mk.injEq, and_or_left, or_assoc]

theorem mem_lineage_ancestors_iff {a b : ContractId} : b ∈ lineage.inheritance.ancestors a ↔
    (a = "child" ∨ a = "heir") ∧ (b = "left" ∨ b = "right") ∨ a = "heir" ∧ b = "child" := by
  rw [InheritanceGraph.mem_ancestors_iff (inheritance_joined _)]
  have hparents : ∀ {b}, b = "left" ∨ b = "right" → lineage.inheritance.Edge "child" b :=
    fun hb => lineage_edge_iff.2 (Or.inl ⟨rfl, hb⟩)
  have hchild : lineage.inheritance.Edge "heir" "child" := lineage_edge_iff.2 (Or.inr ⟨rfl, rfl⟩)
  constructor
  · intro h
    induction h with
    | single h =>
      rcases lineage_edge_iff.1 h with ⟨rfl, hb⟩ | ⟨rfl, rfl⟩
      · exact Or.inl ⟨Or.inl rfl, hb⟩
      · exact Or.inr ⟨rfl, rfl⟩
    | tail _ h ih =>
      rcases lineage_edge_iff.1 h with ⟨rfl, hb⟩ | ⟨rfl, rfl⟩
      · rcases ih with ⟨-, ih⟩ | ⟨rfl, -⟩
        · exact absurd ih (by decide)
        · exact Or.inl ⟨Or.inr rfl, hb⟩
      · -- nothing inherits from the heir
        rcases ih with ⟨-, ih⟩ | ⟨-, ih⟩
        · exact absurd ih (by decide)
        · exact absurd ih (by decide)
  · rintro (⟨rfl | rfl, hb⟩ | ⟨rfl, rfl⟩)
    · exact .single (hparents hb)
    · exact .tail (.single hchild) (hparents hb)
    · exact .single hchild

theorem lineage_acyclic : lineage.inheritance.hasCycles = false := by
  rw [Bool.eq_false_iff]
  intro h
  obtain ⟨a, ha⟩ := (InheritanceGraph.hasCycles_iff (inheritance_joined _)).1 h
  have hself : a ∈ lineage.inheritance.ancestors a :=
    (InheritanceGraph.mem_ancestors_iff (inheritance_joined _)).2 ha
  rcases mem_lineage_ancestors_iff.1 hself with ⟨rfl | rfl, h⟩ | ⟨rfl, h⟩ <;>
    exact absurd h (by decide)

/-- A parent of the child that declares the function is a rival. -/
theorem lineage_rival {d : Contract} (hd : d ∈ lineage.contracts)
    (hid : d.id = "left" ∨ d.id = "right") (hs : "pause()" ∈ d.signatures) :
    lineage.Rival child "pause()" d where
  registered := hd
  above := mem_lineage_ancestors_iff.2 (Or.inl ⟨Or.inl rfl, hid⟩)
  declares := hs
  derived o ho _ h := by
    have habove : o.id = "left" ∨ o.id = "right" := by
      rcases mem_lineage_ancestors_iff.1 ho.above with ⟨-, habove⟩ | ⟨hchild, -⟩
      · exact habove
      · exact absurd hchild (by decide)
    rcases mem_lineage_ancestors_iff.1 h with ⟨hbelow, -⟩ | ⟨hbelow, -⟩ <;>
      rcases habove with habove | habove <;> rw [habove] at hbelow <;>
        exact absurd hbelow (by decide)

/-- What the heir has above it, the child has above it. -/
theorem lineage_covers : lineage.Covers heir "pause()" child := by
  intro d hd hne
  rcases mem_lineage_ancestors_iff.1 hd.above with ⟨-, hid⟩ | ⟨-, hid⟩
  · exact mem_lineage_ancestors_iff.2 (Or.inl ⟨Or.inl rfl, hid⟩)
  · exact absurd hid hne

theorem child_above_heir : child.id ∈ lineage.inheritance.ancestors heir.id :=
  mem_lineage_ancestors_iff.2 (Or.inr ⟨rfl, rfl⟩)

/-- The child has two rivals for the function. -/
theorem lineage_rivals : ∃ a b, lineage.Rival child "pause()" a ∧ lineage.Rival child "pause()" b ∧
    a.id ≠ b.id :=
  ⟨left true, right true, lineage_rival (by simp [lineage]) (Or.inl rfl) (by decide),
    lineage_rival (by simp [lineage]) (Or.inr rfl) (by decide), by decide⟩

theorem heir_not_settles : ¬lineage.Settles heir "pause()" := by
  rintro ⟨o, ho, -⟩
  have hnone : heir.storedOverrides = [] := rfl
  rw [hnone] at ho
  cases ho

end Contested

open Contested in
theorem settled_above_heir :
    lineage.ids.Nodup ∧ lineage.inheritance.hasCycles = false ∧ heir ∈ lineage.contracts ∧
      child ∈ lineage.contracts ∧ child.id ∈ lineage.inheritance.ancestors heir.id ∧
      lineage.Covers heir "pause()" child ∧
      (∀ names, .ambiguousFunction "child" "pause()" names ∉ lineage.inheritanceIssues) ∧
      ∃ names, .ambiguousFunction "heir" "pause()" names ∈ lineage.inheritanceIssues := by
  have hheir : heir ∈ lineage.contracts := by simp [lineage]
  have hchild : child ∈ lineage.contracts := by simp [lineage]
  obtain ⟨-, hsettled, hreported⟩ := settled_above lineage_ids_nodup lineage_acyclic hheir hchild
    child_above_heir lineage_covers
  refine ⟨lineage_ids_nodup, lineage_acyclic, hheir, hchild, child_above_heir, lineage_covers, ?_,
    _, (hreported (by decide) _).2 ⟨by decide, heir_not_settles, lineage_rivals, rfl⟩⟩
  exact hsettled (.fresh "l-f") (by decide) _ rfl rfl

open Contested in
/-- **An override settles a function for its contract only:** the heir of a contract that keeps one
has the ambiguity again. -/
theorem settled_for_parent_only :
    ¬∀ (p : Project), p.ids.Nodup → p.inheritance.hasCycles = false →
      ∀ c ∈ p.contracts, ∀ m ∈ p.contracts, m.id ∈ p.inheritance.ancestors c.id →
        ∀ s : String, (s ∈ m.signatures ∨ ∃ o ∈ m.storedOverrides, ∃ target,
            o.target? (m.overridable p.contract?) = some target ∧
              signatureKey target.name target.parameters = s) →
          (∀ d, p.DeclaresAbove c s d → d.id ≠ m.id → d.id ∈ p.inheritance.ancestors m.id) →
          ∀ names, .ambiguousFunction c.id s names ∉ p.inheritanceIssues := by
  intro h
  have hheir : heir ∈ lineage.contracts := by simp [lineage]
  have hchild : child ∈ lineage.contracts := by simp [lineage]
  have hsettles : ∃ o ∈ child.storedOverrides, ∃ target,
      o.target? (child.overridable lineage.contract?) = some target ∧
        signatureKey target.name target.parameters = "pause()" :=
    ⟨.fresh "l-f", by decide, _, rfl, rfl⟩
  have hreported := (lineage_covers.reported_iff lineage_ids_nodup
    (linearize_ne_none_of_acyclic lineage_ids_nodup lineage_acyclic hheir) hheir hchild
    child_above_heir (by decide) _).2 ⟨by decide, heir_not_settles, lineage_rivals, rfl⟩
  exact h lineage lineage_ids_nodup lineage_acyclic heir hheir child hchild child_above_heir
    "pause()" (Or.inr hsettles) lineage_covers _ hreported

end Project
end ContractBlocks
