/-
# The ambiguous functions of a contract

Of the ancestors that declare a function of one signature, those count as rivals from which no other
of them inherits (`Project.MostDerived`).  The analysis finds who declares a signature by a pass over
all declared functions, and who is above whom by walking; both have been described before, so what it
reports about a contract and a signature can be told by what the contracts declare and inherit.

What is left is that nothing is reported twice.  Each signature that is inherited has one entry in
the end of the pass, so one ambiguity of the contract at most is about it
(`Project.filterMap_sources?_ambiguities`), and no other contract has ambiguities that are reported
about this one.

`Project.ambiguities_exact` puts this together.
-/

import ContractBlocks.Proofs.Inheritance.Diamonds

namespace ContractBlocks

/-! ### What is found once -/

/-- What is found is all that is found, if one element only can give anything. -/
theorem filterMap_eq_singleton {α β : Type} {f : α → Option β} {xs : List α} (hxs : xs.Nodup)
    {x : α} (hothers : ∀ y, y ≠ x → f y = none) {b : β} (hb : b ∈ xs.filterMap f) :
    xs.filterMap f = [b] := by
  obtain ⟨y, hy, hfy⟩ := List.mem_filterMap.1 hb
  obtain rfl : y = x := by
    by_contra hne
    rw [hothers y hne] at hfy
    cases hfy
  have hnone : ∀ z ∈ xs, z ≠ y → (f z).toList = [] := fun z _ hz => by
    rw [hothers z hz, Option.toList_none]
  rw [List.filterMap_eq_flatMap_toList, flatMap_eq_of_mem hxs hy hnone, hfy, Option.toList_some]

/-- The names in a report that the signature is ambiguous for the contract. -/
def InheritanceIssue.sources? (contract : ContractId) (signature : String) :
    InheritanceIssue → Option (List String)
  | .ambiguousFunction c s names => if c = contract ∧ s = signature then some names else none
  | _ => none

namespace Project

variable {p : Project} {c : Contract} {s : String}

/-- **A signature is reported once** among the ambiguities of a contract. -/
theorem filterMap_sources?_ambiguities {names : List String}
    (h : names ∈ (p.ambiguities c).filterMap (InheritanceIssue.sources? c.id s)) :
    (p.ambiguities c).filterMap (InheritanceIssue.sources? c.id s) = [names] := by
  rw [ambiguities_eq, List.filterMap_filterMap] at h ⊢
  refine filterMap_eq_singleton (nodup_eraseDups _) (x := s) (fun t ht => ?_) h
  dsimp only
  split
  · rfl
  · split
    · exact if_neg fun hts => ht hts.2
    · rfl

/-- The reports about a contract and a signature are among the ambiguities of that contract. -/
theorem filterMap_sources?_inheritanceIssues (hp : p.ids.Nodup) (hc : c ∈ p.contracts)
    (hl : p.linearize c.id ≠ none) (s : String) :
    p.inheritanceIssues.filterMap (InheritanceIssue.sources? c.id s) =
      (p.ambiguities c).filterMap (InheritanceIssue.sources? c.id s) := by
  have hsubject : ∀ i : InheritanceIssue,
      i.sources? c.id s = if i.subject? = some c.id then i.sources? c.id s else none := by
    intro i
    split
    · rfl
    · next h =>
      cases i with
      | ambiguousFunction id t names =>
        have hid : id ≠ c.id := fun hid => h (congrArg some hid)
        exact if_neg fun hboth => hid hboth.1
      | missingParent | cycle | diamond => rfl
  have hdiamonds : (p.diamonds c).filterMap (InheritanceIssue.sources? c.id s) = [] := by
    refine List.filterMap_eq_nil_iff.2 fun i hi => ?_
    obtain ⟨a, rfl⟩ := contract_eq_of_mem_diamonds hi
    rfl
  calc p.inheritanceIssues.filterMap (InheritanceIssue.sources? c.id s)
      = (p.inheritanceIssues.filter fun i => i.subject? = some c.id).filterMap
          (InheritanceIssue.sources? c.id s) := by
        rw [List.filterMap_filter]
        simp only [decide_eq_true_eq, ← hsubject]
    _ = (p.ambiguities c).filterMap (InheritanceIssue.sources? c.id s) := by
        rw [filter_subject?_eq hp hc hl, List.filterMap_append, hdiamonds, List.nil_append]

/-! ### The most derived declarations -/

/-- Of the ancestors of a contract that declare the signature, one that is no ancestor of another. -/
structure MostDerived (p : Project) (c : Contract) (s : String) (d : Contract) : Prop where
  registered : d ∈ p.contracts
  above : Relation.TransGen p.Inherits c.id d.id
  declares : s ∈ d.signatures
  derived : ∀ o ∈ p.contracts, Relation.TransGen p.Inherits c.id o.id → s ∈ o.signatures → o ≠ d →
    ¬Relation.TransGen p.Inherits o.id d.id

/-- The rivals are the most derived declarers. -/
theorem rival_iff_mostDerived (hp : p.ids.Nodup) {d : Contract} :
    p.Rival c s d ↔ p.MostDerived c s d := by
  constructor
  · intro h
    refine ⟨h.registered, mem_ancestors_iff_reaches.1 h.above, h.declares,
      fun o ho hco hs hne hod => ?_⟩
    have hid : o.id ≠ d.id := fun hid => hne (List.inj_on_of_nodup_map hp ho h.registered hid)
    exact h.derived o ⟨ho, mem_ancestors_iff_reaches.2 hco, hs⟩ hid (mem_ancestors_iff_reaches.2 hod)
  · intro h
    refine ⟨⟨h.registered, mem_ancestors_iff_reaches.2 h.above, h.declares⟩,
      fun o ho hid hod => ?_⟩
    exact h.derived o ho.registered (mem_ancestors_iff_reaches.1 ho.above) ho.declares
      (fun hod => hid (congrArg Contract.id hod)) (mem_ancestors_iff_reaches.1 hod)

/-- The contract settles a signature exactly if one of its overrides names a function of that
signature above it. -/
theorem not_settles_iff : ¬p.Settles c s ↔
    ∀ f ∈ c.functions, ∀ o ∈ f.2.overrides, ∀ d ∈ p.contracts,
      Relation.TransGen p.Inherits c.id d.id →
        ∀ g ∈ d.functions, signatureKey g.1.name g.2.parameters = s → o.functionId ≠ g.1.id := by
  constructor
  · intro h f hf o ho d hd hcd g hg hs hid
    exact h ⟨o, List.mem_flatMap.2 ⟨f, hf, ho⟩, d,
      ⟨hd, mem_ancestors_iff_reaches.2 hcd, Contract.mem_signatures.2 ⟨g, hg, hs⟩⟩,
      g, hg, hid.symm, hs⟩
  · rintro h ⟨o, ho, d, hd, g, hg, hid, hs⟩
    obtain ⟨f, hf, ho⟩ := List.mem_flatMap.1 ho
    exact h f hf o ho d hd.registered (mem_ancestors_iff_reaches.1 hd.above) g hg hs hid.symm

/-- **The ambiguous functions of a contract are reported, each once.**  Let nothing above a contract
inherit from itself.  A signature is reported as ambiguous exactly if the contract declares no
function of it, no override of the contract names a function of it that an ancestor declares, and
two ancestors that declare it are no ancestors of others that do.  Then there is one report about
the contract and the signature, with the names of all most derived declarers in order of identity. -/
theorem ambiguities_exact (hp : p.ids.Nodup) (hc : c ∈ p.contracts)
    (hacyclic : ∀ b, Relation.TransGen p.Inherits c.id b → ¬Relation.TransGen p.Inherits b b)
    (s : String) :
    ((∃ names, .ambiguousFunction c.id s names ∈ p.inheritanceIssues) ↔
      s ∉ c.signatures ∧
        (∀ f ∈ c.functions, ∀ o ∈ f.2.overrides, ∀ d ∈ p.contracts,
          Relation.TransGen p.Inherits c.id d.id →
            ∀ g ∈ d.functions, signatureKey g.1.name g.2.parameters = s →
              o.functionId ≠ g.1.id) ∧
        ∃ a b, p.MostDerived c s a ∧ p.MostDerived c s b ∧ a ≠ b) ∧
    ∃ rivals : List Contract, rivals.Pairwise (fun a b => a.id < b.id) ∧
      (∀ d, d ∈ rivals ↔ p.MostDerived c s d) ∧
      ∀ names, .ambiguousFunction c.id s names ∈ p.inheritanceIssues →
        names = rivals.map Contract.name ∧
          p.inheritanceIssues.filterMap (InheritanceIssue.sources? c.id s) = [names] := by
  have hl := linearize_ne_none_of_loopless hp hc hacyclic
  have hreported : ∀ names, .ambiguousFunction c.id s names ∈ p.inheritanceIssues ↔
      (∃ d, p.DeclaresAbove c s d) ∧ s ∉ c.signatures ∧ ¬p.Settles c s ∧
        1 < (p.inheritance.mostDerived (p.sources c s)).length ∧
        names = (p.inheritance.mostDerived (p.sources c s)).map Contract.name := fun names =>
    (ambiguousFunction_mem_iff hp hc hl).trans (mem_ambiguities_iff hp)
  refine ⟨?_, p.inheritance.mostDerived (p.sources c s),
    (p.pairwise_sources c s).sublist List.filter_sublist, fun d => ?_, fun names hnames => ⟨?_, ?_⟩⟩
  · simp only [hreported, ← not_settles_iff, ← rival_iff_mostDerived hp, one_lt_length_iff hp]
    constructor
    · rintro ⟨names, -, hs, hsettles, ⟨a, b, ha, hb, hab⟩, -⟩
      exact ⟨hs, hsettles, a, b, ha, hb, fun heq => hab (congrArg Contract.id heq)⟩
    · rintro ⟨hs, hsettles, a, b, ha, hb, hab⟩
      have hid : a.id ≠ b.id := fun hid =>
        hab (List.inj_on_of_nodup_map hp ha.registered hb.registered hid)
      exact ⟨_, ⟨a, ha.toDeclaresAbove⟩, hs, hsettles, ⟨a, b, ha, hb, hid⟩, rfl⟩
  · rw [mem_mostDerived_iff hp, rival_iff_mostDerived hp]
  · exact ((hreported names).1 hnames).2.2.2.2
  · rw [filterMap_sources?_inheritanceIssues hp hc hl]
    have hmem := (ambiguousFunction_mem_iff hp hc hl).1 hnames
    have hview : (InheritanceIssue.ambiguousFunction c.id s names).sources? c.id s = some names :=
      if_pos ⟨rfl, rfl⟩
    exact filterMap_sources?_ambiguities (List.mem_filterMap.2 ⟨_, hmem, hview⟩)

namespace Rivalry

/-- A function `pause` with the given parameters. -/
def pause (id : BlockId) (parameters : List Parameter) : Placed :=
  ⟨⟨id, "pause", "", .basic, [],
    .function ⟨.pub, .nonpayable, parameters, [], [], false, "", []⟩⟩, .origin⟩

/-- A contract with two functions of the same name. -/
def ground : Contract :=
  ⟨"ground", "Ground", [pause "g-f" [], pause "g-o" [⟨"until", "uint256", false, none⟩]], []⟩

/-- A contract that declares one of them again, twice. -/
def left : Contract := ⟨"m-left", "Left", [pause "l-f" [], pause "l-g" []], ["ground"]⟩

/-- A contract that declares it, too. -/
def right : Contract := ⟨"a-right", "Right", [pause "r-f" []], []⟩

/-- A contract that inherits from both and keeps an override of another function. -/
def child : Contract :=
  ⟨"child", "Child", [⟨⟨"c-f", "resume", "", .basic, [], .function
    ⟨.pub, .nonpayable, [], [], [], false, "", [.fresh "g-o"]⟩⟩, .origin⟩],
    ["m-left", "gone", "a-right"]⟩

/-- The contracts, those without parents first. -/
def rivalry : Project := ⟨"p", "Rivalry", [ground, right, left, child], none, .idle⟩

/-- What is above a contract stands before it. -/
theorem idxOf_lt {a b : ContractId} (h : Relation.TransGen rivalry.Inherits a b) :
    rivalry.ids.idxOf b < rivalry.ids.idxOf a :=
  idxOf_lt_of_reaches (by decide) h

theorem inherits_of_mem_edges {e : ContractId × ContractId} (he : e ∈ rivalry.inheritance.edges) :
    Relation.TransGen rivalry.Inherits e.1 e.2 := by
  rw [← edge_eq_inherits]
  exact .single he

/-- Above the one parent there is the common ancestor alone. -/
theorem eq_ground_of_left {b : ContractId} (h : Relation.TransGen rivalry.Inherits left.id b) :
    b = ground.id := by
  obtain ⟨m, hm, hmb⟩ := Relation.TransGen.head'_iff.1 h
  have hparents : ∀ e ∈ rivalry.inheritance.edges, e.1 = left.id → e.2 = ground.id := by decide
  rw [← edge_eq_inherits] at hm
  obtain rfl : m = ground.id := hparents (left.id, m) hm rfl
  refine (Relation.reflTransGen_iff_eq_or_transGen.1 hmb).resolve_right fun hground => ?_
  -- nothing stands before the first contract
  exact Nat.not_lt_zero _ (idxOf_lt hground)

/-- Each of the two parents is a most derived declarer. -/
theorem mostDerived {d : Contract} (hd : d = left ∨ d = right) :
    rivalry.MostDerived child "pause()" d := by
  refine ⟨by rcases hd with rfl | rfl <;> simp [rivalry], ?_, by rcases hd with rfl | rfl <;> decide,
    fun o ho hco _ hne hod => ?_⟩
  · rcases hd with rfl | rfl
    · exact inherits_of_mem_edges (e := (child.id, left.id)) (by decide)
    · exact inherits_of_mem_edges (e := (child.id, right.id)) (by decide)
  · have ho : o = ground ∨ o = right ∨ o = left ∨ o = child := by simpa [rivalry] using ho
    have hbefore := idxOf_lt hod
    rcases ho with rfl | rfl | rfl | rfl
    · exact Nat.not_lt_zero _ hbefore
    · rcases hd with rfl | rfl
      · exact absurd hbefore (by decide)
      · exact hne rfl
    · have hground := eq_ground_of_left hod
      rcases hd with rfl | rfl <;> exact absurd hground (by decide)
    · -- the contract is not above itself
      exact absurd (idxOf_lt hco) (lt_irrefl _)

/-- The declaration of the common ancestor is shadowed. -/
theorem not_mostDerived_ground : ¬rivalry.MostDerived child "pause()" ground := by
  intro h
  exact h.derived left (by simp [rivalry]) (mostDerived (Or.inl rfl)).above (by decide)
    (by decide) (inherits_of_mem_edges (e := (left.id, ground.id)) (by decide))

/-- The override of the child names a function of another signature. -/
theorem override_elsewhere : ∀ f ∈ child.functions, ∀ o ∈ f.2.overrides, ∀ d ∈ rivalry.contracts,
    Relation.TransGen rivalry.Inherits child.id d.id →
      ∀ g ∈ d.functions, signatureKey g.1.name g.2.parameters = "pause()" →
        o.functionId ≠ g.1.id := by
  have hall : ∀ f ∈ child.functions, ∀ o ∈ f.2.overrides, ∀ d ∈ rivalry.contracts,
      ∀ g ∈ d.functions, signatureKey g.1.name g.2.parameters = "pause()" →
        o.functionId ≠ g.1.id := by decide
  exact fun f hf o ho d hd _ g hg => hall f hf o ho d hd g hg

end Rivalry

open Rivalry in
theorem ambiguities_exact_rivalry :
    rivalry.ids.Nodup ∧ child ∈ rivalry.contracts ∧
      (∀ b, Relation.TransGen rivalry.Inherits child.id b →
        ¬Relation.TransGen rivalry.Inherits b b) ∧
      (∃ names, rivalry.inheritanceIssues.filterMap
        (InheritanceIssue.sources? "child" "pause()") = [names] ∧
          "Left" ∈ names ∧ "Right" ∈ names ∧ "Ground" ∉ names) ∧
      ∀ names, .ambiguousFunction "child" "resume()" names ∉ rivalry.inheritanceIssues := by
  have hp : rivalry.ids.Nodup := by decide
  have hc : child ∈ rivalry.contracts := by simp [rivalry]
  have hacyclic : ∀ b, Relation.TransGen rivalry.Inherits child.id b →
      ¬Relation.TransGen rivalry.Inherits b b := fun b _ h => lt_irrefl _ (idxOf_lt h)
  obtain ⟨hpause, rivals, -, hrivals, hnames⟩ := ambiguities_exact hp hc hacyclic "pause()"
  obtain ⟨hresume, -⟩ := ambiguities_exact hp hc hacyclic "resume()"
  obtain ⟨names, hreported⟩ := hpause.2 ⟨by decide, override_elsewhere, left, right,
    mostDerived (Or.inl rfl), mostDerived (Or.inr rfl), by decide⟩
  obtain ⟨rfl, hone⟩ := hnames names hreported
  refine ⟨hp, hc, hacyclic, ⟨_, hone, ?_, ?_, ?_⟩, fun names h => ?_⟩
  · exact List.mem_map_of_mem (f := Contract.name) ((hrivals left).2 (mostDerived (Or.inl rfl)))
  · exact List.mem_map_of_mem (f := Contract.name) ((hrivals right).2 (mostDerived (Or.inr rfl)))
  · intro hmem
    obtain ⟨d, hd, hname⟩ := List.mem_map.1 hmem
    have hmost := (hrivals d).1 hd
    have hmem : d = ground ∨ d = right ∨ d = left ∨ d = child := by
      simpa [rivalry] using hmost.registered
    rcases hmem with rfl | rfl | rfl | rfl
    · exact not_mostDerived_ground hmost
    all_goals exact absurd hname (by decide)
  · exact (hresume.1 ⟨names, h⟩).1 (by decide)

end Project
end ContractBlocks
