/-
# Foreign blocks are inert

A block of a foreign kind declares nothing, has no statements and no source form, keeps no overrides
and breaks no rule.  So nothing that is worked out about a contract depends on the foreign blocks in
it: the overridable functions, the conflicts, the source and the findings are those of the contract
without them, and so are the inheritance issues and the linearizations of a project, whose graph
does not look at blocks at all.  Each of these is one lemma about `withoutForeign`.

Only the validation counts a foreign block, by its identity.  If that is a new one, the blocks
behind it are validated as if it were not there (`withBefore_share_insert`).
`Contract.foreign_inert` puts both together for a block that is put in anywhere.
-/

import ContractBlocks.Inheritance.Issue
import ContractBlocks.Inheritance.Linearization
import ContractBlocks.Proofs.Inheritance.Ambiguity
import ContractBlocks.Proofs.Validation.Contract

namespace ContractBlocks

/-! ### What a foreign block lacks -/

namespace Block

/-- The kind of the block is none of the fourteen. -/
def isForeign (b : Block) : Bool := b.kind.tag?.isNone

variable {b : Block}

theorem exists_kind_of_isForeign (h : b.isForeign) :
    ∃ typeName fields, b.kind = .foreign typeName fields := by
  unfold isForeign at h
  match hk : b.kind with
  | .foreign typeName fields => exact ⟨typeName, fields, rfl⟩
  | .function _ | .stateVariable _ | .constructor _ | .event _ | .modifier _ | .error _ | .struct _
  | .enum _ | .mapping _ | .array _ | .integration _ | .security _ | .oracle _
  | .externalCall _ => rw [hk] at h; cases h

theorem function?_of_isForeign (h : b.isForeign) : b.function? = none := by
  obtain ⟨typeName, fields, hk⟩ := exists_kind_of_isForeign h
  rw [function?, hk]

theorem overrides_of_isForeign (h : b.isForeign) : b.overrides = [] := by
  rw [overrides_eq, function?_of_isForeign h]
  rfl

theorem codeLines_of_isForeign (h : b.isForeign) : b.codeLines = [] := by
  obtain ⟨typeName, fields, hk⟩ := exists_kind_of_isForeign h
  have hbody : b.body? = none := by rw [body?, hk]
  rw [codeLines, hbody]

theorem fragment?_of_isForeign (h : b.isForeign) : b.fragment? = none := by
  obtain ⟨typeName, fields, hk⟩ := exists_kind_of_isForeign h
  rw [fragment?, hk, Kind.fragment?]

theorem violations_of_isForeign (h : b.isForeign) : b.violations = [] := by
  obtain ⟨typeName, fields, hk⟩ := exists_kind_of_isForeign h
  rw [violations, hk]

theorem conflicts_of_isForeign (h : b.isForeign) (c : Contract) (registry : Registry) :
    b.conflicts c registry = [] := by
  rw [conflicts, overrides_of_isForeign h]
  rfl

theorem not_declares_of_isForeign (h : b.isForeign) : ¬ b.Declares := by
  obtain ⟨typeName, fields, hk⟩ := exists_kind_of_isForeign h
  rintro ⟨t, -, ht⟩
  rw [hk] at ht
  cases ht

end Block

/-- **No rule finds anything in a foreign block,** whatever its surroundings. -/
theorem Checker.check_of_isForeign {b : Block} (h : b.isForeign) (s : Surroundings) :
    builtin.check s b = [] := by
  have hfunction := Block.function?_of_isForeign h
  have hcode := Block.codeLines_of_isForeign h
  have hconflicts := Block.conflicts_of_isForeign h
  obtain ⟨typeName, fields, hk⟩ := Block.exists_kind_of_isForeign h
  have horphaned : Rule.orphanedOverride.check s b = [] := by
    simp only [Rule.orphanedOverride, hconflicts, List.map_nil]
    split <;> rfl
  have hconstant : Rule.constantCandidate.check s b = [] := by
    simp only [Rule.constantCandidate, hk]
    cases s.contract <;> rfl
  have hothers : ∀ r ∈ Rule.builtin.take 7, r.check s b = [] := by
    simp [Rule.builtin, Rule.reentrancy, Rule.txOrigin, Rule.uncheckedCall, Rule.selfdestruct,
      Rule.accessControl, Rule.timestamp, Rule.unboundedLoop, Rule.perLine, hfunction, hcode]
  refine List.flatMap_eq_nil_iff.2 fun r hr => ?_
  have hsplit : r ∈ Rule.builtin.take 7 ∨ r = Rule.orphanedOverride ∨
      r = Rule.constantCandidate := by
    have hin : r ∈ Rule.builtin.take 7 ++ [Rule.orphanedOverride, Rule.constantCandidate] := hr
    simpa using List.mem_append.1 hin
  rcases hsplit with hr | rfl | rfl
  · exact hothers r hr
  · exact horphaned
  · exact hconstant

/-! ### A contract without its foreign blocks -/

namespace Contract

/-- The contract without its foreign blocks. -/
def withoutForeign (c : Contract) : Contract :=
  { c with components := c.components.filter fun p => !p.block.isForeign }

end Contract

/-- The registry with every contract without its foreign blocks. -/
def Registry.withoutForeign (registry : Registry) : Registry :=
  fun id => (registry id).map Contract.withoutForeign

namespace Contract

variable (c : Contract) (registry : Registry)

theorem blocks_withoutForeign :
    c.withoutForeign.blocks = c.blocks.filter fun b => !b.isForeign := by
  rw [blocks, blocks, List.filter_map]
  rfl

/-- **What is collected from the blocks** is collected from those that are not foreign, if a foreign
one gives nothing. -/
theorem flatMap_blocks_withoutForeign {α : Type} (f : Block → List α)
    (hf : ∀ b : Block, b.isForeign → f b = []) :
    c.withoutForeign.blocks.flatMap f = c.blocks.flatMap f := by
  rw [blocks_withoutForeign]
  induction c.blocks with
  | nil => rfl
  | cons b bs ih =>
    rw [List.filter_cons, List.flatMap_cons, ← ih]
    by_cases hb : b.isForeign
    · rw [if_neg (by simp [hb]), hf b hb, List.nil_append]
    · rw [if_pos (by simp [hb]), List.flatMap_cons]

theorem functions_withoutForeign : c.withoutForeign.functions = c.functions := by
  simp only [functions, List.filterMap_eq_flatMap_toList]
  refine c.flatMap_blocks_withoutForeign _ fun b hb => ?_
  rw [Block.function?_of_isForeign hb]
  rfl

theorem signatures_withoutForeign : c.withoutForeign.signatures = c.signatures := by
  rw [signatures, functions_withoutForeign]
  rfl

theorem knownParents_withoutForeign :
    c.withoutForeign.knownParents (Registry.withoutForeign registry) =
      (c.knownParents registry).map withoutForeign := by
  rw [knownParents, knownParents, List.map_filterMap]
  rfl

theorem virtualFunctions_withoutForeign :
    c.withoutForeign.virtualFunctions = c.virtualFunctions := by
  rw [virtualFunctions, functions_withoutForeign]
  rfl

theorem overridable_withoutForeign :
    c.withoutForeign.overridable (Registry.withoutForeign registry) = c.overridable registry := by
  rw [overridable, knownParents_withoutForeign, List.flatMap_map]
  simp only [virtualFunctions_withoutForeign]
  rfl

theorem conflicts_withoutForeign (b : Block) :
    b.conflicts c.withoutForeign (Registry.withoutForeign registry) = b.conflicts c registry := by
  rw [Block.conflicts, overridable_withoutForeign]
  rfl

theorem fragments_withoutForeign :
    c.withoutForeign.fragments (Registry.withoutForeign registry) = c.fragments registry := by
  rw [fragments_eq, fragments_eq, overridable_withoutForeign]
  refine c.flatMap_blocks_withoutForeign _ fun b hb => ?_
  rw [Block.fragment?_of_isForeign hb,
    Block.overrideFragments_eq_nil (Block.overrides_of_isForeign hb)]
  rfl

theorem source_withoutForeign (o : SourceOptions) :
    c.withoutForeign.source (Registry.withoutForeign registry) o = c.source registry o := by
  rw [source, fragments_withoutForeign, knownParents_withoutForeign, List.map_map]
  rfl

/-- The placed blocks by themselves have the same source, too. -/
theorem fragments_components_withoutForeign :
    Source.fragments c.withoutForeign.components = Source.fragments c.components := by
  have hflat : ∀ d : Contract,
      Source.fragments d.components = d.blocks.flatMap fun b => b.fragment?.toList := by
    intro d
    rw [Source.fragments, List.filterMap_eq_flatMap_toList, blocks, List.flatMap_map]
  rw [hflat, hflat]
  refine c.flatMap_blocks_withoutForeign _ fun b hb => ?_
  rw [Block.fragment?_of_isForeign hb]
  rfl

theorem isWritten_withoutForeign (name : String) :
    Rule.isWritten c.withoutForeign name = Rule.isWritten c name := by
  have hflat : ∀ d : Contract, Rule.isWritten d name =
      (d.blocks.flatMap Block.codeLines).any fun l => Code.writesTo l name.toList := by
    intro d
    rw [Rule.isWritten, List.any_flatMap]
  rw [hflat, hflat, c.flatMap_blocks_withoutForeign _ fun b => Block.codeLines_of_isForeign]

/-- A rule sees the surroundings of a block without the foreign blocks in them. -/
theorem check_withoutForeign (b : Block) :
    Checker.builtin.check (.ofContract c.withoutForeign (Registry.withoutForeign registry)) b =
      Checker.builtin.check (.ofContract c registry) b := by
  refine List.flatMap_congr fun r hr => ?_
  have hin : r ∈ Rule.builtin.take 7 ++ [Rule.orphanedOverride, Rule.constantCandidate] := hr
  rcases List.mem_append.1 hin with hr | hr
  · -- the first seven rules do not look at the surroundings
    simp only [Rule.builtin, List.take_succ_cons, List.take_zero, List.mem_cons,
      List.not_mem_nil, or_false] at hr
    rcases hr with rfl | rfl | rfl | rfl | rfl | rfl | rfl <;> rfl
  · rcases List.mem_pair.1 hr with rfl | rfl
    · simp only [Rule.orphanedOverride, Surroundings.ofContract, conflicts_withoutForeign]
    · cases hk : b.kind <;>
        simp only [Rule.constantCandidate, Surroundings.ofContract, isWritten_withoutForeign, hk]

theorem checkContract_withoutForeign :
    Checker.builtin.checkContract c.withoutForeign (Registry.withoutForeign registry) =
      Checker.builtin.checkContract c registry := by
  rw [Checker.checkContract, Checker.checkContract, funext (c.check_withoutForeign registry)]
  exact c.flatMap_blocks_withoutForeign _ fun b hb => Checker.check_of_isForeign hb _

end Contract

/-! ### A project without its foreign blocks -/

namespace Project

/-- The project with every contract without its foreign blocks. -/
def withoutForeign (p : Project) : Project :=
  { p with contracts := p.contracts.map Contract.withoutForeign }

variable (p : Project)

theorem contract?_withoutForeign :
    p.withoutForeign.contract? = Registry.withoutForeign p.contract? := by
  funext id
  exact List.find?_map

theorem ids_withoutForeign : p.withoutForeign.ids = p.ids := List.map_map

theorem parentReferences_withoutForeign :
    p.withoutForeign.parentReferences = p.parentReferences := List.flatMap_map ..

/-- **The inheritance graph does not look at blocks.** -/
theorem inheritance_withoutForeign : p.withoutForeign.inheritance = p.inheritance := by
  rw [inheritance, inheritance, ids_withoutForeign, parentReferences_withoutForeign]

theorem linearize_withoutForeign (id : ContractId) :
    p.withoutForeign.linearize id = p.linearize id := by
  refine linearize_congr (fun r => ?_) id
  rw [contract?_withoutForeign, Registry.withoutForeign, Option.map_map]
  rfl

theorem ancestorContracts_withoutForeign (id : ContractId) :
    p.withoutForeign.ancestorContracts id =
      (p.ancestorContracts id).map Contract.withoutForeign := by
  rw [ancestorContracts, ancestorContracts, inheritance_withoutForeign, contract?_withoutForeign,
    List.map_filterMap]
  rfl

theorem diamonds_withoutForeign (c : Contract) :
    p.withoutForeign.diamonds c.withoutForeign = p.diamonds c := by
  rw [diamonds, diamonds, inheritance_withoutForeign, contract?_withoutForeign,
    Contract.knownParents_withoutForeign, List.map_map]
  rfl

/-- The most derived of the contracts are told by identity. -/
theorem mostDerived_map_withoutForeign (g : InheritanceGraph) (cs : List Contract) :
    g.mostDerived (cs.map Contract.withoutForeign) =
      (g.mostDerived cs).map Contract.withoutForeign := by
  simp only [InheritanceGraph.mostDerived, List.filter_map, List.any_map]
  rfl

/-- The rivals for a signature are the same contracts. -/
theorem rivals_withoutForeign (c : Contract) (s : String) :
    p.withoutForeign.inheritance.mostDerived (p.withoutForeign.sources c.withoutForeign s) =
      (p.inheritance.mostDerived (p.sources c s)).map Contract.withoutForeign := by
  have hsources : p.withoutForeign.sources c.withoutForeign s =
      (p.sources c s).map Contract.withoutForeign := by
    rw [sources, sources, Contract.withoutForeign, ancestorContracts_withoutForeign,
      List.filter_map]
    simp only [Function.comp_def, Contract.signatures_withoutForeign]
  rw [hsources, inheritance_withoutForeign, mostDerived_map_withoutForeign]

/-- What is declared above a contract is the same, up to the foreign blocks of who declares it. -/
theorem declared_withoutForeign (c : Contract) :
    (p.withoutForeign.ancestorContracts c.id).flatMap Contract.ancestorFunctions =
      ((p.ancestorContracts c.id).flatMap Contract.ancestorFunctions).map
        fun f => { f with source := f.source.withoutForeign } := by
  have hone : ∀ d : Contract, d.withoutForeign.ancestorFunctions =
      d.ancestorFunctions.map fun f => { f with source := f.source.withoutForeign } := fun d => by
    rw [Contract.ancestorFunctions, Contract.functions_withoutForeign, Contract.ancestorFunctions,
      List.map_map]
    rfl
  rw [ancestorContracts_withoutForeign, List.flatMap_map, List.map_flatMap]
  exact List.flatMap_congr fun d _ => hone d

theorem ambiguities_withoutForeign (c : Contract) :
    p.withoutForeign.ambiguities c.withoutForeign = p.ambiguities c := by
  have hoverridden : c.withoutForeign.overriddenIds = c.overriddenIds := by
    rw [Contract.overriddenIds, Contract.functions_withoutForeign]
    rfl
  have hid : c.withoutForeign.id = c.id := rfl
  simp only [ambiguities_eq, Contract.signatures_withoutForeign, hoverridden, hid,
    declared_withoutForeign, List.map_map, List.any_map, Function.comp_def]
  refine List.filterMap_congr fun s _ => ?_
  have hrivals := p.rivals_withoutForeign c s
  simp only [sources, hid] at hrivals
  rw [hrivals, List.length_map, List.map_map]
  rfl

theorem inheritanceIssues_withoutForeign :
    p.withoutForeign.inheritanceIssues = p.inheritanceIssues := by
  have hmissing : p.withoutForeign.missingParents = p.missingParents := by
    rw [missingParents, missingParents, ids_withoutForeign, parentReferences_withoutForeign]
  simp only [inheritanceIssues, hmissing, inheritance_withoutForeign]
  congr 1
  rw [withoutForeign, List.flatMap_map]
  refine List.flatMap_congr fun c _ => ?_
  rw [← diamonds_withoutForeign p c, ← ambiguities_withoutForeign p c]
  rfl

end Project

/-! ### Validation -/

namespace Block

variable {u b : Block}

/-- A foreign block among the blocks before another one changes nothing for that, if its identity is
a new one. -/
theorem share_insert (hu : u.isForeign) (hb : b.id ≠ u.id) {before behind : List Block}
    (hnew : ∀ x ∈ before ++ behind, x.id ≠ u.id) :
    b.share (before ++ u :: behind) = b.share (before ++ behind) := by
  have hmem : ∀ k : Block, k ∈ before ++ u :: behind ↔ k = u ∨ k ∈ before ++ behind := fun k => by
    simp only [List.mem_append, List.mem_cons, or_left_comm]
  have hids : b.id ∈ (before ++ u :: behind).map Block.id ↔
      b.id ∈ (before ++ behind).map Block.id := by
    simp only [List.mem_map, hmem, or_and_right, exists_or, exists_eq_left]
    exact or_iff_right hb.symm
  have hremains : ∀ k : Block, k ∈ before ++ behind →
      (k.RemainsIn (before ++ u :: behind) ↔ k.RemainsIn (before ++ behind)) := by
    intro k hk
    have hout : (u :: behind).find? (fun e => e.id == k.id) =
        behind.find? fun e => e.id == k.id :=
      List.find?_cons_of_neg (by simpa using (hnew k hk).symm)
    rw [RemainsIn, RemainsIn, List.find?_append, List.find?_append, hout]
  have hclash : (∃ k ∈ before ++ u :: behind, k.RemainsIn (before ++ u :: behind) ∧ k.Clashes b) ↔
      ∃ k ∈ before ++ behind, k.RemainsIn (before ++ behind) ∧ k.Clashes b := by
    constructor
    · rintro ⟨k, hk, hrem, hkb⟩
      rcases (hmem k).1 hk with rfl | hk
      · exact absurd hkb.1 (not_declares_of_isForeign hu)
      · exact ⟨k, hk, (hremains k hk).1 hrem, hkb⟩
    · rintro ⟨k, hk, hrem, hkb⟩
      exact ⟨k, (hmem k).2 (Or.inr hk), (hremains k hk).2 hrem, hkb⟩
  rw [share, share]
  exact if_congr hids rfl (congrArg _ (if_congr hclash rfl rfl))

/-- A foreign block with a new identity adds nothing. -/
theorem share_of_isForeign (hu : u.isForeign) {before : List Block}
    (hnew : ∀ x ∈ before, x.id ≠ u.id) : u.share before = [] := by
  have hid : u.id ∉ before.map Block.id := by
    rw [List.mem_map]
    rintro ⟨x, hx, hxu⟩
    exact hnew x hx hxu
  exact share_eq_nil_iff.2 ⟨hid, violations_of_isForeign hu,
    fun k _ _ hk => not_declares_of_isForeign hu hk.2.1⟩

end Block

/-- **A foreign block is passed over** if no other one has its identity. -/
theorem withBefore_share_insert {u : Block} (hu : u.isForeign) (front back : List Block)
    (hnew : ∀ x ∈ front ++ back, x.id ≠ u.id) :
    withBefore Block.share (front ++ u :: back) = withBefore Block.share (front ++ back) := by
  have hfront := fun x hx => hnew x (List.mem_append_left back hx)
  have hback := fun x hx => hnew x (List.mem_append_right front hx)
  rw [withBefore_append, withBefore_append, withBefore_cons, List.append_nil front,
    Block.share_of_isForeign hu hfront, List.nil_append]
  refine congrArg _ (withBefore_congr fun before hbefore b hb => ?_)
  refine Block.share_insert hu (hback b hb) fun x hx => ?_
  exact (List.mem_append.1 hx).elim (hfront x) fun hx => hback x (hbefore hx)

/-! ### One foreign block more -/

namespace Contract

/-- The second contract is the first one with a block put in somewhere. -/
def Gains (c : Contract) (u : Placed) (d : Contract) : Prop :=
  ∃ front back, c.components = front ++ back ∧ d = { c with components := front ++ u :: back }

variable {c d : Contract} {u : Placed}

/-- Without its foreign blocks a contract does not gain one. -/
theorem Gains.withoutForeign_eq (hd : c.Gains u d) (hu : u.block.isForeign) :
    d.withoutForeign = c.withoutForeign := by
  obtain ⟨front, back, hc, rfl⟩ := hd
  have hout : (u :: back).filter (fun p => !p.block.isForeign) =
      back.filter fun p => !p.block.isForeign := List.filter_cons_of_neg (by rw [hu]; decide)
  rw [withoutForeign, withoutForeign, hc, List.filter_append, List.filter_append, hout]

theorem Gains.violations_eq (hd : c.Gains u d) (hu : u.block.isForeign)
    (hnew : ∀ x ∈ c.components, x.block.id ≠ u.block.id) : d.violations = c.violations := by
  obtain ⟨front, back, hc, rfl⟩ := hd
  have hids : ∀ b ∈ front.map Placed.block ++ back.map Placed.block, b.id ≠ u.block.id := by
    intro b hb
    rw [← List.map_append, ← hc] at hb
    obtain ⟨x, hx, rfl⟩ := List.mem_map.1 hb
    exact hnew x hx
  rw [violations_eq, violations_eq, blocks, blocks, hc, List.map_append, List.map_append,
    List.map_cons]
  exact withBefore_share_insert hu _ _ hids

/-- Nothing that is worked out about the first contract in the first project tells it from the
second contract in the second. -/
structure Alike (p q : Project) (c d : Contract) : Prop where
  violations : d.violations = c.violations
  ofComponents : ∀ o name,
    Source.ofComponents o name d.components = Source.ofComponents o name c.components
  source : ∀ o, d.source q.contract? o = c.source p.contract? o
  findings : Checker.builtin.checkContract d q.contract? =
    Checker.builtin.checkContract c p.contract?
  overridable : d.overridable q.contract? = c.overridable p.contract?
  conflicts : ∀ b : Block, b.conflicts d q.contract? = b.conflicts c p.contract?

/-- Only the validation sees foreign blocks. -/
theorem Alike.of_withoutForeign {p q : Project} (hq : q.withoutForeign = p.withoutForeign)
    (hd : d.withoutForeign = c.withoutForeign) (hv : d.violations = c.violations) :
    Alike p q c d where
  violations := hv
  ofComponents o name := by
    rw [Source.ofComponents, Source.ofComponents, ← fragments_components_withoutForeign d, hd,
      fragments_components_withoutForeign]
  source o := by
    rw [← source_withoutForeign d, ← Project.contract?_withoutForeign, hq, hd,
      Project.contract?_withoutForeign, source_withoutForeign]
  findings := by
    rw [← checkContract_withoutForeign d, ← Project.contract?_withoutForeign, hq, hd,
      Project.contract?_withoutForeign, checkContract_withoutForeign]
  overridable := by
    rw [← overridable_withoutForeign d, ← Project.contract?_withoutForeign, hq, hd,
      Project.contract?_withoutForeign, overridable_withoutForeign]
  conflicts b := by
    rw [← conflicts_withoutForeign d, ← Project.contract?_withoutForeign, hq, hd,
      Project.contract?_withoutForeign, conflicts_withoutForeign]

end Contract

/-- The second project is the first one with one contract in the place of another. -/
def Project.Replaces (p : Project) (c d : Contract) (q : Project) : Prop :=
  ∃ before behind, p.contracts = before ++ c :: behind ∧
    q = { p with contracts := before ++ d :: behind }

/-- **Foreign blocks are inert.**  Put a block of a foreign kind anywhere into a contract, whatever
its name and its fields, if no block of the contract has its identity.  Be the contract one of the
project or not: nothing that is worked out about it or about any other contract in the project
changes, the block has no conflicts of its own, and the inheritance issues and the linearizations
are the same. -/
theorem Contract.foreign_inert (p q : Project) (c d : Contract) (u : Placed)
    (hu : u.block.isForeign) (hnew : ∀ x ∈ c.components, x.block.id ≠ u.block.id)
    (hd : c.Gains u d) (hq : q = p ∨ p.Replaces c d q) :
    Alike p q c d ∧ (∀ e, Alike p q e e) ∧ u.block.conflicts d q.contract? = [] ∧
      q.inheritanceIssues = p.inheritanceIssues ∧ q.inheritance = p.inheritance ∧
      ∀ id, q.linearize id = p.linearize id := by
  have hcontract := hd.withoutForeign_eq hu
  have hproject : q.withoutForeign = p.withoutForeign := by
    rcases hq with rfl | ⟨before, behind, hp, rfl⟩
    · rfl
    · simp only [Project.withoutForeign, hp, List.map_append, List.map_cons, hcontract]
  refine ⟨.of_withoutForeign hproject hcontract (hd.violations_eq hu hnew),
    fun e => .of_withoutForeign hproject rfl rfl, Block.conflicts_of_isForeign hu d _, ?_, ?_, ?_⟩
  · rw [← q.inheritanceIssues_withoutForeign, hproject, p.inheritanceIssues_withoutForeign]
  · rw [← q.inheritance_withoutForeign, hproject, p.inheritance_withoutForeign]
  · intro id
    rw [← q.linearize_withoutForeign, hproject, p.linearize_withoutForeign]

/-! ### A remark that is named like a function -/

namespace Project.Contested

/-- A block of a kind that is not known, with the name of the function of `child` and the fields of
one. -/
def remark : Placed :=
  ⟨⟨"remark", "resume", "", .basic, [],
    .foreign "remark" [("body", .string "selfdestruct(owner);")]⟩, .origin⟩

/-- The child with the remark before its function. -/
def remarked : Contract := { child with components := remark :: child.components }

end Project.Contested

open Project.Contested in
theorem Contract.foreign_inert_remark :
    remark.block.isForeign ∧ (∀ x ∈ child.components, x.block.id ≠ remark.block.id) ∧
      child.Gains remark remarked ∧
      (project true).Replaces child remarked ⟨"p", "Contested", [left true, right true, remarked],
        none, .idle⟩ ∧
      remarked.violations = child.violations := by
  have hforeign : remark.block.isForeign := rfl
  have hnew : ∀ x ∈ child.components, x.block.id ≠ remark.block.id := by decide
  have hgains : child.Gains remark remarked := ⟨[], child.components, rfl, rfl⟩
  have hreplaces : (project true).Replaces child remarked
      ⟨"p", "Contested", [left true, right true, remarked], none, .idle⟩ :=
    ⟨[left true, right true], [], rfl, rfl⟩
  have hinert := foreign_inert _ _ _ _ _ hforeign hnew hgains (Or.inr hreplaces)
  exact ⟨hforeign, hnew, hgains, hreplaces, hinert.1.violations⟩

end ContractBlocks
