/-
# Contracts

A contract is a list of placed blocks and a list of parents. Parents are named by identity and
looked up in a registry, so a contract never holds another one.
-/

import ContractBlocks.Block.EditError

namespace ContractBlocks

/-- A contract. -/
structure Contract where
  id : ContractId
  name : String
  components : List Placed
  /-- The parents in declaration order. -/
  parents : List ContractId
deriving DecidableEq, Repr

namespace Contract

/-- A contract without blocks and parents. -/
def empty (id : ContractId) (name : String) : Contract := ⟨id, name, [], []⟩

/-- The contract with one more parent; a parent that it has already stays where it is. -/
def inherit (c : Contract) (parent : ContractId) : Contract :=
  if parent ∈ c.parents then c else { c with parents := c.parents ++ [parent] }

/-- The contract with one more block behind the others. -/
def place (c : Contract) (p : Placed) : Contract := { c with components := c.components ++ [p] }

/-- The blocks in order. -/
def blocks (c : Contract) : List Block := c.components.map Placed.block

/-- The first block of the given identity. -/
def block? (c : Contract) (id : BlockId) : Option Block := c.blocks.find? fun b => b.id == id

/-- The function blocks in order, with what they need. -/
def functions (c : Contract) : List (Block × FunctionBlock) :=
  c.blocks.filterMap fun b => b.function?.map fun f => (b, f)

end Contract

/-- Where contracts are looked up by identity. -/
abbrev Registry := ContractId → Option Contract

/-- The parents of a contract that the registry knows, in declaration order. -/
def Contract.knownParents (c : Contract) (registry : Registry) : List Contract :=
  c.parents.filterMap registry

end ContractBlocks
