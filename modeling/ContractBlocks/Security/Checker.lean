/-
# Checking

A checker runs its rules one after the other on a block, or on every block of a contract in order.
-/

import ContractBlocks.Security.Rule

namespace ContractBlocks

/-- The rules to run, in order. -/
structure Checker where
  rules : List Rule

namespace Checker

/-- The checker with the built-in rules. -/
def builtin : Checker := ⟨Rule.builtin⟩

/-- The findings in a block. -/
def check (k : Checker) (s : Surroundings) (b : Block) : List Finding :=
  k.rules.flatMap fun r => r.check s b

/-- The findings in a contract, block by block. -/
def checkContract (k : Checker) (c : Contract) (registry : Registry) : List Finding :=
  c.blocks.flatMap (k.check (.ofContract c registry))

end Checker

end ContractBlocks
