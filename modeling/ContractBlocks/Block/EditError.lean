/-
# Refused edits

An edit is refused for one of five causes; each names what it is about.
-/

import ContractBlocks.Block.Basic

namespace ContractBlocks

/-- The identity of a contract, unique in its project. -/
abbrev ContractId := String

/-- Why an edit is refused. -/
inductive EditError where
  /-- The name is none of the fourteen tags. -/
  | unsupportedKind (name : String)
  /-- The collection has a block of this identity already. -/
  | duplicateBlock (id : BlockId)
  /-- The collection has no block of this identity. -/
  | missingBlock (id : BlockId)
  /-- The project has no contract of this identity. -/
  | missingContract (id : ContractId)
  /-- The project has a contract of this identity already. -/
  | duplicateContract (id : ContractId)
deriving DecidableEq, Repr

/-- The refusal in words. -/
def EditError.message : EditError → String
  | .unsupportedKind name => "unsupported component variant: '" ++ name ++ "'"
  | .duplicateBlock id => "duplicate component id: '" ++ id ++ "'"
  | .missingBlock id => "component not found: '" ++ id ++ "'"
  | .missingContract id => "contract not found: '" ++ id ++ "'"
  | .duplicateContract id => "duplicate contract id: '" ++ id ++ "'"

end ContractBlocks
