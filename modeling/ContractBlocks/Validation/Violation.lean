/-
# Violations

What a validation can report, each with the block that it is about.
-/

import ContractBlocks.Block.Basic

namespace ContractBlocks

/-- A rule that a block breaks. -/
inductive Violation where
  /-- The name is no identifier. -/
  | invalidIdentifier (component : BlockId) (name : String)
  /-- A type that is needed is blank. -/
  | missingType (component : BlockId) (field : String)
  /-- A state declaration is external. -/
  | externalStateDeclaration (component : BlockId)
  /-- A constant has no initial value. -/
  | constantWithoutValue (component : BlockId) (name : String)
  /-- A struct or an enumeration has no members. -/
  | emptyMembers (component : BlockId) (name : String)
  /-- Two members, parameters or declarations have one name. -/
  | duplicateName (component : BlockId) (name : String)
  /-- The type cannot be the key of a mapping. -/
  | invalidMappingKey (component : BlockId) (keyType : String)
  /-- A fixed array has length zero. -/
  | zeroLengthArray (component : BlockId)
  /-- Two blocks of a contract have one identity. -/
  | duplicateId (component : BlockId)
deriving DecidableEq, Repr

namespace Violation

/-- The block that the violation is about. -/
def component : Violation → BlockId
  | .invalidIdentifier c _ | .missingType c _ | .externalStateDeclaration c
  | .constantWithoutValue c _ | .emptyMembers c _ | .duplicateName c _ | .invalidMappingKey c _
  | .zeroLengthArray c | .duplicateId c => c

/-- The violation in words. -/
def message : Violation → String
  | .invalidIdentifier c n => "component " ++ c ++ ": '" ++ n ++ "' is not a valid identifier"
  | .missingType c f => "component " ++ c ++ ": missing type for " ++ f
  | .externalStateDeclaration c =>
    "component " ++ c ++ ": state declarations cannot be external"
  | .constantWithoutValue c n =>
    "component " ++ c ++ ": constant '" ++ n ++ "' has no initial value"
  | .emptyMembers c n => "component " ++ c ++ ": '" ++ n ++ "' has no members"
  | .duplicateName c n => "component " ++ c ++ ": duplicate name '" ++ n ++ "'"
  | .invalidMappingKey c k => "component " ++ c ++ ": '" ++ k ++ "' cannot be used as a mapping key"
  | .zeroLengthArray c =>
    "component " ++ c ++ ": fixed array length must be greater than zero"
  | .duplicateId c => "duplicate component id '" ++ c ++ "'"

end Violation

end ContractBlocks
