/-
# Validating a block

The rules of a single block. All violations are reported, in a fixed order: the name, the
parameters, then what the kind asks for. A foreign block breaks no rule.
-/

import ContractBlocks.Validation.Violation
import ContractBlocks.Text.Blank
import ContractBlocks.Text.Identifier

namespace ContractBlocks

/-- The name is an identifier. -/
def isIdentifierName (name : String) : Bool := Text.isIdentifier name.toList

/-- The type is missing: it is blank. -/
def isBlankType (dataType : String) : Bool := Text.isBlank dataType.toList

/-- The type without blank characters around it. -/
def trimmedType (dataType : String) : String := String.ofList (Text.trim dataType.toList)

/-- A mapping key is not blank, and neither an array nor a mapping. -/
def isMappingKey (keyType : String) : Bool :=
  let key := Text.trim keyType.toList
  !key.isEmpty && key.getLast? != some ']' && !"mapping".toList.isPrefixOf key

namespace Validation

/-- The violation, if the rule is broken. -/
def when (broken : Bool) (v : Violation) : List Violation := if broken then [v] else []

/-- The violations along a list, each item checked with the names before it. -/
def withEarlier {α : Type} (name : α → String) (check : List String → α → List Violation) :
    List String → List α → List Violation
  | _, [] => []
  | earlier, x :: xs => check earlier x ++ withEarlier name check (earlier ++ [name x]) xs

/-- A parameter has a type, and a name that it has is a new identifier. -/
def parameter (id : BlockId) (earlier : List String) (p : Parameter) : List Violation :=
  when (isBlankType p.dataType) (.missingType id p.name)
    ++ if p.name.isEmpty then []
      else when (!isIdentifierName p.name) (.invalidIdentifier id p.name)
        ++ when (earlier.contains p.name) (.duplicateName id p.name)

/-- The parameters of one list. -/
def parameters (id : BlockId) (ps : List Parameter) : List Violation :=
  withEarlier Parameter.name (parameter id) [] ps

/-- A struct member has a type and a new identifier as its name. -/
def structMember (id : BlockId) (earlier : List String) (m : StructMember) : List Violation :=
  when (!isIdentifierName m.name) (.invalidIdentifier id m.name)
    ++ when (isBlankType m.dataType) (.missingType id m.name)
    ++ when (earlier.contains m.name) (.duplicateName id m.name)

/-- An enumeration member is a new identifier. -/
def enumMember (id : BlockId) (earlier : List String) (m : String) : List Violation :=
  when (!isIdentifierName m) (.invalidIdentifier id m)
    ++ when (earlier.contains m) (.duplicateName id m)

/-- What a kind asks for, beyond the name and the parameters of the block. -/
def kind (id : BlockId) (name : String) : Kind → List Violation
  | .function f => parameters id f.returns
  | .stateVariable v =>
    when (isBlankType v.dataType) (.missingType id "dataType")
      ++ when (v.visibility = .external) (.externalStateDeclaration id)
      ++ when (v.mutability = .constant && !(v.initialValue.any fun t => !isBlankType t))
        (.constantWithoutValue id name)
  | .struct ms =>
    when ms.isEmpty (.emptyMembers id name)
      ++ withEarlier StructMember.name (structMember id) [] ms
  | .enum ms =>
    when ms.isEmpty (.emptyMembers id name) ++ withEarlier (fun m => m) (enumMember id) [] ms
  | .mapping m =>
    when (!isMappingKey m.keyType) (.invalidMappingKey id m.keyType)
      ++ when (isBlankType m.valueType) (.missingType id "valueType")
      ++ when (m.visibility = .external) (.externalStateDeclaration id)
  | .array a =>
    when (isBlankType a.elementType) (.missingType id "elementType")
      ++ when (a.length = some 0) (.zeroLengthArray id)
      ++ when (a.visibility = .external) (.externalStateDeclaration id)
  | _ => []

/-- Every block but a constructor has an identifier as its name. -/
def name (b : Block) : List Violation :=
  match b.kind with
  | .constructor _ => []
  | _ => when (!isIdentifierName b.name) (.invalidIdentifier b.id b.name)

end Validation

/-- The violations of a block by itself. -/
def Block.violations (b : Block) : List Violation :=
  match b.kind with
  | .foreign _ _ => []
  | k =>
    Validation.name b ++ Validation.parameters b.id (b.parameters?.getD [])
      ++ Validation.kind b.id b.name k

end ContractBlocks
