/-
# Validating a contract

In a contract, identities are unique and so are the names of declarations, except that functions may
overload each other, and events each other, by their parameter types. A block whose identity has
come before is reported for that alone.
-/

import ContractBlocks.Validation.Block
import ContractBlocks.Contract.Basic

namespace ContractBlocks

/-- How a block takes a name in its contract. -/
inductive Declaration where
  /-- A function overloads other functions by its trimmed parameter types. -/
  | function (types : List String)
  /-- An event overloads other events by its trimmed parameter types. -/
  | event (types : List String)
  /-- Any other declaration has its name alone. -/
  | unique
deriving DecidableEq, Repr

/-- The trimmed types of parameters. -/
def Parameter.trimmedTypes (ps : List Parameter) : List String :=
  ps.map fun p => trimmedType p.dataType

namespace Declaration

/-- The declaration that a kind makes, if it makes one. -/
def ofKind? : Kind → Option Declaration
  | .function f => some (.function (Parameter.trimmedTypes f.parameters))
  | .event ps => some (.event (Parameter.trimmedTypes ps))
  | .stateVariable _ | .modifier _ | .error _ | .struct _ | .enum _ | .mapping _ | .array _ =>
    some .unique
  | _ => none

/-- Two declarations of one name clash, unless they overload each other. -/
def clashes : Declaration → Declaration → Bool
  | .function a, .function b => a == b
  | .event a, .event b => a == b
  | _, _ => true

end Declaration

namespace Validation

/-- A pass over the blocks of a contract: the identities it has met, the declarations under each
name, and the violations so far. -/
structure Pass where
  ids : List BlockId
  declared : List (String × List Declaration)
  violations : List Violation
deriving DecidableEq, Repr

/-- The table with one more declaration under the name. -/
def declare (name : String) (d : Declaration) :
    List (String × List Declaration) → List (String × List Declaration)
  | [] => [(name, [d])]
  | (n, ds) :: rest =>
    if n = name then (n, ds ++ [d]) :: rest else (n, ds) :: declare name d rest

namespace Pass

/-- Before the first block. -/
def start : Pass := ⟨[], [], []⟩

/-- The declarations under a name so far. -/
def declarations (p : Pass) (name : String) : List Declaration := (p.declared.lookup name).getD []

/-- A declaration takes the name of its block, even if it clashes with an earlier one there. -/
def declare (p : Pass) (b : Block) (d : Declaration) : Pass :=
  { p with
    declared := Validation.declare b.name d p.declared
    violations := p.violations
      ++ when ((p.declarations b.name).any fun e => e.clashes d) (.duplicateName b.id b.name) }

/-- One more block; if its identity has come before, nothing else is looked at. -/
def visit (p : Pass) (b : Block) : Pass :=
  if b.id ∈ p.ids then { p with violations := p.violations ++ [.duplicateId b.id] }
  else
    let checked : Pass := ⟨p.ids ++ [b.id], p.declared, p.violations ++ b.violations⟩
    match Declaration.ofKind? b.kind with
    | some d => checked.declare b d
    | none => checked

end Pass
end Validation

/-- The violations of a contract. -/
def Contract.violations (c : Contract) : List Violation :=
  (c.blocks.foldl Validation.Pass.visit .start).violations

end ContractBlocks
