/-
# Overrides

A contract may override the virtual functions of its direct parents. A function block keeps
overrides by the identity of the function they replace; an override is in conflict if its function
is no longer among those.
-/

import ContractBlocks.Contract.Basic
import ContractBlocks.Block.Patch

namespace ContractBlocks

/-- An inherited function that may be overridden. -/
structure OverridableFunction where
  id : BlockId
  name : String
  visibility : Visibility
  stateMutability : StateMutability
  parameters : List Parameter
  returns : List Parameter
  isVirtual : Bool
  /-- The name of the parent that declares the function. -/
  sourceContract : String
  body : String
deriving DecidableEq, Repr

namespace OverridableFunction

/-- A function block of the contract as one that may be overridden. -/
def ofFunction (source : Contract) (b : Block) (f : FunctionBlock) : OverridableFunction where
  id := b.id
  name := b.name
  visibility := f.visibility
  stateMutability := f.stateMutability
  parameters := f.parameters
  returns := f.returns
  isVirtual := f.isVirtual
  sourceContract := source.name
  body := f.body

/-- The clause for what a function returns. -/
def returnsText (returns : List Parameter) : String :=
  if returns.isEmpty then "" else " returns (" ++ Parameter.listText returns ++ ")"

/-- The header up to the state mutability. -/
def headerText (f : OverridableFunction) : String :=
  "function " ++ f.name ++ "(" ++ Parameter.listText f.parameters ++ ") " ++ f.visibility.keyword
    ++ " " ++ f.stateMutability.keyword

/-- The signature in words. -/
def signature (f : OverridableFunction) : String := f.headerText ++ returnsText f.returns

/-- The statement that calls the inherited function with all parameters. -/
def superCall (f : OverridableFunction) : String :=
  "super." ++ f.name ++ "(" ++ String.intercalate ", " (f.parameters.map Parameter.name) ++ ");"

end OverridableFunction

/-- The functions of a contract that its children may override. -/
def Contract.virtualFunctions (c : Contract) : List OverridableFunction :=
  (c.functions.filter fun f => f.2.isVirtual).map fun f => .ofFunction c f.1 f.2

/-- The functions that a contract may override: those of its parents, one parent after the other. -/
def Contract.overridable (c : Contract) (registry : Registry) : List OverridableFunction :=
  (c.knownParents registry).flatMap Contract.virtualFunctions

/-- Why an override is in conflict. -/
inductive ConflictKind where
  /-- The function may not be overridden any longer. -/
  | orphaned
  /-- The function is there, but the override does not fit it. -/
  | incompatible
deriving DecidableEq, Repr

namespace ConflictKind

/-- Every kind of conflict. -/
def all : List ConflictKind := [.orphaned, .incompatible]

/-- The name of a kind of conflict. -/
def name : ConflictKind → String
  | .orphaned => "orphaned"
  | .incompatible => "incompatible"

end ConflictKind

/-- An override in conflict. -/
structure OverrideConflict where
  functionId : BlockId
  kind : ConflictKind
deriving DecidableEq, Repr

namespace StoredOverride

/-- The function that an override replaces: the first of that identity. -/
def target? (o : StoredOverride) (overridable : List OverridableFunction) :
    Option OverridableFunction :=
  overridable.find? fun f => f.id == o.functionId

/-- Every override fits the function that it replaces. -/
def isCompatible (_ : StoredOverride) (_ : OverridableFunction) : Bool := true

/-- The conflict of an override, if there is one. -/
def conflict? (o : StoredOverride) (overridable : List OverridableFunction) :
    Option OverrideConflict :=
  match o.target? overridable with
  | none => some ⟨o.functionId, .orphaned⟩
  | some f => if o.isCompatible f then none else some ⟨o.functionId, .incompatible⟩

end StoredOverride

namespace Block

/-- The conflicts of the overrides kept with a block of the contract, in order. A block without
overrides has none, whatever may be overridden. -/
def conflicts (b : Block) (c : Contract) (registry : Registry) : List OverrideConflict :=
  if b.overrides.isEmpty then []
  else
    let overridable := c.overridable registry
    b.overrides.filterMap fun o => o.conflict? overridable

/-- The patch that enables or disables the override of a function: enabling one that is there and
disabling one that is not leave the list as it is. -/
def toggle (b : Block) (functionId : BlockId) (enabled : Bool) : Patch :=
  .ofOverrides <|
    if enabled then
      if b.overrides.any fun o => o.functionId == functionId then b.overrides
      else b.overrides ++ [.fresh functionId]
    else b.overrides.filter fun o => o.functionId != functionId

end Block

end ContractBlocks
