/-
# Blocks

A block is what every block has, an identity, a name, a description, a palette group and default
values, together with what its kind needs. A block of a kind that is not among the fourteen is kept
with its fields as a foreign block.
-/

import ContractBlocks.Block.Signature
import ContractBlocks.Json.Basic

namespace ContractBlocks

/-- The identity of a block, unique in its contract. -/
abbrev BlockId := String

/-- An override of an inherited function, kept with the function block that is being edited. -/
structure StoredOverride where
  /-- The inherited function that is replaced. -/
  functionId : BlockId
  body : String
  /-- The replacement calls the inherited function first. -/
  superCall : Bool
  /-- The body has been edited since the override was made. -/
  isModified : Bool
deriving DecidableEq, Repr

/-- An override as it is made: empty, calling the inherited function, not edited. -/
def StoredOverride.fresh (functionId : BlockId) : StoredOverride := ⟨functionId, "", true, false⟩

/-- What a function block needs. -/
structure FunctionBlock where
  visibility : Visibility
  stateMutability : StateMutability
  parameters : List Parameter
  returns : List Parameter
  modifiers : List ModifierUse
  isVirtual : Bool
  body : String
  overrides : List StoredOverride
deriving DecidableEq, Repr

/-- What a state variable needs. -/
structure VariableBlock where
  dataType : String
  visibility : Visibility
  mutability : VariableMutability
  initialValue : Option String
deriving DecidableEq, Repr

/-- What a constructor needs. -/
structure ConstructorBlock where
  parameters : List Parameter
  modifiers : List ModifierUse
  body : String
deriving DecidableEq, Repr

/-- What a modifier declaration needs. -/
structure ModifierBlock where
  parameters : List Parameter
  body : String
deriving DecidableEq, Repr

/-- What a mapping needs. -/
structure MappingBlock where
  keyType : String
  valueType : String
  visibility : Visibility
deriving DecidableEq, Repr

/-- What an array needs; without a length it is dynamic. -/
structure ArrayBlock where
  elementType : String
  length : Option Nat
  visibility : Visibility
deriving DecidableEq, Repr

/-- A block that describes something outside the source text. -/
structure Descriptor (α : Type) where
  subject : α
  parameters : List (String × String)
  requirements : List String
deriving DecidableEq, Repr

/-- The kind of a block with what that kind needs. -/
inductive Kind where
  | function (f : FunctionBlock)
  | stateVariable (v : VariableBlock)
  | constructor (c : ConstructorBlock)
  | event (parameters : List Parameter)
  | modifier (m : ModifierBlock)
  | error (parameters : List Parameter)
  | struct (members : List StructMember)
  | enum (members : List String)
  | mapping (m : MappingBlock)
  | array (a : ArrayBlock)
  | integration (d : Descriptor Protocol)
  | security (d : Descriptor Safeguard)
  | oracle (d : Descriptor OracleProvider)
  | externalCall (d : Descriptor InterfaceStandard)
  /-- A kind from elsewhere, with its fields sorted by key. -/
  | foreign (typeName : String) (fields : List (String × Json))
deriving DecidableEq, Repr

/-- The tag of a kind; a foreign kind has none. -/
def Kind.tag? : Kind → Option Tag
  | .function _ => some .function
  | .stateVariable _ => some .stateVariable
  | .constructor _ => some .constructor
  | .event _ => some .event
  | .modifier _ => some .modifier
  | .error _ => some .error
  | .struct _ => some .struct
  | .enum _ => some .enum
  | .mapping _ => some .mapping
  | .array _ => some .array
  | .integration _ => some .integration
  | .security _ => some .security
  | .oracle _ => some .oracle
  | .externalCall _ => some .externalCall
  | .foreign _ _ => none

/-- A block. -/
structure Block where
  id : BlockId
  name : String
  description : String
  category : Category
  defaults : List (String × Json)
  kind : Kind
deriving DecidableEq, Repr

namespace Block

/-- The statements of a block that has some. -/
def body? (b : Block) : Option String :=
  match b.kind with
  | .function f => some f.body
  | .constructor c => some c.body
  | .modifier m => some m.body
  | _ => none

/-- The parameters of a block that takes some. -/
def parameters? (b : Block) : Option (List Parameter) :=
  match b.kind with
  | .function f => some f.parameters
  | .constructor c => some c.parameters
  | .event ps => some ps
  | .error ps => some ps
  | .modifier m => some m.parameters
  | _ => none

/-- The visibility of a block that has one. -/
def visibility? (b : Block) : Option Visibility :=
  match b.kind with
  | .function f => some f.visibility
  | .stateVariable v => some v.visibility
  | .mapping m => some m.visibility
  | .array a => some a.visibility
  | _ => none

/-- What the block needs as a function, if it is one. -/
def function? (b : Block) : Option FunctionBlock :=
  match b.kind with
  | .function f => some f
  | _ => none

theorem function?_eq_some_iff {b : Block} {f : FunctionBlock} :
    b.function? = some f ↔ b.kind = .function f := by
  unfold function?
  cases b.kind <;> simp

/-- The overrides kept with the block; only a function has some. -/
def overrides (b : Block) : List StoredOverride :=
  match b.kind with
  | .function f => f.overrides
  | _ => []

end Block

/-- A place on the canvas. -/
structure Position where
  x : Number.Binary64
  y : Number.Binary64
deriving DecidableEq, Repr

/-- The origin of the canvas. -/
def Position.origin : Position := ⟨.zero, .zero⟩

/-- A block at its place on the canvas. -/
structure Placed where
  block : Block
  position : Position
deriving DecidableEq, Repr

/-- The identity of the placed block. -/
def Placed.id (p : Placed) : BlockId := p.block.id

end ContractBlocks
