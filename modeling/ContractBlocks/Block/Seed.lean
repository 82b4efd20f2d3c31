/-
# Making blocks

A new block is made from a tag and a seed. The seed may set the name, the description, the palette
group, the default values and, where the kind has them, the visibility, the state mutability and the
data type; everything else is the default of the kind.
-/

import ContractBlocks.Block.EditError

namespace ContractBlocks

/-- What may be asked of a new block. -/
structure Seed where
  name : Option String
  description : Option String
  category : Option Category
  visibility : Option Visibility
  stateMutability : Option StateMutability
  dataType : Option String
  defaults : List (String × Json)
deriving DecidableEq, Repr

/-- The seed that asks for nothing. -/
def Seed.empty : Seed := ⟨none, none, none, none, none, none, []⟩

namespace Tag

/-- The name of a new block. -/
def defaultName : Tag → String
  | .function => "newFunction"
  | .stateVariable => "newVariable"
  | .constructor => "constructor"
  | .event => "NewEvent"
  | .modifier => "newModifier"
  | .error => "CustomError"
  | .struct => "NewStruct"
  | .enum => "NewEnum"
  | .mapping => "balances"
  | .array => "items"
  | .integration => "integration"
  | .security => "reentrancyGuard"
  | .oracle => "priceFeed"
  | .externalCall => "externalCall"

/-- The palette group of a new block. -/
def defaultCategory : Tag → Category
  | .function | .stateVariable | .constructor | .event => .basic
  | .modifier | .error => .advanced
  | .struct | .enum | .mapping | .array => .dataStructures
  | .security => .security
  | .integration | .oracle | .externalCall => .integrations

end Tag

/-- The kind of a new block. -/
def Seed.kind (s : Seed) : Tag → Kind
  | .function =>
    .function
      ⟨s.visibility.getD .pub, s.stateMutability.getD .nonpayable, [], [], [], false, "", []⟩
  | .stateVariable =>
    .stateVariable ⟨s.dataType.getD "uint256", s.visibility.getD .pub, .mutable, none⟩
  | .constructor => .constructor ⟨[], [], ""⟩
  | .event => .event []
  | .modifier => .modifier ⟨[], "_;"⟩
  | .error => .error []
  | .struct => .struct [⟨"id", "uint256"⟩]
  | .enum => .enum ["Inactive", "Active"]
  | .mapping => .mapping ⟨"address", s.dataType.getD "uint256", s.visibility.getD .pub⟩
  | .array => .array ⟨s.dataType.getD "uint256", none, s.visibility.getD .pub⟩
  | .integration => .integration ⟨.openZeppelin, [], []⟩
  | .security => .security ⟨.reentrancyGuard, [], []⟩
  | .oracle => .oracle ⟨.chainlink, [], []⟩
  | .externalCall => .externalCall ⟨.erc20, [], []⟩

namespace Block

/-- The block that a seed makes of a tag. -/
def ofTag (id : BlockId) (tag : Tag) (seed : Seed) : Block where
  id := id
  name := seed.name.getD tag.defaultName
  description := seed.description.getD ""
  category := seed.category.getD tag.defaultCategory
  defaults := seed.defaults
  kind := seed.kind tag

/-- The block that a seed makes of the name of a tag. -/
def create (id : BlockId) (tagName : String) (seed : Seed) : Except EditError Block :=
  match Tag.ofName? tagName with
  | some tag => .ok (ofTag id tag seed)
  | none => .error (.unsupportedKind tagName)

/-- The block at a place on the canvas. -/
def place (b : Block) (position : Position) : Placed := ⟨b, position⟩

end Block

theorem Seed.tag?_kind (s : Seed) (t : Tag) : (s.kind t).tag? = some t := by
  cases t <;> rfl

end ContractBlocks
