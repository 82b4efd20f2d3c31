/-
# Block documents

How blocks are written as documents and read back. A block is one object that holds what every block
has, the tag under `type`, and what its kind needs. An object whose tag is no known one is read as a
foreign block with all its other fields; one with a known tag is read as that kind or refused.
-/

import ContractBlocks.Block.Basic
import ContractBlocks.Json.Decoder

namespace ContractBlocks

/-- A field that is left out when there is nothing to write. -/
def Json.fieldIf (present : Bool) (name : String) (j : Json) : List (String × Json) :=
  if present then [(name, j)] else []

/-- A field that is left out when there is no value. -/
def Json.fieldOf {α : Type} (name : String) (f : α → Json) : Option α → List (String × Json)
  | none => []
  | some a => [(name, f a)]

namespace Visibility

/-- A visibility is written as its word. -/
def encode (v : Visibility) : Json := .string v.keyword

/-- A visibility is read from its word. -/
def decode : Decoder Visibility := .oneOf all keyword

end Visibility

namespace StateMutability

/-- A state mutability is written as its word. -/
def encode (m : StateMutability) : Json := .string m.keyword

/-- A state mutability is read from its word. -/
def decode : Decoder StateMutability := .oneOf all keyword

end StateMutability

namespace VariableMutability

/-- A variable mutability is written as its name, ordinary storage too. -/
def encode (m : VariableMutability) : Json := .string m.name

/-- A variable mutability is read from its name. -/
def decode : Decoder VariableMutability := .oneOf all name

end VariableMutability

namespace DataLocation

/-- A data location is written as its word. -/
def encode (l : DataLocation) : Json := .string l.keyword

/-- A data location is read from its word. -/
def decode : Decoder DataLocation := .oneOf all keyword

end DataLocation

namespace Category

/-- A palette group is written as its name. -/
def encode (c : Category) : Json := .string c.name

/-- A palette group is read from its name. -/
def decode : Decoder Category := .oneOf all name

end Category

namespace Tag

/-- A tag is written as its name. -/
def encode (t : Tag) : Json := .string t.name

/-- A tag is read from its name. -/
def decode : Decoder Tag := .oneOf all name

end Tag

namespace Parameter

/-- A parameter is written with `indexed` always and the data location only if there is one. -/
def encode (p : Parameter) : Json :=
  .object ([("name", .string p.name), ("type", .string p.dataType), ("indexed", .bool p.indexed)]
    ++ Json.fieldOf "location" DataLocation.encode p.location)

/-- A parameter is read from its name and type; it is not indexed unless it says so. -/
def decode : Decoder Parameter :=
  .record ["name", "type", "indexed", "location"] fun r => do
    let name ← r.required "name" .string
    let dataType ← r.required "type" .string
    let indexed ← r.withDefault "indexed" .bool false
    let location ← r.withDefault "location" (.nullable DataLocation.decode) none
    return ⟨name, dataType, indexed, location⟩

end Parameter

namespace StructMember

/-- A struct member is written as its name and type. -/
def encode (m : StructMember) : Json :=
  .object [("name", .string m.name), ("type", .string m.dataType)]

/-- A struct member needs its name and type. -/
def decode : Decoder StructMember :=
  .record ["name", "type"] fun r => do
    let name ← r.required "name" .string
    let dataType ← r.required "type" .string
    return ⟨name, dataType⟩

end StructMember

namespace ModifierUse

/-- A bare name is written as a string, and a name with arguments as an object. -/
def encode : ModifierUse → Json
  | .named n => .string n
  | .applied n as => .object [("name", .string n), ("arguments", .ofList .string as)]

/-- A bare name is a string, and a name with arguments an object, which cannot be written as an
array. -/
def decode : Decoder ModifierUse :=
  .collect fun reach j => match j with
    | .string n => some (.named n)
    | .object fields => do
      let r ← Record.ofFields? ["name", "arguments"] reach fields
      let name ← r.required "name" .string
      let arguments ← r.withDefault "arguments" (.list .string) []
      return .applied name arguments
    | _ => none

end ModifierUse

namespace StoredOverride

/-- A stored override is written with all its fields. -/
def encode (o : StoredOverride) : Json :=
  .object [("functionId", .string o.functionId), ("body", .string o.body),
    ("superCall", .bool o.superCall), ("isModified", .bool o.isModified)]

/-- A stored override needs all its fields. -/
def decode : Decoder StoredOverride :=
  .record ["functionId", "body", "superCall", "isModified"] fun r => do
    let functionId ← r.required "functionId" .string
    let body ← r.required "body" .string
    let superCall ← r.required "superCall" .bool
    let isModified ← r.required "isModified" .bool
    return ⟨functionId, body, superCall, isModified⟩

end StoredOverride

/-- Parameters as a document. -/
def Parameter.encodeList (ps : List Parameter) : Json := .ofList Parameter.encode ps

namespace FunctionBlock

/-- The fields of a function; overrides are left out if there are none. -/
def fields (f : FunctionBlock) : List (String × Json) :=
  [("visibility", f.visibility.encode), ("stateMutability", f.stateMutability.encode),
    ("parameters", Parameter.encodeList f.parameters),
    ("returnParameters", Parameter.encodeList f.returns),
    ("modifiers", .ofList ModifierUse.encode f.modifiers), ("isVirtual", .bool f.isVirtual),
    ("body", .string f.body)]
    ++ Json.fieldIf (!f.overrides.isEmpty) "overrides" (.ofList StoredOverride.encode f.overrides)

/-- The names of the fields of a function, in order. -/
def names : List String :=
  ["visibility", "stateMutability", "parameters", "returnParameters", "modifiers", "isVirtual",
    "body", "overrides"]

/-- A function needs its visibility and its state mutability; the rest may be missing. -/
def ofRecord (r : Record) : Option FunctionBlock := do
  let visibility ← r.required "visibility" Visibility.decode
  let stateMutability ← r.required "stateMutability" StateMutability.decode
  let parameters ← r.withDefault "parameters" (.list Parameter.decode) []
  let returns ← r.withDefault "returnParameters" (.list Parameter.decode) []
  let modifiers ← r.withDefault "modifiers" (.list ModifierUse.decode) []
  let isVirtual ← r.withDefault "isVirtual" .bool false
  let body ← r.withDefault "body" .string ""
  let overrides ← r.withDefault "overrides" (.list StoredOverride.decode) []
  return ⟨visibility, stateMutability, parameters, returns, modifiers, isVirtual, body, overrides⟩

end FunctionBlock

namespace VariableBlock

/-- The fields of a state variable; the initial value is left out if there is none. -/
def fields (v : VariableBlock) : List (String × Json) :=
  [("dataType", .string v.dataType), ("visibility", v.visibility.encode),
    ("mutability", v.mutability.encode)]
    ++ Json.fieldOf "initialValue" .string v.initialValue

/-- The names of the fields of a state variable, in order. -/
def names : List String := ["dataType", "visibility", "mutability", "initialValue"]

/-- A state variable needs its type and its visibility; ordinary storage is the default. -/
def ofRecord (r : Record) : Option VariableBlock := do
  let dataType ← r.required "dataType" .string
  let visibility ← r.required "visibility" Visibility.decode
  let mutability ← r.withDefault "mutability" VariableMutability.decode .mutable
  let initialValue ← r.withDefault "initialValue" (.nullable .string) none
  return ⟨dataType, visibility, mutability, initialValue⟩

end VariableBlock

namespace ConstructorBlock

/-- The fields of a constructor. -/
def fields (c : ConstructorBlock) : List (String × Json) :=
  [("parameters", Parameter.encodeList c.parameters),
    ("modifiers", .ofList ModifierUse.encode c.modifiers), ("body", .string c.body)]

/-- The names of the fields of a constructor, in order. -/
def names : List String := ["parameters", "modifiers", "body"]

/-- Every field of a constructor may be missing. -/
def ofRecord (r : Record) : Option ConstructorBlock := do
  let parameters ← r.withDefault "parameters" (.list Parameter.decode) []
  let modifiers ← r.withDefault "modifiers" (.list ModifierUse.decode) []
  let body ← r.withDefault "body" .string ""
  return ⟨parameters, modifiers, body⟩

end ConstructorBlock

namespace ModifierBlock

/-- The fields of a modifier declaration. -/
def fields (m : ModifierBlock) : List (String × Json) :=
  [("parameters", Parameter.encodeList m.parameters), ("body", .string m.body)]

/-- The names of the fields of a modifier declaration, in order. -/
def names : List String := ["parameters", "body"]

/-- Every field of a modifier declaration may be missing. -/
def ofRecord (r : Record) : Option ModifierBlock := do
  let parameters ← r.withDefault "parameters" (.list Parameter.decode) []
  let body ← r.withDefault "body" .string ""
  return ⟨parameters, body⟩

end ModifierBlock

namespace MappingBlock

/-- The fields of a mapping. -/
def fields (m : MappingBlock) : List (String × Json) :=
  [("keyType", .string m.keyType), ("valueType", .string m.valueType),
    ("visibility", m.visibility.encode)]

/-- The names of the fields of a mapping, in order. -/
def names : List String := ["keyType", "valueType", "visibility"]

/-- A mapping needs all its fields. -/
def ofRecord (r : Record) : Option MappingBlock := do
  let keyType ← r.required "keyType" .string
  let valueType ← r.required "valueType" .string
  let visibility ← r.required "visibility" Visibility.decode
  return ⟨keyType, valueType, visibility⟩

end MappingBlock

namespace ArrayBlock

/-- The fields of an array; the length is left out if there is none. -/
def fields (a : ArrayBlock) : List (String × Json) :=
  [("elementType", .string a.elementType)] ++ Json.fieldOf "length" .ofNat a.length
    ++ [("visibility", a.visibility.encode)]

/-- The names of the fields of an array, in order. -/
def names : List String := ["elementType", "length", "visibility"]

/-- An array needs its element type and its visibility; without a length it is dynamic. -/
def ofRecord (r : Record) : Option ArrayBlock := do
  let elementType ← r.required "elementType" .string
  let length ← r.withDefault "length" (.nullable .natural) none
  let visibility ← r.required "visibility" Visibility.decode
  return ⟨elementType, length, visibility⟩

end ArrayBlock

namespace Descriptor

variable {α : Type}

/-- The fields of a descriptor whose subject is written under `key`. -/
def fields (key : String) (name : α → String) (d : Descriptor α) : List (String × Json) :=
  [(key, .string (name d.subject)),
    ("parameters", .object (d.parameters.map fun p => (p.1, .string p.2))),
    ("requirements", .ofList .string d.requirements)]

/-- The names of the fields of a descriptor, in order. -/
def names (key : String) : List String := [key, "parameters", "requirements"]

/-- A descriptor needs its subject; parameters and requirements may be missing. -/
def ofRecord (key : String) (all : List α) (name : α → String) (r : Record) :
    Option (Descriptor α) := do
  let subject ← r.required key (.oneOf all name)
  let parameters ← r.withDefault "parameters" (.map .string) []
  let requirements ← r.withDefault "requirements" (.list .string) []
  return ⟨subject, parameters, requirements⟩

end Descriptor

namespace Kind

/-- The fields of a kind, the tag first. -/
def fields : Kind → List (String × Json)
  | .function f => ("type", Tag.function.encode) :: f.fields
  | .stateVariable v => ("type", Tag.stateVariable.encode) :: v.fields
  | .constructor c => ("type", Tag.constructor.encode) :: c.fields
  | .event ps => [("type", Tag.event.encode), ("parameters", Parameter.encodeList ps)]
  | .modifier m => ("type", Tag.modifier.encode) :: m.fields
  | .error ps => [("type", Tag.error.encode), ("parameters", Parameter.encodeList ps)]
  | .struct ms => [("type", Tag.struct.encode), ("members", .ofList StructMember.encode ms)]
  | .enum ms => [("type", Tag.enum.encode), ("members", .ofList .string ms)]
  | .mapping m => ("type", Tag.mapping.encode) :: m.fields
  | .array a => ("type", Tag.array.encode) :: a.fields
  | .integration d => ("type", Tag.integration.encode) :: d.fields "protocol" Protocol.name
  | .security d => ("type", Tag.security.encode) :: d.fields "feature" Safeguard.name
  | .oracle d => ("type", Tag.oracle.encode) :: d.fields "provider" OracleProvider.name
  | .externalCall d =>
    ("type", Tag.externalCall.encode) :: d.fields "standard" InterfaceStandard.name
  | .foreign typeName fields => ("type", .string typeName) :: fields

/-- The fields that a tag knows. -/
def names : Tag → List String
  | .function => FunctionBlock.names
  | .stateVariable => VariableBlock.names
  | .constructor => ConstructorBlock.names
  | .event | .error => ["parameters"]
  | .modifier => ModifierBlock.names
  | .struct | .enum => ["members"]
  | .mapping => MappingBlock.names
  | .array => ArrayBlock.names
  | .integration => Descriptor.names "protocol"
  | .security => Descriptor.names "feature"
  | .oracle => Descriptor.names "provider"
  | .externalCall => Descriptor.names "standard"

/-- The kind of a tag with the fields of a record. -/
def ofRecord (r : Record) : Tag → Option Kind
  | .function => (FunctionBlock.ofRecord r).map .function
  | .stateVariable => (VariableBlock.ofRecord r).map .stateVariable
  | .constructor => (ConstructorBlock.ofRecord r).map .constructor
  | .event => (r.withDefault "parameters" (.list Parameter.decode) []).map .event
  | .modifier => (ModifierBlock.ofRecord r).map .modifier
  | .error => (r.withDefault "parameters" (.list Parameter.decode) []).map .error
  | .struct => (r.withDefault "members" (.list StructMember.decode) []).map .struct
  | .enum => (r.withDefault "members" (.list .string) []).map .enum
  | .mapping => (MappingBlock.ofRecord r).map .mapping
  | .array => (ArrayBlock.ofRecord r).map .array
  | .integration => (Descriptor.ofRecord "protocol" Protocol.all Protocol.name r).map .integration
  | .security => (Descriptor.ofRecord "feature" Safeguard.all Safeguard.name r).map .security
  | .oracle => (Descriptor.ofRecord "provider" OracleProvider.all OracleProvider.name r).map .oracle
  | .externalCall =>
    (Descriptor.ofRecord "standard" InterfaceStandard.all InterfaceStandard.name r).map
      .externalCall

/-- The kind of a tag in collected fields. -/
def ofTag? (tag : Tag) (fields : List (String × Json)) : Option Kind :=
  (Record.ofFields? (names tag) .collected fields).bind fun r => ofRecord r tag

/-- The kind in collected fields: one of them is the tag, as its name or as its place in palette
order. -/
def ofFields? (fields : List (String × Json)) : Option Kind :=
  let others := fields.filter fun f => f.1 != "type"
  match fields.filter fun f => f.1 == "type" with
  | [(_, .string name)] => match Tag.ofName? name with
    | some tag => ofTag? tag others
    | none => some (.foreign name (Json.sortFields (Json.sortedFields others)))
  | [(_, .number (.integer (.ofNat i)))] => Tag.all[i]?.bind fun tag => ofTag? tag others
  | _ => none

end Kind

namespace Block

/-- A block is written as what every block has, then the fields of its kind. -/
def encode (b : Block) : Json :=
  .object ([("id", .string b.id), ("name", .string b.name), ("description", .string b.description),
    ("category", b.category.encode), ("defaultValues", .object b.defaults)] ++ b.kind.fields)

/-- The fields that every block has. -/
def names : List String := ["id", "name", "description", "category", "defaultValues"]

/-- Fields are looked at completely, within the reach. -/
def collectible (fields : List (String × Json)) : Reach → Bool
  | .direct room => Json.readableFields room fields
  | .collected => true

/-- A block, which cannot be written as an array. The fields that not every block has are looked at
completely, whatever the kind makes of them. -/
def decode : Decoder Block
  | reach, .object fields => do
    let inner ← reach.enter
    let r ← Record.ofFields? names inner fields
    let others := fields.filter fun f => !names.contains f.1
    let id ← r.required "id" .string
    let name ← r.required "name" .string
    let description ← r.withDefault "description" .string ""
    let category ← r.required "category" Category.decode
    let defaults ← r.withDefault "defaultValues" (.map .any) []
    let kind ← if collectible others inner then Kind.ofFields? others else none
    return ⟨id, name, description, category, defaults, kind⟩
  | _, _ => none

end Block

namespace Position

/-- A place is written as its two coordinates, both doubles. -/
def encode (p : Position) : Json :=
  .object [("x", .number (.double p.x)), ("y", .number (.double p.y))]

/-- A place needs both coordinates. -/
def decode : Decoder Position :=
  .record ["x", "y"] fun r => do
    let x ← r.required "x" .double
    let y ← r.required "y" .double
    return ⟨x, y⟩

end Position

namespace Placed

/-- A placed block is written as the block and its place. -/
def encode (p : Placed) : Json :=
  .object [("data", p.block.encode), ("position", p.position.encode)]

/-- A placed block needs the block; without a place it stands at the origin. -/
def decode : Decoder Placed :=
  .record ["data", "position"] fun r => do
    let block ← r.required "data" Block.decode
    let position ← r.withDefault "position" Position.decode .origin
    return ⟨block, position⟩

end Placed

end ContractBlocks
