/-
# Vocabulary

The words that blocks share: who may call or read a declaration, what a function does to the state,
how a variable changes, where a parameter lives, and the palette a block comes from. Each word has
its spelling in source text or in a document.
-/

namespace ContractBlocks

/-- Who may reach a function or a state declaration. -/
inductive Visibility where
  | pub
  | priv
  | internal
  | external
deriving DecidableEq, Repr

namespace Visibility

/-- Every visibility. -/
def all : List Visibility := [.pub, .priv, .internal, .external]

/-- The word for a visibility. -/
def keyword : Visibility → String
  | .pub => "public"
  | .priv => "private"
  | .internal => "internal"
  | .external => "external"

end Visibility

/-- What a function may do to the state. -/
inductive StateMutability where
  | pure
  | view
  | payable
  | nonpayable
deriving DecidableEq, Repr

namespace StateMutability

/-- Every state mutability. -/
def all : List StateMutability := [.pure, .view, .payable, .nonpayable]

/-- The word for a state mutability. -/
def keyword : StateMutability → String
  | .pure => "pure"
  | .view => "view"
  | .payable => "payable"
  | .nonpayable => "nonpayable"

/-- A pure or viewing function writes no state. -/
def isReadOnly : StateMutability → Bool
  | .pure | .view => true
  | .payable | .nonpayable => false

end StateMutability

/-- How often a state variable may be set. -/
inductive VariableMutability where
  | mutable
  | immutable
  | constant
deriving DecidableEq, Repr

namespace VariableMutability

/-- Every variable mutability. -/
def all : List VariableMutability := [.mutable, .immutable, .constant]

/-- The name of a variable mutability in a document. -/
def name : VariableMutability → String
  | .mutable => "mutable"
  | .immutable => "immutable"
  | .constant => "constant"

/-- The word in a declaration; ordinary storage has none. -/
def keyword : VariableMutability → String
  | .mutable => ""
  | .immutable => "immutable"
  | .constant => "constant"

end VariableMutability

/-- Where a parameter of a reference type lives. -/
inductive DataLocation where
  | memory
  | storage
  | calldata
deriving DecidableEq, Repr

namespace DataLocation

/-- Every data location. -/
def all : List DataLocation := [.memory, .storage, .calldata]

/-- The word for a data location. -/
def keyword : DataLocation → String
  | .memory => "memory"
  | .storage => "storage"
  | .calldata => "calldata"

end DataLocation

/-- The palette group that shows a block. -/
inductive Category where
  | basic
  | dataStructures
  | advanced
  | security
  | integrations
deriving DecidableEq, Repr

namespace Category

/-- Every palette group. -/
def all : List Category := [.basic, .dataStructures, .advanced, .security, .integrations]

/-- The name of a palette group. -/
def name : Category → String
  | .basic => "basic"
  | .dataStructures => "dataStructures"
  | .advanced => "advanced"
  | .security => "security"
  | .integrations => "integrations"

end Category

/-- The kinds of blocks that the palette offers. -/
inductive Tag where
  | function
  | stateVariable
  | constructor
  | event
  | modifier
  | error
  | struct
  | enum
  | mapping
  | array
  | integration
  | security
  | oracle
  | externalCall
deriving DecidableEq, Repr

namespace Tag

/-- Every tag, in palette order. -/
def all : List Tag :=
  [.function, .stateVariable, .constructor, .event, .modifier, .error, .struct, .enum, .mapping,
    .array, .integration, .security, .oracle, .externalCall]

/-- The name of a tag. -/
def name : Tag → String
  | .function => "function"
  | .stateVariable => "variable"
  | .constructor => "constructor"
  | .event => "event"
  | .modifier => "modifier"
  | .error => "error"
  | .struct => "struct"
  | .enum => "enum"
  | .mapping => "mapping"
  | .array => "array"
  | .integration => "integration"
  | .security => "security"
  | .oracle => "oracle"
  | .externalCall => "externalCall"

/-- The tag of a name. -/
def ofName? (s : String) : Option Tag := all.find? fun t => t.name == s

theorem ofName?_name (t : Tag) : ofName? t.name = some t := by cases t <;> decide

theorem mem_all (t : Tag) : t ∈ all := by cases t <;> decide

theorem ofName?_eq_none_iff {name : String} : ofName? name = none ↔ ∀ t : Tag, t.name ≠ name := by
  rw [ofName?, List.find?_eq_none]
  exact ⟨fun h t ht => h t t.mem_all (beq_iff_eq.2 ht), fun h t _ ht => h t (beq_iff_eq.1 ht)⟩

end Tag

/-- The protocols that an integration block can describe. -/
inductive Protocol where
  | uniswap
  | aave
  | compound
  | openZeppelin
  | custom
deriving DecidableEq, Repr

namespace Protocol

/-- Every protocol. -/
def all : List Protocol := [.uniswap, .aave, .compound, .openZeppelin, .custom]

/-- The name of a protocol. -/
def name : Protocol → String
  | .uniswap => "uniswap"
  | .aave => "aave"
  | .compound => "compound"
  | .openZeppelin => "openzeppelin"
  | .custom => "custom"

end Protocol

/-- The safeguards that a security block can describe. -/
inductive Safeguard where
  | reentrancyGuard
  | pausable
  | accessControl
  | ownable
  | rateLimit
deriving DecidableEq, Repr

namespace Safeguard

/-- Every safeguard. -/
def all : List Safeguard := [.reentrancyGuard, .pausable, .accessControl, .ownable, .rateLimit]

/-- The name of a safeguard. -/
def name : Safeguard → String
  | .reentrancyGuard => "reentrancyGuard"
  | .pausable => "pausable"
  | .accessControl => "accessControl"
  | .ownable => "ownable"
  | .rateLimit => "rateLimit"

end Safeguard

/-- The networks that an oracle block can describe. -/
inductive OracleProvider where
  | chainlink
  | band
  | uma
  | custom
deriving DecidableEq, Repr

namespace OracleProvider

/-- Every oracle network. -/
def all : List OracleProvider := [.chainlink, .band, .uma, .custom]

/-- The name of an oracle network. -/
def name : OracleProvider → String
  | .chainlink => "chainlink"
  | .band => "band"
  | .uma => "uma"
  | .custom => "custom"

end OracleProvider

/-- The interface standards that an external call block can target. -/
inductive InterfaceStandard where
  | erc20
  | erc721
  | erc1155
  | custom
deriving DecidableEq, Repr

namespace InterfaceStandard

/-- Every interface standard. -/
def all : List InterfaceStandard := [.erc20, .erc721, .erc1155, .custom]

/-- The name of an interface standard. -/
def name : InterfaceStandard → String
  | .erc20 => "erc20"
  | .erc721 => "erc721"
  | .erc1155 => "erc1155"
  | .custom => "custom"

end InterfaceStandard

end ContractBlocks
