/-
# Parameters and modifiers

The parts of a declaration's header: parameters with their type, data location and name, the members
of a struct, and the modifiers that a function or constructor applies.
-/

import ContractBlocks.Block.Vocabulary

namespace ContractBlocks

/-- A parameter of a function, event, error, constructor or modifier. -/
structure Parameter where
  name : String
  dataType : String
  /-- An event parameter that can be searched for. -/
  indexed : Bool
  location : Option DataLocation
deriving DecidableEq, Repr

namespace Parameter

/-- The type, the data location, `indexed` and the name, as far as they are there. -/
def text (p : Parameter) : String :=
  p.dataType
    ++ (match p.location with
      | some l => " " ++ l.keyword
      | none => "")
    ++ (if p.indexed then " indexed" else "")
    ++ (if p.name.isEmpty then "" else " " ++ p.name)

/-- The parameters as they stand between parentheses. -/
def listText (ps : List Parameter) : String := String.intercalate ", " (ps.map text)

end Parameter

/-- A member of a struct. -/
structure StructMember where
  name : String
  dataType : String
deriving DecidableEq, Repr

/-- A modifier applied to a function or a constructor. -/
inductive ModifierUse where
  /-- The bare name. -/
  | named (name : String)
  /-- The name with arguments, perhaps none. -/
  | applied (name : String) (arguments : List String)
deriving DecidableEq, Repr

namespace ModifierUse

/-- The modifier that is applied. -/
def name : ModifierUse → String
  | .named n => n
  | .applied n _ => n

/-- The modifier as it stands in a header; without arguments there are no parentheses. -/
def invocation : ModifierUse → String
  | .named n => n
  | .applied n [] => n
  | .applied n (a :: as) => n ++ "(" ++ String.intercalate ", " (a :: as) ++ ")"

/-- The modifiers as they stand in a header. -/
def listText (ms : List ModifierUse) : String := String.intercalate " " (ms.map invocation)

end ModifierUse

end ContractBlocks
