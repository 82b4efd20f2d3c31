/-
# Fragments

A block with a source form becomes a fragment: a single statement, or a header with a body in
braces. The text of a fragment is that of the block by itself, at the left margin, with its body moved
in by one level.
-/

import ContractBlocks.Source.Indent
import ContractBlocks.Override.Basic

namespace ContractBlocks

/-- The source form of a block. -/
inductive Fragment where
  | statement (text : String)
  | braced (header body : String)
deriving DecidableEq, Repr

namespace Fragment

/-- The text up to the opening brace. -/
def opening (header : String) : List Char := header.toList ++ [' ', '\x7b']

/-- The fragment by itself, its body one level deep. -/
def text (width : Nat) : Fragment → List Char
  | .statement t => t.toList
  | .braced header body =>
    opening header ++ ['\n'] ++ Source.indented width body.toList ++ ['\x7d']

end Fragment

/-- The words of a text, those that are empty included, with spaces between them. -/
def spaced (words : List String) : String := String.intercalate " " words

namespace FunctionBlock

/-- The header of a function of the given name. -/
def headerText (f : FunctionBlock) (name : String) : String :=
  spaced ["function " ++ name ++ "(" ++ Parameter.listText f.parameters ++ ")",
      f.visibility.keyword, f.stateMutability.keyword]
    ++ (if f.isVirtual then " virtual" else "")
    ++ (if f.modifiers.isEmpty then "" else " " ++ ModifierUse.listText f.modifiers)
    ++ OverridableFunction.returnsText f.returns

end FunctionBlock

/-- The source form of a kind under a name; kinds that describe something else have none. -/
def Kind.fragment? (name : String) : Kind → Option Fragment
  | .function f => some (.braced (f.headerText name) f.body)
  | .stateVariable v =>
    some (.statement (spaced [v.visibility.keyword, v.mutability.keyword, v.dataType, name]
      ++ (match v.initialValue with
        | some t => " = " ++ t
        | none => "")
      ++ ";"))
  | .constructor c =>
    some (.braced ("constructor(" ++ Parameter.listText c.parameters ++ ") "
      ++ ModifierUse.listText c.modifiers) c.body)
  | .modifier m =>
    some (.braced ("modifier " ++ name ++ "(" ++ Parameter.listText m.parameters ++ ")") m.body)
  | .event ps => some (.statement ("event " ++ name ++ "(" ++ Parameter.listText ps ++ ");"))
  | .error ps => some (.statement ("error " ++ name ++ "(" ++ Parameter.listText ps ++ ");"))
  | .struct ms =>
    some (.braced ("struct " ++ name)
      (String.intercalate "\n" (ms.map fun m => m.dataType ++ " " ++ m.name ++ ";")))
  | .enum ms =>
    some (.statement ("enum " ++ name ++ " \x7b " ++ String.intercalate ", " ms ++ " \x7d"))
  | .mapping m =>
    some (.statement ("mapping(" ++ m.keyType ++ " => " ++ m.valueType ++ ") "
      ++ m.visibility.keyword ++ " " ++ name ++ ";"))
  | .array a =>
    some (.statement (a.elementType ++ "[" ++ ((a.length.map Nat.repr).getD "") ++ "] "
      ++ a.visibility.keyword ++ " " ++ name ++ ";"))
  | .integration _ | .security _ | .oracle _ | .externalCall _ | .foreign _ _ => none

/-- The source form of a block, if it has one. -/
def Block.fragment? (b : Block) : Option Fragment := b.kind.fragment? b.name

/-- The body of an override: the call of the inherited function, if it is wanted, and the stored
body behind it, on lines of its own unless it is blank. -/
def StoredOverride.bodyText (o : StoredOverride) (target : OverridableFunction) : String :=
  if o.superCall then
    target.superCall ++ (if Text.isBlank o.body.toList then "" else "\n") ++ o.body
  else o.body

/-- The function that an override becomes. -/
def StoredOverride.fragment (o : StoredOverride) (target : OverridableFunction) : Fragment :=
  .braced (target.headerText ++ " override" ++ OverridableFunction.returnsText target.returns)
    (o.bodyText target)

end ContractBlocks
