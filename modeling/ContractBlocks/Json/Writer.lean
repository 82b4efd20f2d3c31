/-
# Writing a document

A document has two written forms: compact, without white space, and pretty, with one item or field
a line and two spaces of indent a level. Strings escape the quote, the backslash and the control
characters and keep all else as it is.
-/

import ContractBlocks.Json.Basic
import ContractBlocks.Number.Layout

namespace ContractBlocks
namespace Json

/-- Doubles are positional from `0.00001` up to below `10 ^ 16`. -/
def doubleLayout : Number.Layout := ⟨-4, 16, true⟩

/-- The hexadecimal digit of a number below sixteen. -/
def hexText (n : Nat) : Char := Nat.digitChar n

/-- A character as it stands between quotes. -/
def escapeChar (c : Char) : List Char :=
  match c with
  | '"' => ['\\', '"']
  | '\\' => ['\\', '\\']
  | '\x08' => ['\\', 'b']
  | '\x0c' => ['\\', 'f']
  | '\n' => ['\\', 'n']
  | '\r' => ['\\', 'r']
  | '\t' => ['\\', 't']
  | _ =>
    if c.toNat < 0x20 then ['\\', 'u', '0', '0', hexText (c.toNat / 16), hexText (c.toNat % 16)]
    else [c]

/-- A string between its quotes. -/
def quote (s : String) : List Char := '"' :: (s.toList.flatMap escapeChar ++ ['"'])

/-- The text of a document that is neither an array nor an object. -/
def scalarText : Json → List Char
  | .bool true => ['t', 'r', 'u', 'e']
  | .bool false => ['f', 'a', 'l', 's', 'e']
  | .number n => doubleLayout.value n
  | .string s => quote s
  | _ => ['n', 'u', 'l', 'l']

mutual

/-- The compact text of a document. -/
def compactText : Json → List Char
  | .array items => '[' :: (compactItems items ++ [']'])
  | .object fields => '\x7b' :: (compactFields fields ++ ['\x7d'])
  | j => scalarText j

/-- Compact items with commas between them. -/
def compactItems : List Json → List Char
  | [] => []
  | [j] => compactText j
  | j :: k :: js => compactText j ++ ',' :: compactItems (k :: js)

/-- Compact fields with commas between them. -/
def compactFields : List (String × Json) → List Char
  | [] => []
  | [(k, j)] => quote k ++ ':' :: compactText j
  | (k, j) :: f :: fs => quote k ++ ':' :: (compactText j ++ ',' :: compactFields (f :: fs))

end

/-- A line feed and the indent of the given level. -/
def newline (level : Nat) : List Char := '\n' :: List.replicate (2 * level) ' '

mutual

/-- The pretty text of a document that stands at the given level. -/
def prettyText (level : Nat) : Json → List Char
  | .array [] => ['[', ']']
  | .array (j :: js) => '[' :: (prettyItems (level + 1) (j :: js) ++ newline level ++ [']'])
  | .object [] => ['\x7b', '\x7d']
  | .object (f :: fs) =>
    '\x7b' :: (prettyFields (level + 1) (f :: fs) ++ newline level ++ ['\x7d'])
  | j => scalarText j

/-- Pretty items, each on a line of its own. -/
def prettyItems (level : Nat) : List Json → List Char
  | [] => []
  | [j] => newline level ++ prettyText level j
  | j :: k :: js => newline level ++ prettyText level j ++ ',' :: prettyItems level (k :: js)

/-- Pretty fields, each on a line of its own. -/
def prettyFields (level : Nat) : List (String × Json) → List Char
  | [] => []
  | [(k, j)] => newline level ++ quote k ++ ':' :: ' ' :: prettyText level j
  | (k, j) :: f :: fs =>
    newline level ++ quote k
      ++ ':' :: ' ' :: (prettyText level j ++ ',' :: prettyFields level (f :: fs))

end

/-- A document in compact form. -/
def compact (j : Json) : String := String.ofList (compactText j)

/-- A document in pretty form. -/
def pretty (j : Json) : String := String.ofList (prettyText 0 j)

end Json
end ContractBlocks
