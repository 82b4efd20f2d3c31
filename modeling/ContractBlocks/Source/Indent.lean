/-
# Moving text in

A text is moved in by spaces in front of each of its lines. A line of blank characters only becomes
empty, every line is ended, and a text of blank characters only has no lines.
-/

import ContractBlocks.Text.Lines

namespace ContractBlocks
namespace Source

/-- A line moved in, with its end. -/
def indentedLine (width : Nat) (line : List Char) : List Char :=
  (if Text.isBlank line then [] else List.replicate width ' ' ++ line) ++ ['\n']

/-- A text with each of its lines moved in. -/
def indented (width : Nat) (text : List Char) : List Char :=
  if Text.isBlank text then [] else (Text.lines text).flatMap (indentedLine width)

end Source
end ContractBlocks
