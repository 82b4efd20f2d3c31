/-
# Lines

A line feed ends a line, and a carriage return just before it goes with it. A text that ends in a
line feed has no empty last line, and a carriage return that no line feed follows stays.
-/

import ContractBlocks.Text.Blank

namespace ContractBlocks
namespace Text

/-- The pieces of a text between its line feeds; the empty text is one empty piece. -/
def pieces : List Char → List (List Char)
  | [] => [[]]
  | c :: cs =>
    if c = '\n' then [] :: pieces cs
    else match pieces cs with
      | [] => [[c]]
      | p :: ps => (c :: p) :: ps

/-- A piece without the carriage return at its end, if it has one there. -/
def dropReturn (line : List Char) : List Char :=
  if line.getLast? = some '\r' then line.dropLast else line

/-- Pieces as lines: each but the last ended in a line feed, and an empty last one is no line. -/
def closePieces : List (List Char) → List (List Char)
  | [] => []
  | [last] => if last.isEmpty then [] else [last]
  | p :: q :: ps => dropReturn p :: closePieces (q :: ps)

/-- The lines of a text. -/
def lines (cs : List Char) : List (List Char) := closePieces (pieces cs)

/-- Text of the given lines, each ended by a line feed. -/
def unlines (ls : List (List Char)) : List Char := ls.flatMap (· ++ ['\n'])

theorem pieces_ne_nil (cs : List Char) : pieces cs ≠ [] := by
  cases cs with
  | nil => simp [pieces]
  | cons c cs => by_cases h : c = '\n' <;> simp only [pieces, h] <;> grind

@[simp]
theorem lines_nil : lines [] = [] := rfl

end Text
end ContractBlocks
