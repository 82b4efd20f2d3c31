/-
# Blank characters

White space is the Unicode property `White_Space`: twenty-five code points, from the tab to the
ideographic space. Trimming takes blank characters off both ends of a text, and a text of blank
characters alone is blank.
-/

namespace ContractBlocks
namespace Text

/-- The code points with the property `White_Space`, as closed ranges. -/
def blankRanges : List (Nat × Nat) :=
  [(0x9, 0xd), (0x20, 0x20), (0x85, 0x85), (0xa0, 0xa0), (0x1680, 0x1680), (0x2000, 0x200a),
    (0x2028, 0x2029), (0x202f, 0x202f), (0x205f, 0x205f), (0x3000, 0x3000)]

/-- A blank character is one with the property `White_Space`. -/
def isBlankChar (c : Char) : Bool :=
  blankRanges.any fun r => r.1 ≤ c.toNat && c.toNat ≤ r.2

/-- A blank text holds blank characters only; the empty text is blank. -/
def isBlank (cs : List Char) : Bool := cs.all isBlankChar

/-- The text without the blank characters at its start. -/
def trimStart (cs : List Char) : List Char := cs.dropWhile isBlankChar

/-- The text without the blank characters at its end. -/
def trimEnd (cs : List Char) : List Char := (cs.reverse.dropWhile isBlankChar).reverse

/-- The text without the blank characters at either end. -/
def trim (cs : List Char) : List Char := trimEnd (trimStart cs)

@[simp]
theorem isBlank_append (a b : List Char) : isBlank (a ++ b) = (isBlank a && isBlank b) := by
  simp [isBlank]

end Text
end ContractBlocks
