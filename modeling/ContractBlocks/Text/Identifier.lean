/-
# Identifiers

A Solidity identifier is an ASCII letter, `_` or `$`, followed by ASCII letters, digits, `_` or
`$`. No other alphabet takes part.
-/

namespace ContractBlocks
namespace Text

/-- A character that may begin an identifier. -/
def isIdentifierStart (c : Char) : Bool := c.isAlpha || c == '_' || c == '$'

/-- A character that may stand after the first of an identifier. -/
def isIdentifierPart (c : Char) : Bool := c.isAlphanum || c == '_' || c == '$'

/-- The text is an identifier. -/
def isIdentifier : List Char → Bool
  | [] => false
  | c :: cs => isIdentifierStart c && cs.all isIdentifierPart

theorem isIdentifierPart_of_start {c : Char} (h : isIdentifierStart c) : isIdentifierPart c := by
  simp only [isIdentifierStart, isIdentifierPart, Char.isAlphanum, Bool.or_eq_true] at h ⊢
  grind

/-- Every character of an identifier may stand in one. -/
theorem isIdentifierPart_of_mem {cs : List Char} (h : isIdentifier cs) {c : Char} (hc : c ∈ cs) :
    isIdentifierPart c := by
  cases cs with
  | nil => cases h
  | cons d ds =>
    rw [isIdentifier, Bool.and_eq_true, List.all_eq_true] at h
    rcases List.mem_cons.1 hc with rfl | hc
    · exact isIdentifierPart_of_start h.1
    · exact h.2 c hc

theorem ne_nil_of_isIdentifier {cs : List Char} (h : isIdentifier cs) : cs ≠ [] := by
  rintro rfl
  cases h

end Text
end ContractBlocks
