/-
# Laying out a decimal

A layout says where a decimal is written positionally and where with an exponent. Written either
way, the digits are those of the decimal; positional notation always has a digit on both sides of
the point.
-/

import ContractBlocks.Number.Numeral
import ContractBlocks.Number.Shortest

namespace ContractBlocks
namespace Number

/-- How doubles are written. The place of the point counts the digits before it; it is negative when
zeros follow the point first. -/
structure Layout where
  /-- The lowest place of the point that is written positionally. -/
  lowest : Int
  /-- The highest place of the point that is written positionally. -/
  highest : Int
  /-- A positive exponent carries its sign. -/
  signed : Bool
deriving DecidableEq, Repr

/-- The decimal digits of a natural number. -/
def natText (n : Nat) : List Char := Nat.toDigits 10 n

/-- The decimal digits of an integer behind its sign. -/
def intText (i : Int) : List Char :=
  if i < 0 then '-' :: natText i.natAbs else natText i.natAbs

namespace Layout

/-- One digit, the others behind a point, and the exponent. -/
def scientific (l : Layout) (digits : List Char) (exponent : Int) : List Char :=
  let power := if l.signed && 0 ≤ exponent then '+' :: intText exponent else intText exponent
  match digits with
  | [] => []
  | [d] => d :: 'e' :: power
  | d :: ds => d :: '.' :: (ds ++ 'e' :: power)

/-- The text of a positive decimal. -/
def decimal (l : Layout) (d : Decimal) : List Char :=
  let digits := natText d.digits
  let point : Int := digits.length + d.exponent
  if 0 < point ∧ point ≤ l.highest then
    if 0 ≤ d.exponent then digits ++ List.replicate d.exponent.toNat '0' ++ ['.', '0']
    else digits.take point.toNat ++ '.' :: digits.drop point.toNat
  else if l.lowest ≤ point ∧ point ≤ 0 then
    '0' :: '.' :: (List.replicate point.natAbs '0' ++ digits)
  else l.scientific digits (point - 1)

/-- The text of a double. -/
def double (l : Layout) (x : Binary64) : List Char :=
  let magnitude := if x.units = 0 then ['0', '.', '0'] else l.decimal (Binary64.shortest x.units)
  if x.negative then '-' :: magnitude else magnitude

/-- The text of a number. -/
def value (l : Layout) : Value → List Char
  | .integer i => intText i
  | .double x => l.double x

end Layout

end Number
end ContractBlocks
