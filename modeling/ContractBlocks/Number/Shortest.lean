/-
# Shortest decimals

The decimal written for a double is a point of the coarsest grid `10 ^ e · ℤ` that has a point
rounding to the double. Of two such points on that grid the nearer one is taken, and the even one at
equal distance. The decimals that round to a double fill the interval up to half way to either
neighbour, ends included exactly if the double's own significand is even.
-/

import ContractBlocks.Number.Binary64

namespace ContractBlocks
namespace Number

/-- The decimal `digits * 10 ^ exponent`. -/
structure Decimal where
  digits : Nat
  exponent : Int
deriving DecidableEq, Repr

namespace Binary64

/-- Four times the distance from `n` units down to where decimals stop rounding to `n`. -/
def gapBelow (n : Nat) : Nat :=
  let s := spacing n
  if 0 < s ∧ n = 1 <<< (52 + s) then 1 <<< s else 2 <<< s

/-- Four times the distance from `n` units up to where decimals stop rounding to `n`. -/
def gapAbove (n : Nat) : Nat := 2 <<< spacing n

/-- The ends of the interval round to `n` themselves. -/
def endsRound (n : Nat) : Bool := (n >>> spacing n) % 2 = 0

/-- A decimal of `x / (4 * up)` units rounds to `n` units. -/
def rounds (n up x : Nat) : Bool :=
  let low := (4 * n - gapBelow n) * up
  let high := (4 * n + gapAbove n) * up
  if endsRound n then low ≤ x && x ≤ high else low < x && x < high

/-- The multiple of `10 ^ e` to write for `n` units, if one rounds to it. -/
def onGrid? (n : Nat) (e : Int) : Option Nat :=
  let up := Nat.pow 10 (-e).toNat
  let step := Nat.pow 10 e.toNat * one
  let k := n * up / step
  match rounds n up (4 * k * step), rounds n up (4 * (k + 1) * step) with
  | true, true => some (roundRatio (n * up) step)
  | true, false => some k
  | false, true => some (k + 1)
  | false, false => none

/-- The shortest decimal for `n` units: the grids are tried from `10 ^ 308` down to `10 ^ -324`. -/
def shortest (n : Nat) : Decimal :=
  ((List.range 633).findSome? fun (i : Nat) =>
    let e : Int := 308 - (i : Int)
    (onGrid? n e).map fun k => ⟨k, e⟩).getD ⟨0, 0⟩

end Binary64

end Number
end ContractBlocks
