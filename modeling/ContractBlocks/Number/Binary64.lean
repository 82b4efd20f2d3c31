/-
# Finite doubles

Every finite IEEE 754 double is a whole number of least subnormals, `2⁻¹⁰⁷⁴`, with a sign. So the
magnitude is kept as that count, and rounding is exact arithmetic on natural numbers: the nearest
multiple of the spacing, a half going to the even multiple.
-/

namespace ContractBlocks
namespace Number

/-- The whole number nearest to `p / q`; a half goes to the even neighbour. -/
def roundRatio (p q : Nat) : Nat :=
  let k := p / q
  let r := p % q
  if 2 * r < q ∨ (2 * r = q ∧ k % 2 = 0) then k else k + 1

/-- A finite double: its sign, which zero has too, and its magnitude in units of `2⁻¹⁰⁷⁴`. -/
structure Binary64 where
  negative : Bool
  units : Nat
deriving DecidableEq, Repr, Inhabited

namespace Binary64

/-- The number of units in one. -/
def one : Nat := 1 <<< 1074

/-- The least number of units that no finite double reaches. -/
def limit : Nat := 1 <<< 2098

/-- Around `n` units the doubles lie `2 ^ spacing n` units apart. -/
def spacing (n : Nat) : Nat := n.log2 - 52

/-- The magnitude nearest to `p / q` units, as if there were no largest double. -/
def nearest (p q : Nat) : Nat :=
  let step := 1 <<< spacing (p / q)
  roundRatio p (q * step) * step

/-- Positive zero. -/
def zero : Binary64 := ⟨false, 0⟩

/-- The double nearest to an integer of at most 64 bits. -/
def ofInt (i : Int) : Binary64 := ⟨i < 0, nearest (i.natAbs * one) 1⟩

/-- The double nearest to `10 ^ k`, in units. -/
def tenPower (k : Nat) : Nat := nearest (Nat.pow 10 k * one) 1

/-- The product with the double nearest to `10 ^ k`, rounded. -/
def timesTen (n k : Nat) : Nat := nearest (n * tenPower k) one

/-- The quotient by the double nearest to `10 ^ k`, rounded. -/
def overTen (n k : Nat) : Nat := nearest (n * one) (tenPower k)

end Binary64

end Number
end ContractBlocks
