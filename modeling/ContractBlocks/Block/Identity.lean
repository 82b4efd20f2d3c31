/-
# Random identities

The identity of a new block is a version 4 UUID: 122 random bits, written as 32 hexadecimal digits
in five groups.
-/

import ContractBlocks.Block.Basic

namespace ContractBlocks

/-- The hexadecimal digits of a number, as many as asked for, the lowest last. -/
def hexDigits : Nat → Nat → List Char
  | 0, _ => []
  | k + 1, n => hexDigits k (n / 16) ++ [Nat.digitChar (n % 16)]

/-- The identity for the given random bits. -/
def BlockId.ofBits (bits : Nat) : BlockId :=
  let low := hexDigits 12 bits
  let clock := hexDigits 3 (bits >>> 48)
  let variant := Nat.digitChar (8 + (bits >>> 60) % 4)
  let high := hexDigits 3 (bits >>> 62)
  let mid := hexDigits 4 (bits >>> 74)
  let top := hexDigits 8 (bits >>> 90)
  String.ofList
    (top ++ '-' :: mid ++ '-' :: '4' :: high ++ '-' :: variant :: clock ++ '-' :: low)

end ContractBlocks
