/-
# Decimal literals

A literal is an optional minus sign, whole digits without a leading zero, then perhaps a point with
digits and an exponent. Without point and exponent it names an integer as far as 64 bits reach, and
minus zero is a double.

A double is read from the digits that fit a 64-bit word: as soon as one more digit would not fit,
whole digits only raise the decimal exponent and fraction digits are dropped. The word is then
scaled by a power of ten, or by several when the exponent is below `-308`, with one rounding a step.
-/

import ContractBlocks.Number.Binary64

namespace ContractBlocks
namespace Number

/-- A literal taken apart; an integer literal has neither fraction digits nor an exponent. -/
structure Numeral where
  negative : Bool
  whole : List Nat
  fraction : List Nat
  exponent : Option Int
deriving DecidableEq, Repr

/-- The value of a decimal digit. -/
def digit? (c : Char) : Option Nat :=
  if c.isDigit then some (c.toNat - '0'.toNat) else none

/-- The digits at the start of a text, and the rest of it. -/
def takeDigits : List Char → List Nat × List Char
  | [] => ([], [])
  | c :: cs => match digit? c with
    | some d => (d :: (takeDigits cs).1, (takeDigits cs).2)
    | none => ([], c :: cs)

/-- The natural number that the digits spell. -/
def ofDigits (ds : List Nat) : Nat := ds.foldl (fun n d => 10 * n + d) 0

namespace Numeral

/-- The fraction after the whole digits: a point needs a digit behind it. -/
def readFraction : List Char → Option (List Nat × List Char)
  | '.' :: cs => match takeDigits cs with
    | ([], _) => none
    | r => some r
  | cs => some ([], cs)

/-- The digits of an exponent behind its sign, which must be the last of the literal. -/
def readPower (negative : Bool) (cs : List Char) : Option Int :=
  match takeDigits cs with
  | ([], _) => none
  | (ds, []) => some (if negative then -(ofDigits ds : Int) else ofDigits ds)
  | (_, _ :: _) => none

/-- The exponent at the end of a literal. -/
def readExponent : List Char → Option (Option Int)
  | [] => some none
  | c :: cs =>
    if c = 'e' ∨ c = 'E' then match cs with
      | '-' :: ds => (readPower true ds).map some
      | '+' :: ds => (readPower false ds).map some
      | ds => (readPower false ds).map some
    else none

/-- Reads a literal behind its sign. -/
def readUnsigned (negative : Bool) (cs : List Char) : Option Numeral :=
  match takeDigits cs with
  | ([], _) => none
  | (0 :: _ :: _, _) => none
  | (whole, rest) => do
    let (fraction, rest) ← readFraction rest
    let exponent ← readExponent rest
    return ⟨negative, whole, fraction, exponent⟩

/-- Reads a whole text as a literal. -/
def read : List Char → Option Numeral
  | '-' :: cs => readUnsigned true cs
  | cs => readUnsigned false cs

end Numeral

/-- A decimal `significand * 10 ^ exponent` whose significand fits a 64-bit word. -/
structure Scaled where
  significand : Nat
  exponent : Int
deriving DecidableEq, Repr

namespace Scaled

/-- One digit more fits the word. -/
def fits (n d : Nat) : Bool := 10 * n + d < UInt64.size

/-- Takes in whole digits; from the first that does not fit on, each counts as a factor of ten. -/
def takeWhole (n : Nat) : List Nat → Scaled
  | [] => ⟨n, 0⟩
  | d :: ds => if fits n d then takeWhole (10 * n + d) ds else ⟨n, (ds.length + 1 : Nat)⟩

/-- Takes in fraction digits up to the first that does not fit. -/
def takeFraction (s : Scaled) : List Nat → Scaled
  | [] => s
  | d :: ds =>
    if fits s.significand d then takeFraction ⟨10 * s.significand + d, s.exponent - 1⟩ ds else s

/-- The leading digits of a literal with the power of ten they stand for. -/
def ofNumeral (n : Numeral) : Scaled :=
  let s := takeFraction (takeWhole 0 n.whole) n.fraction
  ⟨s.significand, s.exponent + n.exponent.getD 0⟩

/-- Divides by `10 ^ k`, at most `10 ^ 308` at a time. -/
def shrink (n k : Nat) : Nat :=
  if k ≤ 308 then Binary64.overTen n k
  else if n = 0 then 0
  else shrink (Binary64.overTen n 308) (k - 308)
termination_by k

/-- The magnitude of the scaled word; none beyond the largest double. -/
def units? (s : Scaled) : Option Nat :=
  let word := Binary64.nearest (s.significand * Binary64.one) 1
  if s.exponent < 0 then some (shrink word s.exponent.natAbs)
  else if s.significand = 0 then some 0
  else if s.exponent ≤ 308 then
    let n := Binary64.timesTen word s.exponent.natAbs
    if n < Binary64.limit then some n else none
  else none

end Scaled

/-- The number in a document: an integer from `-2⁶³` to `2⁶⁴ - 1`, or a double. -/
inductive Value where
  | integer (i : Int)
  | double (x : Binary64)
deriving DecidableEq, Repr

namespace Numeral

/-- The double that a literal names; none if it is too large. -/
def double? (n : Numeral) : Option Binary64 :=
  (Scaled.ofNumeral n).units?.map fun u => ⟨n.negative, u⟩

/-- The integer that a literal names, if it is written as one, is in range and is not minus zero. -/
def integer? (n : Numeral) : Option Int :=
  if n.fraction.isEmpty && n.exponent.isNone then
    let m := ofDigits n.whole
    if n.negative then
      if 0 < m && 2 * m ≤ UInt64.size then some (-(m : Int)) else none
    else if m < UInt64.size then some m else none
  else none

/-- The number that a literal names; none if it is too large for a double. -/
def value? (n : Numeral) : Option Value :=
  match n.integer? with
  | some i => some (.integer i)
  | none => n.double?.map .double

end Numeral

/-- The number as a double, an integer rounded. -/
def Value.toBinary64 : Value → Binary64
  | .integer i => .ofInt i
  | .double x => x

end Number
end ContractBlocks
