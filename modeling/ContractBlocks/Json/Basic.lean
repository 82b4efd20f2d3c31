/-
# JSON documents

A document is kept as it is written: the fields of an object stay in order and may repeat. A literal
can be well formed and still name no value, namely a number beyond the largest double or a string
with half a surrogate pair; it is kept as `unreadable`, which no decoder accepts and which does no
harm where nobody looks.
-/

import ContractBlocks.Number.Numeral

namespace ContractBlocks

/-- A JSON document. -/
inductive Json where
  | null
  | bool (b : Bool)
  | number (n : Number.Value)
  | string (s : String)
  | array (items : List Json)
  | object (fields : List (String × Json))
  | unreadable
deriving Repr, Inhabited

namespace Json

mutual

/-- Equality of documents is decidable. -/
def decEq : (a b : Json) → Decidable (a = b)
  | .null, .null => .isTrue rfl
  | .bool a, .bool b => decidable_of_iff (a = b) (by simp)
  | .number a, .number b => decidable_of_iff (a = b) (by simp)
  | .string a, .string b => decidable_of_iff (a = b) (by simp)
  | .array a, .array b => @decidable_of_iff _ (a = b) (by simp) (decEqItems a b)
  | .object a, .object b => @decidable_of_iff _ (a = b) (by simp) (decEqFields a b)
  | .unreadable, .unreadable => .isTrue rfl
  | .null, .bool _ | .null, .number _ | .null, .string _ | .null, .array _ | .null, .object _
  | .null, .unreadable | .bool _, .null | .bool _, .number _ | .bool _, .string _
  | .bool _, .array _ | .bool _, .object _ | .bool _, .unreadable | .number _, .null
  | .number _, .bool _ | .number _, .string _ | .number _, .array _ | .number _, .object _
  | .number _, .unreadable | .string _, .null | .string _, .bool _ | .string _, .number _
  | .string _, .array _ | .string _, .object _ | .string _, .unreadable | .array _, .null
  | .array _, .bool _ | .array _, .number _ | .array _, .string _ | .array _, .object _
  | .array _, .unreadable | .object _, .null | .object _, .bool _ | .object _, .number _
  | .object _, .string _ | .object _, .array _ | .object _, .unreadable | .unreadable, .null
  | .unreadable, .bool _ | .unreadable, .number _ | .unreadable, .string _
  | .unreadable, .array _ | .unreadable, .object _ => .isFalse (by simp)

/-- Equality of the items of two arrays is decidable. -/
def decEqItems : (a b : List Json) → Decidable (a = b)
  | [], [] => .isTrue rfl
  | [], _ :: _ | _ :: _, [] => .isFalse (by simp)
  | x :: xs, y :: ys =>
    match decEq x y, decEqItems xs ys with
    | .isTrue h, .isTrue hs => .isTrue (by rw [h, hs])
    | .isFalse h, _ => .isFalse (by simp [h])
    | _, .isFalse hs => .isFalse (by simp [hs])

/-- Equality of the fields of two objects is decidable. -/
def decEqFields : (a b : List (String × Json)) → Decidable (a = b)
  | [], [] => .isTrue rfl
  | [], _ :: _ | _ :: _, [] => .isFalse (by simp)
  | (k, x) :: xs, (l, y) :: ys =>
    match decEq x y, decEqFields xs ys with
    | .isTrue h, .isTrue hs =>
      @decidable_of_iff _ (k = l) (by rw [h, hs]; simp) (inferInstance)
    | .isFalse h, _ => .isFalse (by simp [h])
    | _, .isFalse hs => .isFalse (by simp [hs])

end

instance : DecidableEq Json := decEq

/-- A natural number as a document. -/
def ofNat (n : Nat) : Json := .number (.integer n)

/-- An optional value as a document, `null` if there is none. -/
def ofOption {α : Type} (f : α → Json) : Option α → Json
  | none => .null
  | some a => f a

/-- A list as a document. -/
def ofList {α : Type} (f : α → Json) (xs : List α) : Json := .array (xs.map f)

end Json
end ContractBlocks
