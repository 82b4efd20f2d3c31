/-
# Reading a document

The tokens of a text are read by recursive descent. Every call that goes deeper or on to a next
element has taken a token, so one more than the number of tokens bounds the calls in a row. A text
is a document if its tokens are one value and nothing more.
-/

import ContractBlocks.Json.Token

namespace ContractBlocks
namespace Json

/-- An object of the fields in order; unreadable if a key is. -/
def ofFields (fields : List (Option String × Json)) : Json :=
  match fields.mapM fun f => f.1.map fun k => (k, f.2) with
  | some fs => .object fs
  | none => .unreadable

mutual

/-- Reads one value off the tokens. -/
def readValue : Nat → List Token → Option (Json × List Token)
  | 0, _ => none
  | _, [] => none
  | fuel + 1, t :: ts => match t with
    | .literal v => some (v, ts)
    | .string s => some ((s.map .string).getD .unreadable, ts)
    | .arrayStart => match ts with
      | .arrayEnd :: rest => some (.array [], rest)
      | _ => (readItems fuel ts).map fun r => (.array r.1, r.2)
    | .objectStart => match ts with
      | .objectEnd :: rest => some (.object [], rest)
      | _ => (readFields fuel ts).map fun r => (ofFields r.1, r.2)
    | _ => none

/-- Reads the items of an array, at least one, and its end. -/
def readItems : Nat → List Token → Option (List Json × List Token)
  | 0, _ => none
  | fuel + 1, ts => match readValue fuel ts with
    | some (v, .comma :: rest) => (readItems fuel rest).map fun r => (v :: r.1, r.2)
    | some (v, .arrayEnd :: rest) => some ([v], rest)
    | _ => none

/-- Reads the fields of an object, at least one, and its end. -/
def readFields : Nat → List Token → Option (List (Option String × Json) × List Token)
  | fuel + 1, .string k :: .colon :: ts => match readValue fuel ts with
    | some (v, .comma :: rest) => (readFields fuel rest).map fun r => ((k, v) :: r.1, r.2)
    | some (v, .objectEnd :: rest) => some ([(k, v)], rest)
    | _ => none
  | _, _ => none

end

/-- The document that the tokens are. -/
def ofTokens (ts : List Token) : Option Json :=
  match readValue (ts.length + 1) ts with
  | some (v, []) => some v
  | _ => none

/-- The document that a text is. -/
def read (text : List Char) : Option Json := (tokens text).bind ofTokens

end Json
end ContractBlocks
