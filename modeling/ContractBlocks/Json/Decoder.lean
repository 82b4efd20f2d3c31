/-
# Decoders

A decoder takes a value out of a document, or refuses it. How much of the document it looks at is
part of its meaning: a value that nobody asks for may hold unreadable literals and any nesting, but
the containers that are opened on the way may be nested at most 127 deep.

A record is an object with known fields, of which none may repeat, or the array of its fields in
order. An object may have other fields too; an array may not be longer than the record, and if it is
shorter, only fields with a default may be missing.
-/

import ContractBlocks.Json.Reader

namespace ContractBlocks

/-- How a decoder comes to a value. -/
inductive Reach where
  /-- Straight from the text: `room` more containers may be opened one in another. -/
  | direct (room : Nat)
  /-- Out of a value that has been looked at completely. -/
  | collected
deriving DecidableEq, Repr

/-- A document begins with room for 127 containers one in another. -/
def Reach.start : Reach := .direct 127

/-- The reach inside a container. -/
def Reach.enter : Reach → Option Reach
  | .direct 0 => none
  | .direct (room + 1) => some (.direct room)
  | .collected => some .collected

namespace Json

mutual

/-- Every literal in the document has a value, and it fits into the room. -/
def readable (room : Nat) : Json → Bool
  | .unreadable => false
  | .array items => room != 0 && readableItems (room - 1) items
  | .object fields => room != 0 && readableFields (room - 1) fields
  | _ => true

/-- Every item is readable. -/
def readableItems (room : Nat) : List Json → Bool
  | [] => true
  | j :: js => readable room j && readableItems room js

/-- Every field is readable. -/
def readableFields (room : Nat) : List (String × Json) → Bool
  | [] => true
  | (_, j) :: fs => readable room j && readableFields room fs

end

/-- Sets a field among fields sorted by key. -/
def insertSorted (key : String) (value : Json) : List (String × Json) → List (String × Json)
  | [] => [(key, value)]
  | (k, v) :: rest =>
    if key < k then (key, value) :: (k, v) :: rest
    else if key = k then (key, value) :: rest
    else (k, v) :: insertSorted key value rest

/-- The fields sorted by key; of a repeated key the last value stays. -/
def sortFields (fields : List (String × Json)) : List (String × Json) :=
  fields.foldl (fun fs f => insertSorted f.1 f.2 fs) []

mutual

/-- The document with the fields of every object sorted. -/
def sorted : Json → Json
  | .array items => .array (sortedItems items)
  | .object fields => .object (sortFields (sortedFields fields))
  | j => j

/-- Every item with its fields sorted. -/
def sortedItems : List Json → List Json
  | [] => []
  | j :: js => sorted j :: sortedItems js

/-- Every field's value with its fields sorted. -/
def sortedFields : List (String × Json) → List (String × Json)
  | [] => []
  | (k, j) :: fs => (k, sorted j) :: sortedFields fs

end

end Json

/-- Takes a value out of a document. -/
abbrev Decoder (α : Type) := Reach → Json → Option α

/-- Sets a key of an insertion-ordered map: a known key keeps its place. -/
def putKey {α : Type} (key : String) (value : α) : List (String × α) → List (String × α)
  | [] => [(key, value)]
  | (k, v) :: rest => if k = key then (k, value) :: rest else (k, v) :: putKey key value rest

/-- The insertion-ordered map of the given pairs. -/
def mapOfPairs {α : Type} (pairs : List (String × α)) : List (String × α) :=
  pairs.foldl (fun m p => putKey p.1 p.2 m) []

namespace Decoder

variable {α β : Type}

/-- A string. -/
def string : Decoder String
  | _, .string s => some s
  | _, _ => none

/-- A truth value. -/
def bool : Decoder Bool
  | _, .bool b => some b
  | _, _ => none

/-- A natural number below `2 ^ 64`, written as an integer. -/
def natural : Decoder Nat
  | _, .number (.integer (.ofNat n)) => some n
  | _, _ => none

/-- Any number, as a double. -/
def double : Decoder Number.Binary64
  | _, .number n => some n.toBinary64
  | _, _ => none

/-- Either `null` or a value. -/
def nullable (d : Decoder α) : Decoder (Option α)
  | _, .null => some none
  | reach, j => (d reach j).map some

/-- An array. -/
def list (d : Decoder α) : Decoder (List α)
  | reach, .array items => reach.enter.bind fun inner => items.mapM (d inner)
  | _, _ => none

/-- An object as an insertion-ordered map. -/
def map (d : Decoder α) : Decoder (List (String × α))
  | reach, .object fields => do
    let inner ← reach.enter
    let pairs ← fields.mapM fun f => (d inner f.2).map fun v => (f.1, v)
    return mapOfPairs pairs
  | _, _ => none

/-- The whole value is looked at before it is decoded. -/
def collect (d : Decoder α) : Decoder α
  | .collected, j => d .collected j
  | .direct room, j => if j.readable room then d .collected j else none

/-- Any value, with the fields of its objects sorted. -/
def any : Decoder Json := collect fun _ j => some j.sorted

/-- One of the named values, as its name or as an object that maps the name to `null`. Inside a
collected value the empty object stands for `null`, too. -/
def oneOf (values : List α) (name : α → String) : Decoder α :=
  let find? (s : String) := values.find? fun v => name v == s
  fun reach j => match j with
    | .string s => find? s
    | .object [(s, .null)] => reach.enter.bind fun _ => find? s
    | .object [(s, .object [])] => if reach = .collected then find? s else none
    | _ => none

end Decoder

/-- What a record holds under a name. -/
inductive Slot where
  | present (value : Json)
  /-- The object has no such field. -/
  | absent
  /-- The array ends before that field. -/
  | cut
deriving DecidableEq, Repr

/-- The fields of a record. -/
structure Record where
  reach : Reach
  slot : String → Slot

namespace Record

variable {α : Type}

/-- The record that an object is: none of the names may repeat. -/
def ofFields? (names : List String) (reach : Reach) (fields : List (String × Json)) :
    Option Record :=
  if names.all fun n => (fields.countP fun f => f.1 == n) ≤ 1 then
    some ⟨reach, fun n => match fields.lookup n with
      | some j => .present j
      | none => .absent⟩
  else none

/-- The record that an array is: it holds no more than the fields. -/
def ofItems? (names : List String) (reach : Reach) (items : List Json) : Option Record :=
  if items.length ≤ names.length then
    some ⟨reach, fun n => match (names.zip items).lookup n with
      | some j => .present j
      | none => .cut⟩
  else none

/-- A field that must be there. -/
def required (r : Record) (name : String) (d : Decoder α) : Option α :=
  match r.slot name with
  | .present j => d r.reach j
  | _ => none

/-- A field that may be `null`, or missing in an object. -/
def optional (r : Record) (name : String) (d : Decoder α) : Option (Option α) :=
  match r.slot name with
  | .present j => d.nullable r.reach j
  | .absent => some none
  | .cut => none

/-- A field with a default, which stands for a missing one only. -/
def withDefault (r : Record) (name : String) (d : Decoder α) (default : α) : Option α :=
  match r.slot name with
  | .present j => d r.reach j
  | _ => some default

end Record

/-- A record, written as an object or as an array. -/
def Decoder.record {α : Type} (names : List String) (build : Record → Option α) : Decoder α
  | reach, .object fields =>
    reach.enter.bind fun inner => (Record.ofFields? names inner fields).bind build
  | reach, .array items =>
    reach.enter.bind fun inner => (Record.ofItems? names inner items).bind build
  | _, _ => none

/-- One of several records told apart by a tag: an object with the tag under `key` beside the
fields, or an array with the tag before them. The whole value is looked at first. -/
def Decoder.tagged {α : Type} (key : String)
    (cases : String → Option (List String × (Record → Option α))) : Decoder α :=
  Decoder.collect fun reach j => match j with
    | .object fields => match fields.filter fun f => f.1 == key with
      | [(_, .string tag)] => (cases tag).bind fun c =>
        (Record.ofFields? c.1 reach (fields.filter fun f => f.1 != key)).bind c.2
      | _ => none
    | .array (.string tag :: items) => (cases tag).bind fun c =>
      (Record.ofItems? c.1 reach items).bind c.2
    | _ => none

/-- Decodes a whole text. -/
def Decoder.ofText? {α : Type} (d : Decoder α) (text : String) : Option α :=
  (Json.read text.toList).bind (d .start)

end ContractBlocks
