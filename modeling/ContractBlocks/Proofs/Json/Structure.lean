/-
# Documents level by level

An array or an object has what its parts have, one level further down.  `Json.induction` is the
induction that goes with it, and the numbers of a document (`Json.numbers`) and the room that it
needs (`Json.readable`) are brought to that form.

A document fits into a room (`Json.Fits`) if every literal in it has a value and its containers are
not nested deeper than the room.  What its numbers should be like is left open: in range, say, or such
that they are read from the text that they are written as.
-/

import ContractBlocks.Json.Decoder
import Mathlib.Algebra.Group.Int.Defs
import Mathlib.Data.List.Basic

namespace ContractBlocks

/-- The integers that a literal can name are those from `-2⁶³` to `2⁶⁴ - 1`. -/
def Number.Value.InRange : Number.Value → Prop
  | .integer i => -2 ^ 63 ≤ i ∧ i < 2 ^ 64
  | .double _ => True

namespace Json

/-- **Induction over a document:** of an array or an object, what is to be shown holds of the
parts. -/
@[induction_eliminator]
theorem induction {motive : Json → Prop} (null : motive .null) (bool : ∀ b, motive (.bool b))
    (number : ∀ n, motive (.number n)) (string : ∀ s, motive (.string s))
    (array : ∀ items, (∀ j ∈ items, motive j) → motive (.array items))
    (object : ∀ fields, (∀ f ∈ fields, motive f.2) → motive (.object fields))
    (unreadable : motive .unreadable) : ∀ j, motive j :=
  @Json.rec motive (fun items => ∀ j ∈ items, motive j) (fun fields => ∀ f ∈ fields, motive f.2)
    (fun f => motive f.2) null bool number string array object unreadable
    (fun _ hj => absurd hj List.not_mem_nil)
    (fun _ _ hj hjs => List.forall_mem_cons.2 ⟨hj, hjs⟩)
    (fun _ hf => absurd hf List.not_mem_nil)
    (fun _ _ hf hfs => List.forall_mem_cons.2 ⟨hf, hfs⟩)
    (fun _ _ h => h)

/-! ### The numbers of a document -/

mutual

/-- The numbers of a document in order. -/
def numbers : Json → List Number.Value
  | .number n => [n]
  | .array items => itemNumbers items
  | .object fields => fieldNumbers fields
  | _ => []

/-- The numbers of the items in order. -/
def itemNumbers : List Json → List Number.Value
  | [] => []
  | j :: js => numbers j ++ itemNumbers js

/-- The numbers of the fields in order. -/
def fieldNumbers : List (String × Json) → List Number.Value
  | [] => []
  | (_, j) :: fs => numbers j ++ fieldNumbers fs

end

@[simp]
theorem mem_numbers_array {items : List Json} {n : Number.Value} :
    n ∈ (Json.array items).numbers ↔ ∃ j ∈ items, n ∈ j.numbers := by
  rw [numbers]
  induction items with
  | nil => simp [itemNumbers]
  | cons j js ih => simp only [itemNumbers, List.mem_append, ih, List.mem_cons, exists_eq_or_imp]

@[simp]
theorem mem_numbers_object {fields : List (String × Json)} {n : Number.Value} :
    n ∈ (Json.object fields).numbers ↔ ∃ f ∈ fields, n ∈ f.2.numbers := by
  rw [numbers]
  induction fields with
  | nil => simp [fieldNumbers]
  | cons f fs ih => simp only [fieldNumbers, List.mem_append, ih, List.mem_cons, exists_eq_or_imp]

/-- Every integer of the document can be named by a literal. -/
def InRange (j : Json) : Prop := ∀ n ∈ j.numbers, n.InRange

@[simp]
theorem inRange_array {items : List Json} :
    (Json.array items).InRange ↔ ∀ j ∈ items, j.InRange := by
  simp only [InRange, mem_numbers_array]
  exact ⟨fun h j hj n hn => h n ⟨j, hj, hn⟩, fun h n ⟨j, hj, hn⟩ => h j hj n hn⟩

@[simp]
theorem inRange_object {fields : List (String × Json)} :
    (Json.object fields).InRange ↔ ∀ f ∈ fields, f.2.InRange := by
  simp only [InRange, mem_numbers_object]
  exact ⟨fun h f hf n hn => h n ⟨f, hf, hn⟩, fun h n ⟨f, hf, hn⟩ => h f hf n hn⟩

/-! ### The room of a document -/

theorem readableItems_iff {room : Nat} {items : List Json} :
    readableItems room items ↔ ∀ j ∈ items, j.readable room := by
  induction items with
  | nil => simp [readableItems]
  | cons j js ih => rw [readableItems, Bool.and_eq_true, ih, List.forall_mem_cons]

theorem readableFields_iff {room : Nat} {fields : List (String × Json)} :
    readableFields room fields ↔ ∀ f ∈ fields, f.2.readable room := by
  induction fields with
  | nil => simp [readableFields]
  | cons f fs ih => rw [readableFields, Bool.and_eq_true, ih, List.forall_mem_cons]

theorem readable_array_iff {room : Nat} {items : List Json} :
    (Json.array items).readable room ↔
      ∃ inner, room = inner + 1 ∧ ∀ j ∈ items, j.readable inner := by
  cases room with
  | zero => simp [readable]
  | succ inner => simp [readable, readableItems_iff]

theorem readable_object_iff {room : Nat} {fields : List (String × Json)} :
    (Json.object fields).readable room ↔
      ∃ inner, room = inner + 1 ∧ ∀ f ∈ fields, f.2.readable inner := by
  cases room with
  | zero => simp [readable]
  | succ inner => simp [readable, readableFields_iff]

/-! ### Documents that fit -/

/-- Every literal of the document has a value, its numbers are as they should be, and its containers
fit into the room. -/
structure Fits (p : Number.Value → Prop) (room : Nat) (j : Json) : Prop where
  readable : j.readable room
  numbers : ∀ n ∈ j.numbers, p n

section Fits

variable {p q : Number.Value → Prop} {room : Nat}

theorem fits_array_iff {items : List Json} :
    (Json.array items).Fits p room ↔ ∃ inner, room = inner + 1 ∧ ∀ j ∈ items, j.Fits p inner := by
  constructor
  · rintro ⟨hr, hn⟩
    obtain ⟨inner, rfl, hj⟩ := readable_array_iff.1 hr
    exact ⟨inner, rfl, fun j hm => ⟨hj j hm, fun n h => hn n (mem_numbers_array.2 ⟨j, hm, h⟩)⟩⟩
  · rintro ⟨inner, rfl, h⟩
    refine ⟨readable_array_iff.2 ⟨inner, rfl, fun j hj => (h j hj).readable⟩, fun n hn => ?_⟩
    obtain ⟨j, hj, hn⟩ := mem_numbers_array.1 hn
    exact (h j hj).numbers n hn

theorem fits_object_iff {fields : List (String × Json)} :
    (Json.object fields).Fits p room ↔
      ∃ inner, room = inner + 1 ∧ ∀ f ∈ fields, f.2.Fits p inner := by
  constructor
  · rintro ⟨hr, hn⟩
    obtain ⟨inner, rfl, hf⟩ := readable_object_iff.1 hr
    exact ⟨inner, rfl, fun f hm => ⟨hf f hm, fun n h => hn n (mem_numbers_object.2 ⟨f, hm, h⟩)⟩⟩
  · rintro ⟨inner, rfl, h⟩
    refine ⟨readable_object_iff.2 ⟨inner, rfl, fun f hf => (h f hf).readable⟩, fun n hn => ?_⟩
    obtain ⟨f, hf, hn⟩ := mem_numbers_object.1 hn
    exact (h f hf).numbers n hn

@[simp]
theorem fits_null : Json.null.Fits p room := ⟨rfl, fun _ hn => absurd hn List.not_mem_nil⟩

@[simp]
theorem fits_bool (b : Bool) : (Json.bool b).Fits p room :=
  ⟨rfl, fun _ hn => absurd hn List.not_mem_nil⟩

@[simp]
theorem fits_string (s : String) : (Json.string s).Fits p room :=
  ⟨rfl, fun _ hn => absurd hn List.not_mem_nil⟩

@[simp]
theorem fits_number_iff {n : Number.Value} : (Json.number n).Fits p room ↔ p n :=
  ⟨fun h => h.numbers n (List.mem_singleton_self n),
    fun h => ⟨rfl, fun _ hn => List.mem_singleton.1 hn ▸ h⟩⟩

theorem not_fits_unreadable : ¬Json.unreadable.Fits p room := fun h => by
  simpa [Json.readable] using h.readable

end Fits

end Json

end ContractBlocks
