/-
# What a document means

An object may repeat a key and have its fields in any order.  What it means is a map, from each of its
keys to the last value of that key (`Json.lastValue?`), and two documents are the same JSON value if
they mean the same at every level (`Json.SameValue`).  A document with an unreadable literal is no
value and is the same as nothing.

Sorting the fields of a readable document changes how it is written but not its value
(`Json.sameValue_sorted`), and neither does putting the fields of an object into a map in order of
insertion (`Json.sameValue_mapOfPairs`).
-/

import ContractBlocks.Proofs.Json.Canonical

namespace ContractBlocks
namespace Json

/-- What an object with these fields holds under a key: the last value that it gives the key. -/
def lastValue? (key : String) (fields : List (String × Json)) : Option Json :=
  fields.reverse.lookup key

/-- The two documents are one JSON value. -/
inductive SameValue : Json → Json → Prop
  | null : SameValue .null .null
  | bool (b : Bool) : SameValue (.bool b) (.bool b)
  | number (n : Number.Value) : SameValue (.number n) (.number n)
  | string (s : String) : SameValue (.string s) (.string s)
  | array {xs ys : List Json} (length : xs.length = ys.length)
      (items : ∀ (i : Nat) x y, xs[i]? = some x → ys[i]? = some y → SameValue x y) :
      SameValue (.array xs) (.array ys)
  | object {fs gs : List (String × Json)}
      (keys : ∀ k, (lastValue? k fs).isSome ↔ (lastValue? k gs).isSome)
      (values : ∀ k x y, lastValue? k fs = some x → lastValue? k gs = some y → SameValue x y) :
      SameValue (.object fs) (.object gs)

variable {room : Nat} {fields : List (String × Json)} {key : String}

/-! ### The last value of a key -/

theorem mem_of_lastValue? {j : Json} (h : lastValue? key fields = some j) : (key, j) ∈ fields := by
  obtain ⟨before, after, hfields, -⟩ := List.lookup_eq_some_iff.1 h
  exact List.mem_reverse.1 (hfields ▸ List.mem_append_right _ List.mem_cons_self)

theorem lastValue?_isSome_iff : (lastValue? key fields).isSome ↔ key ∈ fields.map Prod.fst := by
  constructor
  · intro h
    obtain ⟨j, hj⟩ := Option.isSome_iff_exists.1 h
    exact List.mem_map_of_mem (mem_of_lastValue? hj)
  · intro h
    rw [Option.isSome_iff_ne_none, lastValue?, Ne, List.lookup_eq_none_iff]
    intro hnone
    obtain ⟨f, hf, rfl⟩ := List.mem_map.1 h
    exact absurd (hnone f (List.mem_reverse.2 hf)) (by simp)

/-- Where keys are different, the last value of a key is the one found first. -/
theorem lastValue?_of_nodup (h : (fields.map Prod.fst).Nodup) (key : String) :
    lastValue? key fields = fields.lookup key :=
  lookup_reverse_of_nodup h key

theorem lookup_map_snd (g : Json → Json) (fields : List (String × Json)) (key : String) :
    (fields.map fun f => (f.1, g f.2)).lookup key = (fields.lookup key).map g := by
  induction fields with
  | nil => rfl
  | cons f fs ih =>
    rw [List.map_cons, lookup_cons_eq_ite, lookup_cons_eq_ite, ih]
    split <;> rfl

theorem lastValue?_sortedFields (fields : List (String × Json)) (key : String) :
    lastValue? key (sortedFields fields) = (lastValue? key fields).map sorted := by
  rw [sortedFields_eq, lastValue?, ← List.map_reverse, lookup_map_snd, lastValue?]

/-- Fields of other keys make no difference. -/
theorem lookup_filter {p : String × Json → Bool} (h : ∀ j, p (key, j)) :
    (fields.filter p).lookup key = fields.lookup key := by
  induction fields with
  | nil => rfl
  | cons f fs ih =>
    by_cases hk : key = f.1
    · have hf : p f := by
        subst hk
        exact h f.2
      rw [List.filter_cons_of_pos hf, lookup_cons_eq_ite, lookup_cons_eq_ite, if_pos hk, if_pos hk]
    · rw [lookup_cons_eq_ite, if_neg hk, ← ih, List.filter_cons]
      split
      · rw [lookup_cons_eq_ite, if_neg hk]
      · rfl

theorem lastValue?_filter {p : String × Json → Bool} (h : ∀ j, p (key, j)) :
    lastValue? key (fields.filter p) = lastValue? key fields := by
  rw [lastValue?, ← List.filter_reverse, lookup_filter h, lastValue?]

/-- The value of the one field with a key is its last value. -/
theorem lastValue?_of_filter_eq {k : String} {j : Json}
    (h : fields.filter (fun f => f.1 == key) = [(k, j)]) : lastValue? key fields = some j := by
  have hmem : (k, j) ∈ fields.filter fun f => f.1 == key := h ▸ List.mem_singleton_self _
  have hkey : k = key := beq_iff_eq.1 (List.mem_filter.1 hmem).2
  rw [← lastValue?_filter (p := fun f => f.1 == key) fun _ => beq_self_eq_true key, h, hkey,
    lastValue?, List.reverse_singleton, List.lookup_cons_self]

/-! ### Keys that do not repeat -/

/-- The fields do not repeat the key. -/
def Once (fields : List (String × Json)) (key : String) : Prop :=
  (fields.countP fun f => f.1 == key) ≤ 1

/-- Where a key does not repeat, its last value is the one found first. -/
theorem Once.lookup_eq (h : Once fields key) : fields.lookup key = lastValue? key fields := by
  have hreverse : ∀ fs : List (String × Json), fs.length ≤ 1 → fs.reverse = fs
    | [], _ | [_], _ => rfl
  have hkey : ∀ j : Json, (key, j).1 == key := fun _ => beq_self_eq_true key
  rw [← lookup_filter (p := fun f => f.1 == key) hkey,
    ← lastValue?_filter (p := fun f => f.1 == key) hkey, lastValue?,
    hreverse _ (List.countP_eq_length_filter ▸ h)]

/-- A key that does not repeat is the key of one field only. -/
theorem Once.filter_eq {j : Json} (h : Once fields key) (hj : lastValue? key fields = some j) :
    fields.filter (fun f => f.1 == key) = [(key, j)] := by
  have hmem : (key, j) ∈ fields.filter fun f => f.1 == key :=
    List.mem_filter.2 ⟨mem_of_lastValue? hj, beq_self_eq_true key⟩
  have hlength : (fields.filter fun f => f.1 == key).length = 1 :=
    Nat.le_antisymm (List.countP_eq_length_filter ▸ h) (List.length_pos_of_mem hmem)
  obtain ⟨f, hf⟩ := List.length_eq_one_iff.1 hlength
  rw [hf] at hmem ⊢
  rw [List.mem_singleton.1 hmem]

/-! ### Sorting keeps the value -/

/-- An object keeps its value if the last value of each key is replaced by the same value. -/
theorem sameValue_object {gs : List (String × Json)} {g : Json → Json}
    (hgs : ∀ k, lastValue? k gs = (lastValue? k fields).map g)
    (hg : ∀ f ∈ fields, SameValue f.2 (g f.2)) : SameValue (.object fields) (.object gs) := by
  refine .object (fun k => by rw [hgs, Option.isSome_map]) fun k x y hx hy => ?_
  rw [hgs, hx] at hy
  obtain rfl := Option.some.inj hy
  exact hg _ (mem_of_lastValue? hx)

/-- **A readable document keeps its value when it is sorted.** -/
theorem sameValue_sorted {j : Json} (h : j.readable room) : SameValue j j.sorted := by
  induction j generalizing room with
  | array items ih =>
    obtain ⟨inner, rfl, hall⟩ := readable_array_iff.1 h
    rw [sorted, sortedItems_eq]
    refine .array (List.length_map sorted).symm fun i x y hx hy => ?_
    rw [List.getElem?_map, hx] at hy
    obtain rfl := Option.some.inj hy
    have hmem : x ∈ items := List.mem_of_getElem? hx
    exact ih x hmem (hall x hmem)
  | object fields ih =>
    obtain ⟨inner, rfl, hall⟩ := readable_object_iff.1 h
    rw [sorted]
    refine sameValue_object (fun k => ?_) fun f hf => ih f hf (hall f hf)
    rw [lastValue?_of_nodup (ordered_sortFields _).nodup, lookup_sortFields]
    exact lastValue?_sortedFields fields k
  | null => exact .null
  | bool b => exact .bool b
  | number n => exact .number n
  | string s => exact .string s
  | unreadable => cases h

/-- **An object keeps its value when its sorted values are put into a map.** -/
theorem sameValue_mapOfPairs (h : ∀ f ∈ fields, f.2.readable room) :
    SameValue (.object fields) (.object (mapOfPairs (sortedFields fields))) := by
  refine sameValue_object (fun k => ?_) fun f hf => sameValue_sorted (h f hf)
  rw [lastValue?_of_nodup (nodup_mapOfPairs _), lookup_mapOfPairs]
  exact lastValue?_sortedFields fields k

end Json
end ContractBlocks
