/-
# Maps and sorted documents

Decoded maps are of two kinds.  A map in order of insertion has each key once, at its first place and
with its last value; a sorted one has its keys in order.  Building either from what is such a map
already changes nothing (`mapOfPairs_of_nodup`, `Json.sortFields_of_ordered`), so sorting the objects
of a document a second time leaves it as it is (`Json.sorted_sorted`).
-/

import ContractBlocks.Proofs.Json.Structure
import Mathlib.Data.String.Basic

namespace ContractBlocks

/-! ### Maps in order of insertion -/

section Insertion

variable {α β : Type} {key : String} {value : α} {m : List (String × α)}

theorem mem_of_mem_putKey {f : String × α} (h : f ∈ putKey key value m) :
    f = (key, value) ∨ f ∈ m := by
  induction m with
  | nil => exact Or.inl (List.mem_singleton.1 h)
  | cons g rest ih =>
    rw [putKey] at h
    split at h
    · next hk =>
      rcases List.mem_cons.1 h with rfl | h
      · exact Or.inl (hk ▸ rfl)
      · exact Or.inr (List.mem_cons_of_mem _ h)
    · rcases List.mem_cons.1 h with rfl | h
      · exact Or.inr List.mem_cons_self
      · exact (ih h).imp_right (List.mem_cons_of_mem _)

/-- A key that is not there is put behind the others. -/
theorem putKey_of_notMem (h : key ∉ m.map Prod.fst) : putKey key value m = m ++ [(key, value)] := by
  induction m with
  | nil => rfl
  | cons g rest ih =>
    rw [List.map_cons, List.mem_cons, not_or] at h
    rw [putKey, if_neg (Ne.symm h.1), ih h.2, List.cons_append]

/-- A key that is there keeps its place. -/
theorem keys_putKey_of_mem (h : key ∈ m.map Prod.fst) :
    (putKey key value m).map Prod.fst = m.map Prod.fst := by
  induction m with
  | nil => cases h
  | cons g rest ih =>
    rw [putKey]
    split
    · next hk => rw [List.map_cons, List.map_cons, hk]
    · next hk =>
      rw [List.map_cons, List.map_cons, ih ((List.mem_cons.1 h).resolve_left (Ne.symm hk))]

theorem nodup_putKey (h : (m.map Prod.fst).Nodup) : ((putKey key value m).map Prod.fst).Nodup := by
  by_cases hk : key ∈ m.map Prod.fst
  · rwa [keys_putKey_of_mem hk]
  · rw [putKey_of_notMem hk, List.map_append, List.map_cons, List.map_nil]
    refine List.nodup_append.2 ⟨h, by simp, ?_⟩
    rintro a ha _ hb rfl
    obtain rfl : a = key := List.mem_singleton.1 hb
    exact hk ha

/-- Putting pairs into a map adds nothing else and keeps the keys apart. -/
theorem foldl_putKey (pairs : List (String × α)) (h : (m.map Prod.fst).Nodup) :
    ((pairs.foldl (fun m p => putKey p.1 p.2 m) m).map Prod.fst).Nodup ∧
      ∀ f ∈ pairs.foldl (fun m p => putKey p.1 p.2 m) m, f ∈ m ∨ f ∈ pairs := by
  induction pairs generalizing m with
  | nil => exact ⟨h, fun f hf => Or.inl hf⟩
  | cons p pairs ih =>
    obtain ⟨hn, hm⟩ := ih (nodup_putKey h)
    refine ⟨hn, fun f hf => ?_⟩
    rcases hm f hf with hf | hf
    · rcases mem_of_mem_putKey hf with rfl | hf
      · exact Or.inr List.mem_cons_self
      · exact Or.inl hf
    · exact Or.inr (List.mem_cons_of_mem _ hf)

/-- The keys of a map are different. -/
theorem nodup_mapOfPairs (pairs : List (String × α)) : ((mapOfPairs pairs).map Prod.fst).Nodup :=
  (foldl_putKey (m := []) pairs List.nodup_nil).1

theorem mem_of_mem_mapOfPairs {pairs : List (String × α)} {f : String × α}
    (h : f ∈ mapOfPairs pairs) : f ∈ pairs :=
  ((foldl_putKey (m := []) pairs List.nodup_nil).2 f h).resolve_left List.not_mem_nil

/-- **A map is built from its own pairs.** -/
theorem mapOfPairs_of_nodup {pairs : List (String × α)} (h : (pairs.map Prod.fst).Nodup) :
    mapOfPairs pairs = pairs := by
  have hgo : ∀ m : List (String × α), ((m ++ pairs).map Prod.fst).Nodup →
      pairs.foldl (fun m p => putKey p.1 p.2 m) m = m ++ pairs := by
    clear h
    induction pairs with
    | nil => exact fun m _ => (List.append_nil m).symm
    | cons p pairs ih =>
      intro m hm
      have hp : p.1 ∉ m.map Prod.fst := fun hk => by
        rw [List.map_append, List.nodup_append] at hm
        exact hm.2.2 p.1 hk p.1 List.mem_cons_self rfl
      have happ : m ++ p :: pairs = m ++ [(p.1, p.2)] ++ pairs := by simp
      rw [List.foldl_cons, putKey_of_notMem hp, happ]
      exact ih _ (happ ▸ hm)
  exact hgo [] h

/-- Where keys are different, what is found under a key is what stands under it. -/
theorem lookup_eq_some_iff_mem (h : (m.map Prod.fst).Nodup) :
    m.lookup key = some value ↔ (key, value) ∈ m := by
  induction m with
  | nil => simp
  | cons g rest ih =>
    obtain ⟨hg, hrest⟩ := List.nodup_cons.1 h
    by_cases hk : key = g.1
    · have hnot : ∀ v, (key, v) ∉ rest := fun v hv => hg (hk ▸ List.mem_map_of_mem hv)
      subst hk
      rw [List.lookup_cons_self, List.mem_cons, or_iff_left (hnot value), Option.some.injEq,
        Prod.ext_iff, and_iff_right rfl, eq_comm]
    · have hne : (key, value) ≠ g := fun he => hk (congrArg Prod.fst he)
      rw [List.lookup_cons, beq_false_of_ne hk, ih hrest, List.mem_cons, or_iff_right hne]

/-- Where keys are different, it makes no difference from which end a key is looked up. -/
theorem lookup_reverse_of_nodup (h : (m.map Prod.fst).Nodup) (k : String) :
    m.reverse.lookup k = m.lookup k := by
  have hreverse : (m.reverse.map Prod.fst).Nodup :=
    ((List.reverse_perm m).map Prod.fst).nodup_iff.2 h
  refine Option.ext fun v => ?_
  rw [lookup_eq_some_iff_mem hreverse, lookup_eq_some_iff_mem h, List.mem_reverse]

theorem lookup_cons_eq_ite (f : String × α) (fs : List (String × α)) (k : String) :
    (f :: fs).lookup k = if k = f.1 then some f.2 else fs.lookup k := by
  by_cases hk : k = f.1
  · rw [if_pos hk, hk, List.lookup_cons_self]
  · rw [if_neg hk, List.lookup_cons, beq_false_of_ne hk]

/-- If a pair that is put in is found from then on, the last one put in under a key is found. -/
theorem lookup_foldl {put : String → α → List (String × α) → List (String × α)}
    (hput : ∀ key value m k,
      (put key value m).lookup k = if k = key then some value else m.lookup k)
    (pairs m : List (String × α)) (k : String) :
    (pairs.foldl (fun m p => put p.1 p.2 m) m).lookup k =
      (pairs.reverse.lookup k).or (m.lookup k) := by
  induction pairs generalizing m with
  | nil => rfl
  | cons p pairs ih =>
    rw [List.foldl_cons, ih, hput, List.reverse_cons, List.lookup_append, Option.or_assoc,
      lookup_cons_eq_ite, List.lookup_nil]
    congr 1
    split <;> rfl

theorem lookup_putKey (key : String) (value : α) (m : List (String × α)) (k : String) :
    (putKey key value m).lookup k = if k = key then some value else m.lookup k := by
  induction m with
  | nil => exact lookup_cons_eq_ite _ _ _
  | cons g rest ih =>
    rw [putKey]
    split
    · next heq =>
      rw [lookup_cons_eq_ite, lookup_cons_eq_ite, heq]
      split <;> rfl
    · next hne =>
      rw [lookup_cons_eq_ite, ih, lookup_cons_eq_ite]
      by_cases hk : k = key
      · rw [if_pos hk, if_pos hk, if_neg (hk ▸ Ne.symm hne)]
      · rw [if_neg hk, if_neg hk]

/-- **A map holds the last value of each key.** -/
theorem lookup_mapOfPairs (pairs : List (String × α)) (k : String) :
    (mapOfPairs pairs).lookup k = pairs.reverse.lookup k := by
  rw [mapOfPairs, lookup_foldl lookup_putKey, List.lookup_nil, Option.or_none]

end Insertion

/-! ### Sorted maps -/

namespace Json

variable {fields : List (String × Json)} {key : String} {value : Json}

/-- Each key is before those that follow it. -/
def Ordered (fields : List (String × Json)) : Prop := fields.Pairwise fun f g => f.1 < g.1

theorem mem_of_mem_insertSorted {f : String × Json} (h : f ∈ insertSorted key value fields) :
    f = (key, value) ∨ f ∈ fields := by
  induction fields with
  | nil => exact Or.inl (List.mem_singleton.1 h)
  | cons g rest ih =>
    rw [insertSorted] at h
    split at h
    · exact List.mem_cons.1 h
    · split at h
      · exact (List.mem_cons.1 h).imp_right (List.mem_cons_of_mem _)
      · rcases List.mem_cons.1 h with rfl | h
        · exact Or.inr List.mem_cons_self
        · exact (ih h).imp_right (List.mem_cons_of_mem _)

theorem Ordered.insertSorted (h : Ordered fields) : Ordered (insertSorted key value fields) := by
  induction fields with
  | nil => exact List.pairwise_singleton _ _
  | cons g rest ih =>
    obtain ⟨hg, hrest⟩ := List.pairwise_cons.1 h
    rw [Json.insertSorted]
    split
    · next hlt =>
      refine List.pairwise_cons.2 ⟨fun f hf => ?_, h⟩
      rcases List.mem_cons.1 hf with rfl | hf
      · exact hlt
      · exact lt_trans hlt (hg f hf)
    · next hlt =>
      split
      · next heq => exact List.pairwise_cons.2 ⟨fun f hf => heq ▸ hg f hf, hrest⟩
      · next hne =>
        refine List.pairwise_cons.2 ⟨fun f hf => ?_, ih hrest⟩
        rcases mem_of_mem_insertSorted hf with rfl | hf
        · exact lt_of_le_of_ne (not_lt.1 hlt) (Ne.symm hne)
        · exact hg f hf

/-- A key that is behind all others is put behind them. -/
theorem insertSorted_of_forall_lt (h : ∀ f ∈ fields, f.1 < key) :
    insertSorted key value fields = fields ++ [(key, value)] := by
  induction fields with
  | nil => rfl
  | cons g rest ih =>
    have hg := h g List.mem_cons_self
    rw [insertSorted, if_neg (lt_asymm hg), if_neg (ne_of_gt hg),
      ih fun f hf => h f (List.mem_cons_of_mem _ hf), List.cons_append]

theorem foldl_insertSorted (added : List (String × Json)) (h : Ordered fields) :
    Ordered (added.foldl (fun fs f => insertSorted f.1 f.2 fs) fields) ∧
      ∀ f ∈ added.foldl (fun fs f => insertSorted f.1 f.2 fs) fields, f ∈ fields ∨ f ∈ added := by
  induction added generalizing fields with
  | nil => exact ⟨h, fun f hf => Or.inl hf⟩
  | cons g added ih =>
    obtain ⟨ho, hm⟩ := ih h.insertSorted
    refine ⟨ho, fun f hf => ?_⟩
    rcases hm f hf with hf | hf
    · rcases mem_of_mem_insertSorted hf with rfl | hf
      · exact Or.inr List.mem_cons_self
      · exact Or.inl hf
    · exact Or.inr (List.mem_cons_of_mem _ hf)

theorem ordered_sortFields (fields : List (String × Json)) : Ordered (sortFields fields) :=
  (foldl_insertSorted fields List.Pairwise.nil).1

theorem mem_of_mem_sortFields {f : String × Json} (h : f ∈ sortFields fields) : f ∈ fields :=
  ((foldl_insertSorted fields List.Pairwise.nil).2 f h).resolve_left List.not_mem_nil

/-- The keys of a sorted map are different. -/
theorem Ordered.nodup (h : Ordered fields) : (fields.map Prod.fst).Nodup :=
  List.pairwise_map.2 (h.imp ne_of_lt)

theorem lookup_insertSorted (key : String) (value : Json) (fields : List (String × Json))
    (k : String) :
    (insertSorted key value fields).lookup k = if k = key then some value else fields.lookup k := by
  induction fields with
  | nil => exact lookup_cons_eq_ite _ _ _
  | cons g rest ih =>
    rw [insertSorted]
    split
    · exact lookup_cons_eq_ite _ _ _
    · split
      · next heq =>
        rw [lookup_cons_eq_ite, lookup_cons_eq_ite, ← heq]
        split <;> rfl
      · next hne =>
        rw [lookup_cons_eq_ite, ih, lookup_cons_eq_ite]
        by_cases hk : k = key
        · rw [if_pos hk, if_pos hk, if_neg (hk ▸ hne)]
        · rw [if_neg hk, if_neg hk]

/-- **Of a repeated key the last value stays.** -/
theorem lookup_sortFields (fields : List (String × Json)) (k : String) :
    (sortFields fields).lookup k = fields.reverse.lookup k := by
  rw [sortFields, lookup_foldl lookup_insertSorted, List.lookup_nil, Option.or_none]

/-- Sorting different keys leaves what is found under each. -/
theorem lookup_sortFields_of_nodup (h : (fields.map Prod.fst).Nodup) (k : String) :
    (sortFields fields).lookup k = fields.lookup k := by
  rw [lookup_sortFields, lookup_reverse_of_nodup h]

/-- **A sorted map is built from its own fields.** -/
theorem sortFields_of_ordered (h : Ordered fields) : sortFields fields = fields := by
  have hgo : ∀ before : List (String × Json), Ordered (before ++ fields) →
      fields.foldl (fun fs f => insertSorted f.1 f.2 fs) before = before ++ fields := by
    clear h
    induction fields with
    | nil => exact fun before _ => (List.append_nil before).symm
    | cons g rest ih =>
      intro before ho
      have hlt : ∀ f ∈ before, f.1 < g.1 := fun f hf =>
        (List.pairwise_append.1 ho).2.2 f hf g List.mem_cons_self
      have happ : before ++ g :: rest = before ++ [(g.1, g.2)] ++ rest := by simp
      rw [List.foldl_cons, insertSorted_of_forall_lt hlt, happ]
      exact ih _ (happ ▸ ho)
  exact hgo [] h

/-! ### Sorted documents -/

theorem sortedItems_eq (items : List Json) : sortedItems items = items.map sorted := by
  induction items with
  | nil => rfl
  | cons j js ih => rw [sortedItems, ih, List.map_cons]

theorem sortedFields_eq (fields : List (String × Json)) :
    sortedFields fields = fields.map fun f => (f.1, f.2.sorted) := by
  induction fields with
  | nil => rfl
  | cons f fs ih => rw [sortedFields, ih, List.map_cons]

/-- What a sorted object holds is a sorted value of the object. -/
theorem exists_of_mem_sortFields {f : String × Json}
    (h : f ∈ sortFields (sortedFields fields)) : ∃ g ∈ fields, f = (g.1, g.2.sorted) := by
  rw [sortedFields_eq] at h
  obtain ⟨g, hg, rfl⟩ := List.mem_map.1 (mem_of_mem_sortFields h)
  exact ⟨g, hg, rfl⟩

/-- A document that fits into a room still does when it is sorted. -/
theorem Fits.sorted {p : Number.Value → Prop} {room : Nat} {j : Json} (h : j.Fits p room) :
    j.sorted.Fits p room := by
  induction j generalizing room with
  | array items ih =>
    obtain ⟨inner, rfl, hall⟩ := fits_array_iff.1 h
    rw [Json.sorted, sortedItems_eq]
    refine fits_array_iff.2 ⟨inner, rfl, fun j hj => ?_⟩
    obtain ⟨k, hk, rfl⟩ := List.mem_map.1 hj
    exact ih k hk (hall k hk)
  | object fields ih =>
    obtain ⟨inner, rfl, hall⟩ := fits_object_iff.1 h
    refine fits_object_iff.2 ⟨inner, rfl, fun f hf => ?_⟩
    obtain ⟨g, hg, rfl⟩ := exists_of_mem_sortFields hf
    exact ih g hg (hall g hg)
  | null | bool | number | string | unreadable => exact h

theorem sortedFields_of_sorted (h : ∀ f ∈ fields, f.2.sorted = f.2) :
    sortedFields fields = fields := by
  rw [sortedFields_eq]
  exact (List.map_congr_left fun f hf => by rw [h f hf, id]).trans (List.map_id fields)

/-- Sorted fields with sorted values are left as they are. -/
theorem sortFields_sortedFields_of_sorted (h : Ordered fields)
    (hs : ∀ f ∈ fields, f.2.sorted = f.2) : sortFields (sortedFields fields) = fields := by
  rw [sortedFields_of_sorted hs, sortFields_of_ordered h]

/-- **Sorting a sorted document changes nothing.** -/
theorem sorted_sorted (j : Json) : j.sorted.sorted = j.sorted := by
  induction j with
  | array items ih =>
    simp only [sorted, sortedItems_eq, List.map_map, Json.array.injEq]
    exact List.map_congr_left ih
  | object fields ih =>
    rw [sorted, sorted, sortFields_sortedFields_of_sorted (ordered_sortFields _)]
    intro f hf
    obtain ⟨g, hg, rfl⟩ := exists_of_mem_sortFields hf
    exact ih g hg
  | null | bool | number | string | unreadable => rfl

end Json

end ContractBlocks
