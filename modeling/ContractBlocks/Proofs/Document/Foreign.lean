/-
# Which blocks are foreign, and what is saved of them

An object is read as a block in two parts: what every block has is under five keys (`Block.names`), and
all other fields make the kind.  The two parts are looked at one by one.  `Block.decode_eq_some_iff`
says which block an object is, and `Kind.exists_of_foreign` when the other fields make a foreign kind,
namely if `type` is a name that no tag has.

So if what every block has is well typed, its `type` alone decides whether an object is a foreign
block, as far as its other fields can be read at all; and a foreign block is saved under the keys that
it was loaded from, each with the last value that it had there (`Block.foreign_exact`).
-/

import ContractBlocks.Proofs.Document.Block

namespace ContractBlocks

open Json (lastValue? SameValue Once)
open Number (Value)

/-! ### Fields of a record -/

namespace Record

variable {α : Type} {names : List String} {reach : Reach} {fields : List (String × Json)}
  {r : Record} {name : String} {d : Decoder α} {v : α}

theorem exists_ofFields?_iff :
    (∃ r, ofFields? names reach fields = some r) ↔ ∀ name ∈ names, Once fields name := by
  unfold ofFields?
  simp [Once]

variable (h : ofFields? names reach fields = some r) (hname : name ∈ names)

include h hname

theorem slot_eq : r.slot name = slotOf (lastValue? name fields) := by
  rw [(slot_of_ofFields? h).2, (exists_ofFields?_iff.1 ⟨r, h⟩ name hname).lookup_eq]

theorem required_eq_some_iff :
    r.required name d = some v ↔ ∃ j, lastValue? name fields = some j ∧ d reach j = some v := by
  rw [required, slot_eq h hname, (slot_of_ofFields? h).1]
  cases lastValue? name fields <;> simp [slotOf]

theorem withDefault_eq_some_iff {default : α} :
    r.withDefault name d default = some v ↔
      (∃ j, lastValue? name fields = some j ∧ d reach j = some v) ∨
        lastValue? name fields = none ∧ v = default := by
  rw [withDefault, slot_eq h hname, (slot_of_ofFields? h).1]
  cases lastValue? name fields <;> simp [slotOf, eq_comm]

end Record

/-! ### What is read out of a field -/

theorem Decoder.string_eq_some_iff {reach : Reach} {j : Json} {s : String} :
    Decoder.string reach j = some s ↔ j = .string s := by
  cases j <;> simp [Decoder.string]

theorem Category.decode_eq_some_iff {room : Nat} {j : Json} {c : Category} :
    decode (.direct (room + 1)) j = some c ↔
      j = .string c.name ∨ j = .object [(c.name, .null)] := by
  have hfind : ∀ s : String, (all.find? fun v => v.name == s) = some c ↔ s = c.name := by
    intro s
    refine ⟨fun h => ?_, ?_⟩
    · have hname := List.find?_some h
      exact (beq_iff_eq.1 hname).symm
    · rintro rfl
      cases c <;> decide
  unfold decode Decoder.oneOf
  dsimp only
  split
  · simp [hfind]
  · simp [hfind, Reach.enter]
  · simp
  · next hstring hnull _ =>
    refine iff_of_false nofun ?_
    rintro (rfl | rfl)
    · exact hstring _ rfl
    · exact hnull _ rfl

/-- Free documents are read if they are readable. -/
theorem Decoder.mapM_any {room : Nat} (fields : List (String × Json)) :
    (fields.mapM fun f => (Decoder.any (.direct room) f.2).map fun v => (f.1, v)) =
      if Json.readableFields room fields then some (Json.sortedFields fields) else none := by
  induction fields with
  | nil => rfl
  | cons f fs ih =>
    have hany : Decoder.any (.direct room) f.2 =
        if f.2.readable room then some f.2.sorted else none := rfl
    rw [List.mapM_cons, ih, hany, Json.readableFields, Json.sortedFields]
    cases f.2.readable room <;> cases Json.readableFields room fs <;> rfl

theorem Decoder.anyMap_eq_some_iff {room : Nat} {j : Json} {m : List (String × Json)} :
    Decoder.map .any (.direct (room + 1)) j = some m ↔
      ∃ fields, j = .object fields ∧ (∀ f ∈ fields, f.2.readable room) ∧
        m = mapOfPairs (Json.sortedFields fields) := by
  cases j with
  | object fields =>
    show ((fields.mapM fun f => (Decoder.any (.direct room) f.2).map fun v => (f.1, v)).bind
      fun pairs => some (mapOfPairs pairs)) = some m ↔ _
    rw [mapM_any]
    by_cases hread : Json.readableFields room fields
    · rw [if_pos hread]
      constructor
      · intro h
        exact ⟨fields, rfl, Json.readableFields_iff.1 hread, (Option.some.inj h).symm⟩
      · rintro ⟨fs, hfs, -, rfl⟩
        obtain rfl := Json.object.inj hfs
        rfl
    · rw [if_neg hread]
      refine iff_of_false nofun ?_
      rintro ⟨fs, hfs, hall, -⟩
      obtain rfl := Json.object.inj hfs
      exact hread (Json.readableFields_iff.2 hall)
  | null | bool | number | string | array | unreadable => exact iff_of_false nofun nofun

/-! ### Foreign kinds -/

namespace Kind

variable {fields : List (String × Json)} {kind : Kind} {tag : Tag}

theorem tag?_of_ofRecord {r : Record} (h : ofRecord r tag = some kind) :
    kind.tag? = some tag := by
  cases tag
  all_goals
    obtain ⟨x, -, rfl⟩ := Option.map_eq_some_iff.1 h
    rfl

theorem tag?_of_ofTag? (h : ofTag? tag fields = some kind) : kind.tag? = some tag := by
  obtain ⟨r, -, h⟩ := Option.bind_eq_some_iff.1 h
  exact tag?_of_ofRecord h

/-- The foreign kind that fields make. -/
def foreignOf (name : String) (fields : List (String × Json)) : Kind :=
  .foreign name (Json.sortFields (Json.sortedFields (fields.filter fun f => f.1 != "type")))

/-- **A foreign kind has a name of its own for its type.** -/
theorem exists_of_foreign (h : ofFields? fields = some kind) (hforeign : kind.tag? = none) :
    ∃ name, lastValue? "type" fields = some (.string name) ∧ (∀ t : Tag, t.name ≠ name) ∧
      kind = foreignOf name fields := by
  rcases exists_of_ofFields? h with ⟨tag, h⟩ | ⟨name, htype, hname, rfl⟩
  · rw [tag?_of_ofTag? h] at hforeign
    cases hforeign
  · exact ⟨name, htype, Tag.ofName?_eq_none_iff.1 hname, rfl⟩

/-- Fields with a type that no tag has make a foreign kind, whatever else they are. -/
theorem ofFields?_of_foreign {name : String} (h : Once fields "type")
    (htype : lastValue? "type" fields = some (.string name)) (hname : ∀ t : Tag, t.name ≠ name) :
    ofFields? fields = some (foreignOf name fields) := by
  rw [ofFields?, h.filter_eq htype]
  simp only [Tag.ofName?_eq_none_iff.2 hname, foreignOf]

/-- Fields with a known tag make a kind of that tag, if any. -/
theorem tag?_of_ofFields? (h : Once fields "type")
    (htype : lastValue? "type" fields = some (.string tag.name))
    (hkind : ofFields? fields = some kind) : kind.tag? = some tag := by
  rw [ofFields?, h.filter_eq htype] at hkind
  simp only [Tag.ofName?_name] at hkind
  exact tag?_of_ofTag? hkind

end Kind

/-! ### What every block has -/

namespace Block

variable {room : Nat} {fields : List (String × Json)} {b : Block}

/-- What every block has is there and well typed, in an object with room for `room + 1` containers one
in another. -/
structure WellTyped (room : Nat) (fields : List (String × Json)) : Prop where
  id : ∃ s, lastValue? "id" fields = some (.string s)
  name : ∃ s, lastValue? "name" fields = some (.string s)
  category : ∃ c : Category, lastValue? "category" fields = some (.string c.name) ∨
    lastValue? "category" fields = some (.object [(c.name, .null)])
  description : ∀ j, lastValue? "description" fields = some j → ∃ s, j = .string s
  defaults : ∀ j, lastValue? "defaultValues" fields = some j →
    ∃ m, j = .object m ∧ ∀ f ∈ m, f.2.readable room

/-- What every block has is in the block as it is in the fields. -/
structure ReadFrom (room : Nat) (fields : List (String × Json)) (b : Block) : Prop where
  id : lastValue? "id" fields = some (.string b.id)
  name : lastValue? "name" fields = some (.string b.name)
  description : lastValue? "description" fields = some (.string b.description) ∨
    lastValue? "description" fields = none ∧ b.description = ""
  category : lastValue? "category" fields = some (.string b.category.name) ∨
    lastValue? "category" fields = some (.object [(b.category.name, .null)])
  defaults : (∃ m, lastValue? "defaultValues" fields = some (.object m) ∧
      (∀ f ∈ m, f.2.readable room) ∧ b.defaults = mapOfPairs (Json.sortedFields m)) ∨
    lastValue? "defaultValues" fields = none ∧ b.defaults = []

/-- The fields that make the kind. -/
def kindFields (fields : List (String × Json)) : List (String × Json) :=
  fields.filter fun f => !names.contains f.1

/-- What every block has is read field by field. -/
theorem readFrom_iff {r : Record} (hr : Record.ofFields? names (.direct (room + 1)) fields = some r) :
    ReadFrom room fields b ↔
      r.required "id" .string = some b.id ∧ r.required "name" .string = some b.name ∧
        r.withDefault "description" .string "" = some b.description ∧
        r.required "category" Category.decode = some b.category ∧
        r.withDefault "defaultValues" (.map .any) [] = some b.defaults := by
  have hobject : ∀ p : List (String × Json) → Prop,
      (∃ j, lastValue? "defaultValues" fields = some j ∧ ∃ m, j = .object m ∧ p m) ↔
        ∃ m, lastValue? "defaultValues" fields = some (.object m) ∧ p m := by
    refine fun p => ⟨?_, fun ⟨m, hm, hp⟩ => ⟨_, hm, m, rfl, hp⟩⟩
    rintro ⟨_, hm, m, rfl, hp⟩
    exact ⟨m, hm, hp⟩
  have hor : ∀ x y : Json, (∃ j, lastValue? "category" fields = some j ∧ (j = x ∨ j = y)) ↔
      lastValue? "category" fields = some x ∨ lastValue? "category" fields = some y := by
    intro x y
    simp only [and_or_left, exists_or, exists_eq_right]
  rw [Record.required_eq_some_iff hr (by decide), Record.required_eq_some_iff hr (by decide),
    Record.required_eq_some_iff hr (by decide), Record.withDefault_eq_some_iff hr (by decide),
    Record.withDefault_eq_some_iff hr (by decide)]
  simp only [Decoder.string_eq_some_iff, Category.decode_eq_some_iff, Decoder.anyMap_eq_some_iff,
    exists_eq_right, hor, hobject]
  exact ⟨fun ⟨id, name, description, category, defaults⟩ =>
      ⟨id, name, description, category, defaults⟩,
    fun ⟨id, name, description, category, defaults⟩ =>
      ⟨id, name, description, category, defaults⟩⟩

/-- **Which block an object is.** -/
theorem decode_eq_some_iff :
    decode (.direct (room + 2)) (.object fields) = some b ↔
      (∀ name ∈ names, Once fields name) ∧ ReadFrom room fields b ∧
        (∀ f ∈ kindFields fields, f.2.readable (room + 1)) ∧
        Kind.ofFields? (kindFields fields) = some b.kind := by
  have hcollectible : collectible (kindFields fields) (.direct (room + 1)) ↔
      ∀ f ∈ kindFields fields, f.2.readable (room + 1) := Json.readableFields_iff
  constructor
  · intro h
    simp only [decode, Reach.enter, Option.bind_eq_bind, Option.bind_eq_some_iff, Option.pure_def,
      Option.some.injEq, exists_eq_left'] at h
    obtain ⟨r, hr, id, hid, name, hname, description, hdescription, category, hcategory, defaults,
      hdefaults, h⟩ := h
    split at h
    · next hall =>
      obtain ⟨kind, hkind, h⟩ := Option.bind_eq_some_iff.1 h
      obtain rfl := Option.some.inj h
      exact ⟨Record.exists_ofFields?_iff.1 ⟨r, hr⟩,
        (readFrom_iff hr).2 ⟨hid, hname, hdescription, hcategory, hdefaults⟩,
        hcollectible.1 hall, hkind⟩
    · cases h
  · rintro ⟨honce, hread, hall, hkind⟩
    obtain ⟨r, hr⟩ : ∃ r, Record.ofFields? names (.direct (room + 1)) fields = some r :=
      Record.exists_ofFields?_iff.2 honce
    obtain ⟨hid, hname, hdescription, hcategory, hdefaults⟩ := (readFrom_iff hr).1 hread
    have hkindFields : (fields.filter fun f => !names.contains f.1) = kindFields fields := rfl
    simp only [decode, Reach.enter, Option.bind_eq_bind, Option.bind_some, hr, hid, hname,
      hdescription, hcategory, hdefaults, hkindFields, hcollectible.2 hall, hkind, if_true]
    rfl

/-- Well typed fields are read. -/
theorem WellTyped.exists_readFrom (h : WellTyped room fields) (kind : Kind) :
    ∃ b, ReadFrom room fields b ∧ b.kind = kind := by
  obtain ⟨id, hid⟩ := h.id
  obtain ⟨name, hname⟩ := h.name
  obtain ⟨category, hcategory⟩ := h.category
  obtain ⟨description, hdescription⟩ : ∃ s : String,
      lastValue? "description" fields = some (.string s) ∨
        lastValue? "description" fields = none ∧ s = "" := by
    cases hd : lastValue? "description" fields with
    | none => exact ⟨"", Or.inr ⟨rfl, rfl⟩⟩
    | some j =>
      obtain ⟨s, rfl⟩ := h.description j hd
      exact ⟨s, Or.inl rfl⟩
  obtain ⟨defaults, hdefaults⟩ : ∃ m' : List (String × Json),
      (∃ m, lastValue? "defaultValues" fields = some (.object m) ∧
        (∀ f ∈ m, f.2.readable room) ∧ m' = mapOfPairs (Json.sortedFields m)) ∨
      lastValue? "defaultValues" fields = none ∧ m' = [] := by
    cases hd : lastValue? "defaultValues" fields with
    | none => exact ⟨[], Or.inr ⟨rfl, rfl⟩⟩
    | some j =>
      obtain ⟨m, rfl, hm⟩ := h.defaults j hd
      exact ⟨_, Or.inl ⟨m, rfl, hm, rfl⟩⟩
  exact ⟨⟨id, name, description, category, defaults, kind⟩,
    ⟨hid, hname, hdescription, hcategory, hdefaults⟩, rfl⟩

theorem mem_kindFields_iff {f : String × Json} :
    f ∈ kindFields fields ↔ f ∈ fields ∧ f.1 ∉ names := by
  simp [kindFields]

theorem lastValue?_kindFields {key : String} (h : key ∉ names) :
    lastValue? key (kindFields fields) = lastValue? key fields :=
  Json.lastValue?_filter fun _ => by simpa using h

theorem once_kindFields {key : String} (h : Once fields key) : Once (kindFields fields) key :=
  List.filter_sublist.countP_le.trans h

/-! ### What is saved of a foreign block -/

/-- A foreign block that was loaded from the fields is saved as the written ones: each key once, and no
others than it was loaded from but those that are left out at most; each with the same value as
before, where the palette group is written by its name. -/
structure SavedAs (fields written : List (String × Json)) : Prop where
  nodup : (written.map Prod.fst).Nodup
  keys : ∀ k, k ∈ written.map Prod.fst ↔
    k ∈ fields.map Prod.fst ∨ k = "description" ∨ k = "defaultValues"
  values : ∀ k x, k ≠ "category" → lastValue? k fields = some x →
    ∃ y, lastValue? k written = some y ∧ SameValue x y
  category : ∀ c : Category, (lastValue? "category" fields = some (.string c.name) ∨
      lastValue? "category" fields = some (.object [(c.name, .null)])) →
    lastValue? "category" written = some (.string c.name)
  description : lastValue? "description" fields = none →
    lastValue? "description" written = some (.string "")
  defaults : lastValue? "defaultValues" fields = none →
    lastValue? "defaultValues" written = some (.object [])

/-- The fields that a block is written as. -/
def written (b : Block) : List (String × Json) := b.baseFields ++ b.kind.fields

section Saved

variable {name : String} (hkind : b.kind = Kind.foreignOf name (kindFields fields))

include hkind

/-- The other fields of a foreign block are found as they were, sorted. -/
theorem lookup_kind_fields {key : String} (hkey : key ∉ names) (htype : key ≠ "type") :
    b.kind.fields.lookup key = (lastValue? key fields).map Json.sorted := by
  rw [hkind]
  show (("type", Json.string name) :: _).lookup key = _
  rw [lookup_cons_eq_ite, if_neg htype, Json.lookup_sortFields]
  show lastValue? key (Json.sortedFields _) = _
  rw [Json.lastValue?_sortedFields, Json.lastValue?_filter fun _ => by simpa using htype,
    lastValue?_kindFields hkey]

theorem keys_kind_fields : ∀ f ∈ b.kind.fields, f.1 ∉ names := by
  rw [hkind]
  refine List.forall_mem_cons.2 ⟨Kind.type_notMem_names, fun f hf => ?_⟩
  obtain ⟨g, hg, rfl⟩ := Json.exists_of_mem_sortFields hf
  exact (mem_kindFields_iff.1 (List.mem_of_mem_filter hg)).2

theorem nodup_written : (b.written.map Prod.fst).Nodup := by
  have hfields : (b.kind.fields.map Prod.fst).Nodup := by
    rw [hkind]
    refine List.nodup_cons.2 ⟨fun htype => ?_, (Json.ordered_sortFields _).nodup⟩
    obtain ⟨f, hf, htype⟩ := List.mem_map.1 htype
    obtain ⟨g, hg, rfl⟩ := Json.exists_of_mem_sortFields hf
    exact absurd htype (by simpa using List.of_mem_filter hg)
  rw [written, List.map_append]
  refine List.nodup_append.2 ⟨show names.Nodup by decide, hfields, ?_⟩
  rintro k hk _ hl rfl
  obtain ⟨f, hf, rfl⟩ := List.mem_map.1 hl
  exact keys_kind_fields hkind f hf hk

theorem lastValue?_written (key : String) :
    lastValue? key b.written = (b.baseFields.lookup key).or (b.kind.fields.lookup key) := by
  rw [Json.lastValue?_of_nodup (nodup_written hkind), written, List.lookup_append]

theorem lastValue?_written_type : lastValue? "type" b.written = some (.string name) := by
  rw [lastValue?_written hkind, hkind]
  rfl

theorem lastValue?_written_of_notMem {key : String} (hkey : key ∉ names) (hne : key ≠ "type") :
    lastValue? key b.written = (lastValue? key fields).map Json.sorted := by
  have hnone : b.baseFields.lookup key = none := by
    refine List.lookup_eq_none_iff.2 fun f hf => bne_iff_ne.2 fun he : key = f.1 => hkey ?_
    exact he ▸ (List.mem_map_of_mem hf : f.1 ∈ b.baseFields.map Prod.fst)
  rw [lastValue?_written hkind, hnone, Option.none_or, lookup_kind_fields hkind hkey hne]

/-- No key is lost and none is added but those of what was left out. -/
theorem ReadFrom.keys_written (hread : ReadFrom room fields b)
    (htype : lastValue? "type" fields = some (.string name)) (key : String) :
    key ∈ b.written.map Prod.fst ↔
      key ∈ fields.map Prod.fst ∨ key = "description" ∨ key = "defaultValues" := by
  have hmem : ∀ {k j}, lastValue? k fields = some j → k ∈ fields.map Prod.fst := fun h =>
    List.mem_map_of_mem (Json.mem_of_lastValue? h)
  by_cases hkey : key ∈ names
  · refine iff_of_true ?_ ?_
    · rw [written, List.map_append]
      exact List.mem_append_left _ hkey
    · simp only [names, List.mem_cons, List.not_mem_nil, or_false] at hkey
      rcases hkey with rfl | rfl | rfl | rfl | rfl
      · exact Or.inl (hmem hread.id)
      · exact Or.inl (hmem hread.name)
      · exact Or.inr (Or.inl rfl)
      · exact Or.inl (hread.category.elim hmem hmem)
      · exact Or.inr (Or.inr rfl)
  · by_cases hne : key = "type"
    · subst hne
      exact iff_of_true (List.mem_map_of_mem
        (Json.mem_of_lastValue? (lastValue?_written_type hkind))) (Or.inl (hmem htype))
    · have hleft : ¬(key = "description" ∨ key = "defaultValues") := by
        rintro (rfl | rfl) <;> exact hkey (by decide)
      rw [← Json.lastValue?_isSome_iff, lastValue?_written_of_notMem hkind hkey hne,
        Option.isSome_map, Json.lastValue?_isSome_iff, or_iff_left hleft]

/-- Under each key is the value that was there. -/
theorem ReadFrom.values_written (hread : ReadFrom room fields b)
    (htype : lastValue? "type" fields = some (.string name))
    (hall : ∀ f ∈ kindFields fields, f.2.readable (room + 1)) {key : String} {x : Json}
    (hcategory : key ≠ "category") (hx : lastValue? key fields = some x) :
    ∃ y, lastValue? key b.written = some y ∧ SameValue x y := by
  -- a key of every block, whose value went through the block; the tag; or a key of its own, sorted
  by_cases hkey : key ∈ names
  · simp only [names, List.mem_cons, List.not_mem_nil, or_false] at hkey
    have hsaved := lastValue?_written hkind key
    rcases hkey with rfl | rfl | rfl | rfl | rfl
    · obtain rfl := Option.some.inj (hx.symm.trans hread.id)
      exact ⟨_, hsaved, .string _⟩
    · obtain rfl := Option.some.inj (hx.symm.trans hread.name)
      exact ⟨_, hsaved, .string _⟩
    · rcases hread.description with hd | ⟨hd, -⟩
      · obtain rfl := Option.some.inj (hx.symm.trans hd)
        exact ⟨_, hsaved, .string _⟩
      · cases hx.symm.trans hd
    · exact absurd rfl hcategory
    · rcases hread.defaults with ⟨m, hd, hm, hdefaults⟩ | ⟨hd, -⟩
      · obtain rfl := Option.some.inj (hx.symm.trans hd)
        exact ⟨_, hsaved, hdefaults ▸ Json.sameValue_mapOfPairs hm⟩
      · cases hx.symm.trans hd
  · by_cases hne : key = "type"
    · subst hne
      obtain rfl := Option.some.inj (hx.symm.trans htype)
      exact ⟨_, lastValue?_written_type hkind, .string _⟩
    · refine ⟨x.sorted, by rw [lastValue?_written_of_notMem hkind hkey hne, hx, Option.map_some], ?_⟩
      exact Json.sameValue_sorted (hall _ (mem_kindFields_iff.2 ⟨Json.mem_of_lastValue? hx, hkey⟩))

/-- **A foreign block is saved as what it was loaded from.** -/
theorem ReadFrom.savedAs (hread : ReadFrom room fields b)
    (htype : lastValue? "type" fields = some (.string name))
    (hall : ∀ f ∈ kindFields fields, f.2.readable (room + 1)) : SavedAs fields b.written where
  nodup := nodup_written hkind
  keys := hread.keys_written hkind htype
  values _ _ hk hx := hread.values_written hkind htype hall hk hx
  category c hc := by
    have hname : b.category.name = c.name := by
      rcases hread.category with h | h <;> rcases hc with hc | hc
      · exact Json.string.inj (Option.some.inj (h.symm.trans hc))
      · cases h.symm.trans hc
      · cases h.symm.trans hc
      · simpa using h.symm.trans hc
    exact hname ▸ lastValue?_written hkind "category"
  description hd := by
    rcases hread.description with h | ⟨-, hempty⟩
    · cases hd.symm.trans h
    · exact hempty ▸ lastValue?_written hkind "description"
  defaults hd := by
    rcases hread.defaults with ⟨m, h, -⟩ | ⟨-, hempty⟩
    · cases hd.symm.trans h
    · exact hempty ▸ lastValue?_written hkind "defaultValues"

end Saved

/-! ### Foreign blocks in a text -/

/-- **Which blocks are foreign, and what is saved of them.** In a text that is an object with what every
block has, well typed and with no key repeated that matters, the block is a foreign one exactly if its
`type` is a name that no tag has, whatever its other fields are as long as they can be read; with the
name of a tag it has that tag or is refused. A foreign block is saved under the keys that it was loaded
from, each with its last value. -/
theorem foreign_exact {text : String} {fields : List (String × Json)}
    (htext : Json.read text.toList = some (.object fields)) (htyped : WellTyped 125 fields)
    (honce : ∀ name ∈ "type" :: names, Once fields name) :
    ((∃ b, decode.ofText? text = some b ∧ b.kind.tag? = none) ↔
        (∃ name, lastValue? "type" fields = some (.string name) ∧ ∀ t : Tag, t.name ≠ name) ∧
          ∀ f ∈ fields, f.1 ∉ names → f.2.readable 126) ∧
      (∀ (t : Tag) b, lastValue? "type" fields = some (.string t.name) →
        decode.ofText? text = some b → b.kind.tag? = some t) ∧
      ∀ b, decode.ofText? text = some b → b.kind.tag? = none →
        ∃ written, b.encode = .object written ∧ SavedAs fields written := by
  have hdecode : ∀ b, decode.ofText? text = some b ↔
      (∀ name ∈ names, Once fields name) ∧ ReadFrom 125 fields b ∧
        (∀ f ∈ kindFields fields, f.2.readable 126) ∧
        Kind.ofFields? (kindFields fields) = some b.kind := by
    intro b
    rw [Decoder.ofText?, htext, Option.bind_some]
    exact decode_eq_some_iff
  have hnames := (List.forall_mem_cons.1 honce).2
  have htype := once_kindFields (List.forall_mem_cons.1 honce).1
  have hlast : lastValue? "type" (kindFields fields) = lastValue? "type" fields :=
    lastValue?_kindFields Kind.type_notMem_names
  refine ⟨⟨?_, ?_⟩, ?_, ?_⟩
  · rintro ⟨b, hb, hforeign⟩
    obtain ⟨-, -, hall, hkind⟩ := (hdecode b).1 hb
    obtain ⟨name, hname, hnone, -⟩ := Kind.exists_of_foreign hkind hforeign
    exact ⟨⟨name, hlast ▸ hname, hnone⟩, fun f hf hkey => hall f (mem_kindFields_iff.2 ⟨hf, hkey⟩)⟩
  · rintro ⟨⟨name, hname, hnone⟩, hall⟩
    obtain ⟨b, hread, hkind⟩ := htyped.exists_readFrom (Kind.foreignOf name (kindFields fields))
    refine ⟨b, (hdecode b).2 ⟨hnames, hread, fun f hf => ?_, ?_⟩, by rw [hkind]; rfl⟩
    · obtain ⟨hf, hkey⟩ := mem_kindFields_iff.1 hf
      exact hall f hf hkey
    · rw [hkind]
      exact Kind.ofFields?_of_foreign htype (hlast.trans hname) hnone
  · intro t b ht hb
    obtain ⟨-, -, -, hkind⟩ := (hdecode b).1 hb
    exact Kind.tag?_of_ofFields? htype (hlast.trans ht) hkind
  · intro b hb hforeign
    obtain ⟨-, hread, hall, hkind⟩ := (hdecode b).1 hb
    obtain ⟨name, hname, -, heq⟩ := Kind.exists_of_foreign hkind hforeign
    exact ⟨_, b.encode_eq, hread.savedAs heq (hlast ▸ hname) hall⟩

/-- A block of a kind from elsewhere, with its palette group as an object and keys repeated at two
levels. -/
def collectionFields : List (String × Json) :=
  [("supply", .ofNat 1), ("type", .string "nftCollection"), ("id", .string "n1"),
    ("name", .string "Collection"), ("category", .object [("advanced", .null)]),
    ("supply", .object [("b", .ofNat 2), ("b", .bool true), ("a", .array [])])]

theorem foreign_exact_collection :
    Json.read (Json.object collectionFields).compact.toList = some (.object collectionFields) ∧
      WellTyped 125 collectionFields ∧ (∀ name ∈ "type" :: names, Once collectionFields name) ∧
      ∃ b, decode.ofText? (Json.object collectionFields).compact = some b ∧ b.kind.tag? = none ∧
        ∃ written, b.encode = .object written ∧ SavedAs collectionFields written := by
  have hfits : (Json.object collectionFields).Fits Value.ReadsBack 3 := ⟨by decide, by decide⟩
  have htext : Json.read (Json.object collectionFields).compact.toList =
      some (.object collectionFields) := by
    rw [Json.compact, String.toList_ofList, Json.read_compactText hfits]
  have htyped : WellTyped 125 collectionFields :=
    ⟨⟨_, rfl⟩, ⟨_, rfl⟩, ⟨.advanced, Or.inr rfl⟩, fun _ hj => (by cases hj),
      fun _ hj => (by cases hj)⟩
  have honce : ∀ name ∈ "type" :: names, Once collectionFields name := by
    unfold Once
    decide
  obtain ⟨hforeign, -, hsaved⟩ := foreign_exact htext htyped honce
  obtain ⟨b, hb, hkind⟩ := hforeign.2
    ⟨⟨"nftCollection", rfl, Tag.ofName?_eq_none_iff.1 (by decide)⟩, by decide⟩
  exact ⟨htext, htyped, honce, b, hb, hkind, hsaved b hb hkind⟩

/-- Arrays one in another, this many around an empty one. -/
def nested : Nat → Json
  | 0 => .array []
  | n + 1 => .array [nested n]

/-- A block of a kind from elsewhere with a field that is 127 arrays one in another. -/
def deepFields : List (String × Json) :=
  [("id", .string "g"), ("name", .string "Gate"), ("category", .string "basic"),
    ("type", .string "nft"), ("x", nested 126)]

/-- **Not every field can be read:** a field of its own that is nested too deep makes an object refused,
though all that every block has is well typed and no tag has the name of its type. -/
theorem deep_refused :
    Json.read (Json.object deepFields).compact.toList = some (.object deepFields) ∧
      (Json.object deepFields).numbers = [] ∧ WellTyped 125 deepFields ∧
      (∀ name ∈ "type" :: names, Once deepFields name) ∧
      lastValue? "type" deepFields = some (.string "nft") ∧ (∀ t : Tag, t.name ≠ "nft") ∧
      decode.ofText? (Json.object deepFields).compact = none := by
  have hnumbers : (Json.object deepFields).numbers = [] := by decide +kernel
  have hfits : (Json.object deepFields).Fits Value.ReadsBack 128 :=
    ⟨by decide +kernel, by simp [hnumbers]⟩
  have htext : Json.read (Json.object deepFields).compact.toList = some (.object deepFields) := by
    rw [Json.compact, String.toList_ofList, Json.read_compactText hfits]
  have htyped : WellTyped 125 deepFields :=
    ⟨⟨_, rfl⟩, ⟨_, rfl⟩, ⟨.basic, Or.inl rfl⟩, fun _ hj => (by cases hj),
      fun _ hj => (by cases hj)⟩
  refine ⟨htext, hnumbers, htyped, ?_, rfl, Tag.ofName?_eq_none_iff.1 (by decide), ?_⟩
  · unfold Once
    decide
  · rw [Decoder.ofText?, htext, Option.bind_some]
    decide +kernel

end Block

end ContractBlocks
