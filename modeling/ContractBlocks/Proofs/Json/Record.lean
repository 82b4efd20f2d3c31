/-
# Records that are read back field by field

A record is faithful if its fields are.  What was read out of a field is kept (`Record.Sees.required`
and the like), and the fields that are written are read one after the other in the order of their
names, whatever stands between or behind them that is not asked for (`Record.Restores`): a field that
is written comes first, one that is left out is the default.  From there the fields make an object, by
themselves (`Decoder.Faithful.record`) or behind a tag (`Decoder.Faithful.tagged`).
-/

import ContractBlocks.Proofs.Json.Faithful
import ContractBlocks.Document.Block
import Mathlib.Data.List.Nodup

namespace ContractBlocks

open Number (Value)

variable {α β : Type} {d : Decoder α} {e : α → Json} {need room : Nat}

namespace Record

/-! ### Out of a record -/

/-- The record comes from a document that fits. -/
structure Sees (room : Nat) (r : Record) : Prop where
  within : r.reach.Within room
  slot : ∀ name j, r.slot name = .present j → j.Sees room r.reach

namespace Sees

variable {r : Record} {name : String} {v : α}

theorem required (hr : r.Sees room) (hd : d.Faithful e need) (h : r.required name d = some v)
    (hroom : need ≤ room) : d.Keeps e room v := by
  unfold Record.required at h
  split at h
  · next j hj => exact hd.keeps hroom (hr.slot name j hj) h
  · cases h

theorem optional (hr : r.Sees room) (hd : d.nullable.Faithful (.ofOption e) need) {v : Option α}
    (h : r.optional name d = some v) (hroom : need ≤ room) :
    d.nullable.Keeps (.ofOption e) room v := by
  unfold Record.optional at h
  split at h
  · next j hj => exact hd.keeps hroom (hr.slot name j hj) h
  · exact Option.some.inj h ▸ Decoder.keeps_none
  · cases h

theorem withDefault (hr : r.Sees room) (hd : d.Faithful e need) {default : α}
    (hdefault : d.Keeps e room default) (h : r.withDefault name d default = some v)
    (hroom : need ≤ room) : d.Keeps e room v := by
  unfold Record.withDefault at h
  split at h
  · next j hj => exact hd.keeps hroom (hr.slot name j hj) h
  · exact Option.some.inj h ▸ hdefault

end Sees

/-! ### Into a record -/

/-- The slot of a field that is there or not. -/
def slotOf : Option Json → Slot
  | some j => .present j
  | none => .absent

/-- The fields, in the order of the names, make the value, if each is under its own name. -/
structure Restores (names : List String) (build : Record → Option α)
    (fields : List (String × Json)) (room : Nat) (v : α) : Prop where
  fits : ∀ f ∈ fields, f.2.Fits Value.InRange room
  keys : (fields.map Prod.fst).Sublist names
  build : names.Nodup → ∀ r : Record, r.reach.Within room →
    (∀ name ∈ names, r.slot name = slotOf (fields.lookup name)) → build r = some v

namespace Restores

variable {names : List String} {name : String} {fields : List (String × Json)} {v : β}

theorem nil : Restores [] (fun _ => some v) [] room v :=
  ⟨fun _ hf => absurd hf List.not_mem_nil, .slnil, fun _ _ _ _ => rfl⟩

/-- A field that is not among the names is not among the fields. -/
theorem lookup_eq_none {build : Record → Option β} (h : Restores names build fields room v)
    (hname : name ∉ names) : fields.lookup name = none := by
  refine List.lookup_eq_none_iff.2 fun f hf => ?_
  have hm : f.1 ∈ names := h.keys.subset (List.mem_map_of_mem hf)
  exact bne_iff_ne.2 fun he : name = f.1 => hname (he ▸ hm)

/-- A field that is written is read first. -/
theorem written {read : Record → Option α} {a : α} {j : Json} {k : α → Record → Option β}
    (hj : j.Fits Value.InRange room)
    (hread : ∀ r : Record, r.reach.Within room → r.slot name = .present j → read r = some a)
    (h : Restores names (k a) fields room v) :
    Restores (name :: names) (fun r => do let a ← read r; k a r) ((name, j) :: fields) room v where
  fits := List.forall_mem_cons.2 ⟨hj, h.fits⟩
  keys := h.keys.cons_cons name
  build hnodup r hr hslot := by
    obtain ⟨hname, hnames⟩ := List.nodup_cons.1 hnodup
    have hfirst : r.slot name = .present j := by
      rw [hslot name List.mem_cons_self, List.lookup_cons_self, slotOf]
    have hrest : ∀ n ∈ names, r.slot n = slotOf (fields.lookup n) := by
      intro n hn
      have hne : (n == name) = false := beq_eq_false_iff_ne.2 fun he => hname (he ▸ hn)
      rw [hslot n (List.mem_cons_of_mem _ hn), List.lookup_cons, hne]
    show (read r).bind (fun a => k a r) = some v
    rw [hread r hr hfirst, Option.bind_some, h.build hnames r hr hrest]

/-- A field that is left out is read as if it was absent. -/
theorem omitted {read : Record → Option α} {a : α} {k : α → Record → Option β}
    (hread : ∀ r : Record, r.slot name = .absent → read r = some a)
    (h : Restores names (k a) fields room v) :
    Restores (name :: names) (fun r => do let a ← read r; k a r) fields room v where
  fits := h.fits
  keys := h.keys.cons name
  build hnodup r hr hslot := by
    obtain ⟨hname, hnames⟩ := List.nodup_cons.1 hnodup
    have hfirst : r.slot name = .absent := by
      rw [hslot name List.mem_cons_self, h.lookup_eq_none hname, slotOf]
    show (read r).bind (fun a => k a r) = some v
    rw [hread r hfirst, Option.bind_some,
      h.build hnames r hr fun n hn => hslot n (List.mem_cons_of_mem _ hn)]

/-! Each kind of field is written or left out. -/

theorem required {a : α} {k : α → Record → Option β} (ha : d.Keeps e room a)
    (h : Restores names (k a) fields room v) :
    Restores (name :: names) (fun r => do let a ← r.required name d; k a r)
      ((name, e a) :: fields) room v :=
  written ha.fits (fun r hr hslot => by rw [Record.required, hslot]; exact ha.restores _ hr) h

theorem withDefault {a default : α} {k : α → Record → Option β} (ha : d.Keeps e room a)
    (h : Restores names (k a) fields room v) :
    Restores (name :: names) (fun r => do let a ← r.withDefault name d default; k a r)
      ((name, e a) :: fields) room v :=
  written ha.fits (fun r hr hslot => by rw [Record.withDefault, hslot]; exact ha.restores _ hr) h

theorem optional {a : Option α} {k : Option α → Record → Option β}
    (ha : d.nullable.Keeps (.ofOption e) room a) (h : Restores names (k a) fields room v) :
    Restores (name :: names) (fun r => do let a ← r.optional name d; k a r)
      ((name, .ofOption e a) :: fields) room v :=
  written ha.fits (fun r hr hslot => by rw [Record.optional, hslot]; exact ha.restores _ hr) h

/-- A list that is left out if it is empty. -/
theorem fieldIf {a : List α} {k : List α → Record → Option β}
    (ha : d.list.Keeps (.ofList e) room a) (h : Restores names (k a) fields room v) :
    Restores (name :: names) (fun r => do let a ← r.withDefault name d.list []; k a r)
      (Json.fieldIf (!a.isEmpty) name (.ofList e a) ++ fields) room v := by
  cases a with
  | nil => exact omitted (fun r hslot => by rw [Record.withDefault, hslot]) h
  | cons x xs => exact withDefault ha h

/-- A value that is left out if there is none, and may be `null`. -/
theorem fieldOf {a : Option α} {k : Option α → Record → Option β}
    (ha : d.nullable.Keeps (.ofOption e) room a) (h : Restores names (k a) fields room v) :
    Restores (name :: names) (fun r => do let a ← r.withDefault name d.nullable none; k a r)
      (Json.fieldOf name e a ++ fields) room v := by
  cases a with
  | none => exact omitted (fun r hslot => by rw [Record.withDefault, hslot]) h
  | some x => exact withDefault ha h

/-- A value that is left out if there is none, and that an object need not have. -/
theorem optionalFieldOf {a : Option α} {k : Option α → Record → Option β}
    (ha : d.nullable.Keeps (.ofOption e) room a) (h : Restores names (k a) fields room v) :
    Restores (name :: names) (fun r => do let a ← r.optional name d; k a r)
      (Json.fieldOf name e a ++ fields) room v := by
  cases a with
  | none => exact omitted (fun r hslot => by rw [Record.optional, hslot]) h
  | some x => exact optional ha h

/-- A value that is the last to be read is the value of the record. -/
theorem last {build : Record → Option β}
    (h : Restores names (fun r => build r >>= some) fields room v) :
    Restores names build fields room v :=
  ⟨h.fits, h.keys, fun hn r hr hslot => Option.bind_fun_some (build r) ▸ h.build hn r hr hslot⟩

/-- What is made of the value makes no difference. -/
theorem map {build : Record → Option α} {v : α} (f : α → β)
    (h : Restores names build fields room v) :
    Restores names (fun r => (build r).map f) fields room (f v) :=
  ⟨h.fits, h.keys, fun hn r hr hslot => by rw [h.build hn r hr hslot, Option.map_some]⟩

end Restores

/-! ### Records as objects -/

section Objects

variable {names : List String} {reach : Reach} {r : Record} {fields : List (String × Json)}

theorem slot_of_ofFields? (h : ofFields? names reach fields = some r) :
    r.reach = reach ∧ ∀ name, r.slot name = slotOf (fields.lookup name) := by
  unfold ofFields? at h
  split at h
  · obtain rfl := Option.some.inj h
    exact ⟨rfl, fun name => by dsimp only; cases fields.lookup name <;> rfl⟩
  · cases h

theorem mem_of_lookup {items : List (String × Json)} {name : String} {j : Json}
    (h : items.lookup name = some j) : (name, j) ∈ items := by
  obtain ⟨before, after, rfl, -⟩ := List.lookup_eq_some_iff.1 h
  exact List.mem_append_right _ List.mem_cons_self

theorem sees_ofFields? (h : ofFields? names reach fields = some r) (hreach : reach.Within room)
    (hfields : ∀ f ∈ fields, f.2.Sees room reach) : r.Sees room := by
  obtain ⟨hr, hslot⟩ := slot_of_ofFields? h
  refine ⟨hr ▸ hreach, fun name j hj => ?_⟩
  rw [hslot name] at hj
  cases hl : fields.lookup name with
  | none => rw [hl] at hj; cases hj
  | some k =>
    rw [hl] at hj
    obtain rfl := Slot.present.inj hj
    exact hr ▸ hfields _ (mem_of_lookup hl)

theorem sees_ofItems? {items : List Json} (h : ofItems? names reach items = some r)
    (hreach : reach.Within room) (hitems : ∀ j ∈ items, j.Sees room reach) : r.Sees room := by
  unfold ofItems? at h
  split at h
  · obtain rfl := Option.some.inj h
    refine ⟨hreach, fun name j hj => ?_⟩
    dsimp only at hj
    split at hj
    · next k hl =>
      obtain rfl := Slot.present.inj hj
      exact hitems k (List.of_mem_zip (mem_of_lookup hl)).2
    · cases hj
  · cases h

/-- Fields of different keys are a record, whatever other fields there are. -/
theorem exists_ofFields?_append {more : List (String × Json)} (hkeys : (fields.map Prod.fst).Nodup)
    (hmore : ∀ f ∈ more, f.1 ∉ names) :
    ∃ r, ofFields? names reach (fields ++ more) = some r := by
  refine ⟨_, if_pos (List.all_eq_true.2 fun name hname => decide_eq_true ?_)⟩
  have hcount : (fields.countP fun f => f.1 == name) = (fields.map Prod.fst).count name := by
    rw [List.count, List.countP_map]
    rfl
  have hnone : (more.countP fun f => f.1 == name) = 0 := by
    refine List.countP_eq_zero.2 fun f hf he => hmore f hf ?_
    exact (beq_iff_eq.1 he : f.1 = name) ▸ hname
  rw [List.countP_append, hnone, Nat.add_zero, hcount]
  exact List.nodup_iff_count_le_one.1 hkeys name

/-- **Fields that are written make the value again,** whatever other fields there are. -/
theorem Restores.bind_ofFields?_append {build : Record → Option α} {v : α}
    (h : Restores names build fields room v) (hnames : names.Nodup) (hreach : reach.Within room)
    {more : List (String × Json)} (hmore : ∀ f ∈ more, f.1 ∉ names) :
    (ofFields? names reach (fields ++ more)).bind build = some v := by
  obtain ⟨r, hr⟩ : ∃ r, ofFields? names reach (fields ++ more) = some r :=
    exists_ofFields?_append (h.keys.nodup hnames) hmore
  obtain ⟨rfl, hslot⟩ := slot_of_ofFields? hr
  rw [hr, Option.bind_some, h.build hnames r hreach fun name hname => ?_]
  have hnone : more.lookup name = none := List.lookup_eq_none_iff.2 fun f hf =>
    bne_iff_ne.2 fun he : name = f.1 => hmore f hf (he ▸ hname)
  rw [hslot name, List.lookup_append, hnone, Option.or_none]

theorem Restores.bind_ofFields? {build : Record → Option α} {v : α}
    (h : Restores names build fields room v) (hnames : names.Nodup) (hreach : reach.Within room) :
    (ofFields? names reach fields).bind build = some v := by
  have hnone : ∀ f ∈ ([] : List (String × Json)), f.1 ∉ names :=
    fun _ hf => absurd hf List.not_mem_nil
  simpa using h.bind_ofFields?_append hnames hreach hnone

/-- Sorted, the fields make the value, too. -/
theorem Restores.bind_ofFields?_sortFields {build : Record → Option α} {v : α}
    (h : Restores names build fields room v) (hnames : names.Nodup) (hreach : reach.Within room) :
    (ofFields? names reach (Json.sortFields fields)).bind build = some v := by
  have hnone : ∀ f ∈ ([] : List (String × Json)), f.1 ∉ names :=
    fun _ hf => absurd hf List.not_mem_nil
  obtain ⟨r, hr⟩ : ∃ r, ofFields? names reach (Json.sortFields fields ++ []) = some r :=
    exists_ofFields?_append (Json.ordered_sortFields fields).nodup hnone
  rw [List.append_nil] at hr
  obtain ⟨rfl, hslot⟩ := slot_of_ofFields? hr
  rw [hr, Option.bind_some, h.build hnames r hreach fun name _ => ?_]
  rw [hslot name, Json.lookup_sortFields_of_nodup (h.keys.nodup hnames)]

/-- A tag is told from the fields behind it by its key. -/
theorem filter_key_cons {key : String} {j : Json} (h : ∀ f ∈ fields, f.1 ≠ key) :
    ((key, j) :: fields).filter (fun f => f.1 == key) = [(key, j)] ∧
      ((key, j) :: fields).filter (fun f => f.1 != key) = fields := by
  constructor
  · rw [List.filter_cons_of_pos (by simp), List.filter_eq_nil_iff.2 (by simpa using h)]
  · rw [List.filter_cons_of_neg (by simp), List.filter_eq_self.2 (by simpa using h)]

end Objects

end Record

namespace Decoder

variable {names : List String} {build : Record → Option α}

/-- A record whose fields hold sorted documents is read from the sorted object, too. -/
theorem keeps_record_sorted {fields : List (String × Json)} {v : α} (hnames : names.Nodup)
    (h : Record.Restores names build fields room v) (hsorted : ∀ f ∈ fields, f.2.sorted = f.2)
    (he : e v = .object fields) :
    (Decoder.record names build).Keeps (fun v => (e v).sorted) (room + 1) v where
  fits := by
    rw [he]
    exact (Json.fits_object_iff.2 ⟨room, rfl, h.fits⟩).sorted
  restores reach hreach := by
    obtain ⟨inner, henter, hinner⟩ := hreach.enter
    have hobject : (e v).sorted = .object (Json.sortFields fields) := by
      rw [he, Json.sorted, Json.sortedFields_of_sorted hsorted]
    simp only [hobject, Decoder.record, henter, Option.bind_some]
    exact h.bind_ofFields?_sortFields hnames hinner

/-- **A record of fields that are read back is decoded faithfully.** -/
theorem Faithful.record (hnames : names.Nodup)
    (h : ∀ {room r v}, need ≤ room → Record.Sees room r → build r = some v →
      ∃ fields, e v = .object fields ∧ Record.Restores names build fields room v) :
    Faithful (.record names build) e (need + 1) := by
  refine ⟨fun {room reach j v} hroom hsees hv => ?_⟩
  have hrecord : ∃ k r, room = k + 1 ∧ Record.Sees k r ∧ build r = some v := by
    unfold Decoder.record at hv
    split at hv
    · obtain ⟨inner, henter, hv⟩ := Option.bind_eq_some_iff.1 hv
      obtain ⟨r, hr, hv⟩ := Option.bind_eq_some_iff.1 hv
      obtain ⟨k, rfl, hinner, hfields⟩ := hsees.fields henter
      exact ⟨k, r, rfl, Record.sees_ofFields? hr hinner hfields, hv⟩
    · obtain ⟨inner, henter, hv⟩ := Option.bind_eq_some_iff.1 hv
      obtain ⟨r, hr, hv⟩ := Option.bind_eq_some_iff.1 hv
      obtain ⟨k, rfl, hinner, hitems⟩ := hsees.items henter
      exact ⟨k, r, rfl, Record.sees_ofItems? hr hinner hitems, hv⟩
    · cases hv
  obtain ⟨k, r, rfl, hr, hv⟩ := hrecord
  obtain ⟨fields, he, hrestores⟩ := h (Nat.le_of_succ_le_succ hroom) hr hv
  refine ⟨he ▸ Json.fits_object_iff.2 ⟨k, rfl, hrestores.fits⟩, fun reach hreach => ?_⟩
  obtain ⟨inner, henter, hinner⟩ := hreach.enter
  rw [he]
  show (reach.enter.bind fun inner => (Record.ofFields? names inner fields).bind build) = some v
  rw [henter, Option.bind_some, hrestores.bind_ofFields? hnames hinner]

/-- **Records behind a tag are decoded faithfully.** -/
theorem Faithful.tagged {key : String} {cases : String → Option (List String × (Record → Option α))}
    (h : ∀ {room r v tag c}, need ≤ room → cases tag = some c → Record.Sees room r →
      c.2 r = some v → c.1.Nodup ∧ key ∉ c.1 ∧
        ∃ fields, e v = .object ((key, .string tag) :: fields) ∧
          Record.Restores c.1 c.2 fields room v) :
    Faithful (.tagged key cases) e (need + 1) := by
  refine .collect fun {room j v} hroom hj hv => ?_
  have hcase : ∃ k tag c r, room = k + 1 ∧ cases tag = some c ∧ Record.Sees k r ∧
      c.2 r = some v := by
    split at hv
    · next fields =>
      obtain ⟨k, rfl, hfields⟩ := Json.fits_object_iff.1 hj
      split at hv
      · next tag _ =>
        obtain ⟨c, hc, hv⟩ := Option.bind_eq_some_iff.1 hv
        obtain ⟨r, hr, hv⟩ := Option.bind_eq_some_iff.1 hv
        exact ⟨k, tag, c, r, rfl, hc, Record.sees_ofFields? hr .collected fun f hf =>
          (hfields f (List.mem_of_mem_filter hf)).sees .collected, hv⟩
      · cases hv
    · next tag items =>
      obtain ⟨k, rfl, hitems⟩ := Json.fits_array_iff.1 hj
      obtain ⟨c, hc, hv⟩ := Option.bind_eq_some_iff.1 hv
      obtain ⟨r, hr, hv⟩ := Option.bind_eq_some_iff.1 hv
      exact ⟨k, tag, c, r, rfl, hc, Record.sees_ofItems? hr .collected fun j hj =>
        (hitems j (List.mem_cons_of_mem _ hj)).sees .collected, hv⟩
    · cases hv
  obtain ⟨k, tag, c, r, rfl, hc, hr, hv⟩ := hcase
  obtain ⟨hnames, hkey, fields, he, hrestores⟩ := h (Nat.le_of_succ_le_succ hroom) hc hr hv
  refine ⟨he ▸ Json.fits_object_iff.2 ⟨k, rfl, List.forall_mem_cons.2
    ⟨Json.fits_string tag, hrestores.fits⟩⟩, ?_⟩
  have hne : ∀ f ∈ fields, f.1 ≠ key := fun f hf h =>
    hkey (h ▸ hrestores.keys.subset (List.mem_map_of_mem hf))
  obtain ⟨htag, hothers⟩ := Record.filter_key_cons (j := .string tag) hne
  rw [he]
  simp only [htag, hothers, hc, Option.bind_some]
  exact hrestores.bind_ofFields? hnames .collected

end Decoder

end ContractBlocks
