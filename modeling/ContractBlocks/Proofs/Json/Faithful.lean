/-
# Decoders that take back what is written

A decoder is faithful to a way of writing values (`Decoder.Faithful`) if every value that it takes out
of a document, by whatever form the document has, is written as a document out of which it takes the
same value again, be it straight from the text or out of a value that has been looked at.  Written,
the value fits where the document was, and it asks for no more room than `need` on top of that: a
default may be an empty container where the document had nothing.

Strings, numbers, lists, maps and names are decoded faithfully, so are free documents, and whatever
faithful decoders are put together to.
-/

import ContractBlocks.Proofs.Json.Canonical
import ContractBlocks.Proofs.Json.Reading

namespace ContractBlocks

open Number (Value)

/-! ### What a decoder sees -/

/-- On the way to a value, `room` more containers may be opened. -/
inductive Reach.Within (room : Nat) : Reach → Prop
  | direct : Within room (.direct room)
  | collected : Within room .collected

theorem Reach.Within.enter {room : Nat} {reach : Reach} (h : reach.Within (room + 1)) :
    ∃ inner, reach.enter = some inner ∧ inner.Within room := by
  cases h with
  | direct => exact ⟨_, rfl, .direct⟩
  | collected => exact ⟨_, rfl, .collected⟩

/-- A document as a decoder comes to it: what has been looked at fits into the room. -/
structure Json.Sees (room : Nat) (reach : Reach) (j : Json) : Prop where
  within : reach.Within room
  inRange : j.InRange
  fits : reach = .collected → j.Fits Value.InRange room

namespace Json

variable {room : Nat} {reach inner : Reach} {j : Json}

theorem Fits.sees (h : j.Fits Value.InRange room) (hreach : reach.Within room) :
    j.Sees room reach := ⟨hreach, h.numbers, fun _ => h⟩

/-- Inside an array a decoder sees the items. -/
theorem Sees.items {items : List Json} (h : (Json.array items).Sees room reach)
    (henter : reach.enter = some inner) :
    ∃ k, room = k + 1 ∧ inner.Within k ∧ ∀ j ∈ items, j.Sees k inner := by
  obtain ⟨hreach, hrange, hfits⟩ := h
  cases hreach with
  | direct =>
    cases room with
    | zero => cases henter
    | succ k =>
      obtain rfl := Option.some.inj henter
      exact ⟨k, rfl, .direct, fun j hj => ⟨.direct, inRange_array.1 hrange j hj, nofun⟩⟩
  | collected =>
    obtain ⟨k, rfl, hall⟩ := fits_array_iff.1 (hfits rfl)
    obtain rfl := Option.some.inj henter
    exact ⟨k, rfl, .collected, fun j hj => (hall j hj).sees .collected⟩

/-- Inside an object a decoder sees the fields. -/
theorem Sees.fields {fields : List (String × Json)} (h : (Json.object fields).Sees room reach)
    (henter : reach.enter = some inner) :
    ∃ k, room = k + 1 ∧ inner.Within k ∧ ∀ f ∈ fields, f.2.Sees k inner := by
  obtain ⟨hreach, hrange, hfits⟩ := h
  cases hreach with
  | direct =>
    cases room with
    | zero => cases henter
    | succ k =>
      obtain rfl := Option.some.inj henter
      exact ⟨k, rfl, .direct, fun f hf => ⟨.direct, inRange_object.1 hrange f hf, nofun⟩⟩
  | collected =>
    obtain ⟨k, rfl, hall⟩ := fits_object_iff.1 (hfits rfl)
    obtain rfl := Option.some.inj henter
    exact ⟨k, rfl, .collected, fun f hf => (hall f hf).sees .collected⟩

end Json

/-! ### Faithful decoders -/

namespace Decoder

variable {α : Type} {d : Decoder α} {e : α → Json} {need room : Nat}

/-- The value is written as a document that fits and out of which it is taken again. -/
structure Keeps (d : Decoder α) (e : α → Json) (room : Nat) (v : α) : Prop where
  fits : (e v).Fits Value.InRange room
  restores : ∀ reach : Reach, reach.Within room → d reach (e v) = some v

/-- Every value that the decoder takes out of a document is kept. -/
structure Faithful (d : Decoder α) (e : α → Json) (need : Nat) : Prop where
  keeps : ∀ {room reach j v}, need ≤ room → Json.Sees room reach j → d reach j = some v →
    d.Keeps e room v

theorem keeps_string (s : String) : Decoder.string.Keeps .string room s :=
  ⟨Json.fits_string s, fun _ _ => rfl⟩

theorem keeps_bool (b : Bool) : Decoder.bool.Keeps .bool room b :=
  ⟨Json.fits_bool b, fun _ _ => rfl⟩

theorem keeps_double (x : Number.Binary64) :
    Decoder.double.Keeps (fun x => .number (.double x)) room x :=
  ⟨Json.fits_number_iff.2 trivial, fun _ _ => rfl⟩

theorem keeps_none : d.nullable.Keeps (.ofOption e) room none :=
  ⟨Json.fits_null, fun _ _ => rfl⟩

namespace Faithful

theorem string : Faithful .string .string 0 := ⟨fun _ _ _ => keeps_string _⟩

theorem bool : Faithful .bool .bool 0 := ⟨fun _ _ _ => keeps_bool _⟩

theorem double : Faithful .double (fun x => .number (.double x)) 0 :=
  ⟨fun _ _ _ => keeps_double _⟩

theorem natural : Faithful .natural .ofNat 0 := by
  refine ⟨fun {room reach j n} _ hsees h => ?_⟩
  unfold Decoder.natural at h
  split at h
  · obtain rfl := Option.some.inj h
    exact ⟨Json.fits_number_iff.2 (hsees.inRange _ (List.mem_singleton_self _)), fun _ _ => rfl⟩
  · cases h

/-- One of several names is written as that name. -/
theorem oneOf (values : List α) (name : α → String) :
    Faithful (.oneOf values name) (fun v => .string (name v)) 0 := by
  refine ⟨fun {room reach j v} _ _ h => ?_⟩
  have hfind : ∃ s, values.find? (fun v => name v == s) = some v := by
    unfold Decoder.oneOf at h
    dsimp only at h
    split at h
    · exact ⟨_, h⟩
    · obtain ⟨_, -, h⟩ := Option.bind_eq_some_iff.1 h
      exact ⟨_, h⟩
    · split at h
      · exact ⟨_, h⟩
      · cases h
    · cases h
  obtain ⟨s, hs⟩ := hfind
  obtain rfl : name v = s := by simpa using List.find?_some hs
  exact ⟨Json.fits_string _, fun _ _ => hs⟩

theorem nullable (h : d.Faithful e need) (hne : ∀ v, e v ≠ .null) :
    Faithful d.nullable (.ofOption e) need := by
  refine ⟨fun {room reach j v} hroom hsees hv => ?_⟩
  have hsome : ∀ w, d.Keeps e room w → d.nullable.Keeps (.ofOption e) room (some w) := by
    intro w hw
    refine ⟨hw.fits, fun reach hreach => ?_⟩
    show d.nullable reach (e w) = some (some w)
    unfold Decoder.nullable
    split
    · next heq => exact absurd heq (hne w)
    · rw [hw.restores _ hreach, Option.map_some]
  unfold Decoder.nullable at hv
  split at hv
  · exact Option.some.inj hv ▸ keeps_none
  · obtain ⟨w, hw, rfl⟩ := Option.map_eq_some_iff.1 hv
    exact hsome w (h.keeps hroom hsees hw)

end Faithful

/-! ### Lists and maps -/

theorem exists_of_mem_of_mapM {α β : Type} {f : α → Option β} {xs : List α} {ys : List β}
    (h : xs.mapM f = some ys) {y : β} (hy : y ∈ ys) : ∃ x ∈ xs, f x = some y := by
  induction xs generalizing ys with
  | nil =>
    rw [List.mapM_nil] at h
    exact absurd hy (Option.some.inj h ▸ List.not_mem_nil)
  | cons x xs ih =>
    rw [List.mapM_cons] at h
    obtain ⟨z, hz, h⟩ := Option.bind_eq_some_iff.1 h
    obtain ⟨zs, hzs, h⟩ := Option.bind_eq_some_iff.1 h
    obtain rfl := Option.some.inj h
    rcases List.mem_cons.1 hy with rfl | hy
    · exact ⟨x, List.mem_cons_self, hz⟩
    · obtain ⟨x', hx', hf⟩ := ih hzs hy
      exact ⟨x', List.mem_cons_of_mem _ hx', hf⟩

theorem mapM_map_of_forall {α β : Type} {f : β → Option α} {g : α → β} {xs : List α}
    (h : ∀ x ∈ xs, f (g x) = some x) : (xs.map g).mapM f = some xs := by
  induction xs with
  | nil => rfl
  | cons x xs ih =>
    obtain ⟨hx, hxs⟩ := List.forall_mem_cons.1 h
    rw [List.map_cons, List.mapM_cons, hx, ih hxs]
    rfl

theorem keeps_list {vs : List α} (h : ∀ v ∈ vs, d.Keeps e room v) :
    d.list.Keeps (.ofList e) (room + 1) vs where
  fits := Json.fits_array_iff.2 ⟨room, rfl, by simpa using fun v hv => (h v hv).fits⟩
  restores reach hreach := by
    obtain ⟨inner, henter, hinner⟩ := hreach.enter
    show (reach.enter.bind fun inner => (vs.map e).mapM (d inner)) = some vs
    rw [henter, Option.bind_some]
    exact mapM_map_of_forall fun v hv => (h v hv).restores inner hinner

/-- An empty list is kept wherever a container may be opened. -/
theorem keeps_nil (hroom : 1 ≤ room) : d.list.Keeps (.ofList e) room [] := by
  obtain ⟨k, rfl⟩ := Nat.exists_eq_add_of_le' hroom
  exact keeps_list fun _ hv => absurd hv List.not_mem_nil

theorem Faithful.list (h : d.Faithful e need) : Faithful d.list (.ofList e) (need + 1) := by
  refine ⟨fun {room reach j vs} hroom hsees hvs => ?_⟩
  unfold Decoder.list at hvs
  split at hvs
  · next items =>
    obtain ⟨inner, henter, hvs⟩ := Option.bind_eq_some_iff.1 hvs
    obtain ⟨k, rfl, -, hitems⟩ := hsees.items henter
    refine keeps_list fun v hv => ?_
    obtain ⟨j, hj, hd⟩ := exists_of_mem_of_mapM hvs hv
    exact h.keeps (Nat.le_of_succ_le_succ hroom) (hitems j hj) hd
  · cases hvs

theorem keeps_map {m : List (String × α)} (hkeys : (m.map Prod.fst).Nodup)
    (h : ∀ p ∈ m, d.Keeps e room p.2) :
    d.map.Keeps (fun m => .object (m.map fun p => (p.1, e p.2))) (room + 1) m where
  fits := Json.fits_object_iff.2 ⟨room, rfl, fun f hf => by
    obtain ⟨p, hp, rfl⟩ := List.mem_map.1 hf
    exact (h p hp).fits⟩
  restores reach hreach := by
    obtain ⟨inner, henter, hinner⟩ := hreach.enter
    have hm : (m.map fun p => (p.1, e p.2)).mapM
        (fun f => (d inner f.2).map fun v => (f.1, v)) = some m :=
      mapM_map_of_forall fun p hp => by rw [(h p hp).restores inner hinner, Option.map_some]
    simp only [Decoder.map, henter, hm, mapOfPairs_of_nodup hkeys, Option.bind_eq_bind,
      Option.bind_some, Option.pure_def]

theorem keeps_empty (hroom : 1 ≤ room) :
    d.map.Keeps (fun m => .object (m.map fun p => (p.1, e p.2))) room [] := by
  obtain ⟨k, rfl⟩ := Nat.exists_eq_add_of_le' hroom
  exact keeps_map List.nodup_nil fun _ hp => absurd hp List.not_mem_nil

/-- A map in order of insertion is written in that order. -/
theorem Faithful.map (h : d.Faithful e need) :
    Faithful d.map (fun m => .object (m.map fun p => (p.1, e p.2))) (need + 1) := by
  refine ⟨fun {room reach j m} hroom hsees hm => ?_⟩
  unfold Decoder.map at hm
  split at hm
  · next fields =>
    obtain ⟨inner, henter, hm⟩ := Option.bind_eq_some_iff.1 hm
    obtain ⟨pairs, hpairs, hm⟩ := Option.bind_eq_some_iff.1 hm
    obtain rfl := Option.some.inj hm
    obtain ⟨k, rfl, -, hfields⟩ := hsees.fields henter
    refine keeps_map (nodup_mapOfPairs pairs) fun p hp => ?_
    obtain ⟨f, hf, hd⟩ := exists_of_mem_of_mapM hpairs (mem_of_mem_mapOfPairs hp)
    obtain ⟨v, hv, rfl⟩ := Option.map_eq_some_iff.1 hd
    exact h.keeps (Nat.le_of_succ_le_succ hroom) (hfields f hf) hv
  · cases hm

/-! ### Values that are looked at first -/

theorem Faithful.collect
    (h : ∀ {room j v}, need ≤ room → j.Fits Value.InRange room → d .collected j = some v →
      (e v).Fits Value.InRange room ∧ d .collected (e v) = some v) :
    Faithful d.collect e need := by
  refine ⟨fun {room reach j v} hroom hsees hv => ?_⟩
  have hkeeps : (e v).Fits Value.InRange room ∧ d .collected (e v) = some v := by
    unfold Decoder.collect at hv
    split at hv
    · exact h hroom (hsees.fits rfl) hv
    · next r =>
      obtain rfl : r = room := by cases hsees.within; rfl
      split at hv
      · next hr => exact h hroom ⟨hr, hsees.inRange⟩ hv
      · cases hv
  refine ⟨hkeeps.1, fun reach hreach => ?_⟩
  cases hreach with
  | direct =>
    show (if (e v).readable room then d .collected (e v) else none) = some v
    rw [if_pos hkeeps.1.readable, hkeeps.2]
  | collected => exact hkeeps.2

/-- A free document is kept with its fields sorted. -/
theorem Faithful.any : Faithful .any id 0 := by
  refine .collect fun _ hj hv => ?_
  obtain rfl := Option.some.inj hv
  exact ⟨hj.sorted, congrArg some (Json.sorted_sorted _)⟩

theorem object_map_id :
    (fun m : List (String × Json) => Json.object (m.map fun p => (p.1, id p.2))) = .object := by
  funext m
  simp

/-- A map of free documents is kept in order of insertion. -/
theorem Faithful.anyMap : Faithful (.map .any) .object 1 := object_map_id ▸ Faithful.any.map

theorem keeps_anyMap_empty (hroom : 1 ≤ room) : (Decoder.map .any).Keeps .object room [] :=
  object_map_id ▸ keeps_empty hroom

/-! ### Whole texts -/

/-- **What a faithful decoder takes out of a text it takes out of both texts of the value again,**
if the doubles in them are read as they were. -/
theorem Faithful.ofText? (h : d.Faithful e need) (hneed : need ≤ 127) {text : String} {v : α}
    (hv : d.ofText? text = some v)
    (hx : ∀ x, .double x ∈ (e v).numbers → (Value.double x).ReadsBack) :
    d.ofText? (e v).compact = some v ∧ d.ofText? (e v).pretty = some v := by
  obtain ⟨j, hread, hd⟩ := Option.bind_eq_some_iff.1 hv
  have hsees : j.Sees 127 Reach.start := ⟨.direct, Json.inRange_of_read hread, nofun⟩
  have hkeeps := h.keeps hneed hsees hd
  have hfits : (e v).Fits Value.ReadsBack 127 := ⟨hkeeps.fits.readable, fun n hn => by
    cases n with
    | integer i => exact Value.readsBack_integer (hkeeps.fits.numbers _ hn)
    | double x => exact hx x hn⟩
  have hback := hkeeps.restores Reach.start .direct
  constructor
  · rw [Decoder.ofText?, Json.compact, String.toList_ofList, Json.read_compactText hfits,
      Option.bind_some, hback]
  · rw [Decoder.ofText?, Json.pretty, String.toList_ofList, Json.read_prettyText hfits,
      Option.bind_some, hback]

end Decoder

end ContractBlocks
