/-
# Blocks are decoded faithfully

From the words of the vocabulary and the parts of a header to the kinds of blocks and the blocks
themselves: what is read from a document, in whatever form, is read again from what it is written as.
A block is one object for what every block has and for what its kind needs; the two share no key
(`Kind.keys_names`), so neither is lost in the other (`Block.faithful`).
-/

import ContractBlocks.Proofs.Json.Meaning
import ContractBlocks.Proofs.Json.Record

namespace ContractBlocks

open Number (Value)
open Record (Restores)

/-! ### The vocabulary -/

theorem Visibility.faithful : decode.Faithful encode 0 := .oneOf _ _

theorem StateMutability.faithful : decode.Faithful encode 0 := .oneOf _ _

theorem VariableMutability.faithful : decode.Faithful encode 0 := .oneOf _ _

theorem DataLocation.faithful : decode.Faithful encode 0 := .oneOf _ _

theorem Category.faithful : decode.Faithful encode 0 := .oneOf _ _

/-- An optional text is a string or `null`. -/
theorem Decoder.Faithful.text : Faithful (.nullable .string) (.ofOption .string) 0 :=
  string.nullable nofun

/-! ### Parts of a header -/

theorem Parameter.faithful : decode.Faithful encode 1 := by
  refine .record (by decide) fun {room r p} _ hr h => ?_
  simp only [Option.bind_eq_bind, Option.bind_eq_some_iff, Option.pure_def,
    Option.some.injEq] at h
  obtain ⟨name, hname, dataType, htype, indexed, hindexed, location, hlocation, rfl⟩ := h
  refine ⟨_, ?_, .required (hr.required .string hname (by omega)) <|
    .required (hr.required .string htype (by omega)) <|
    .withDefault (hr.withDefault .bool (Decoder.keeps_bool _) hindexed (by omega)) <|
    .fieldOf (hr.withDefault (DataLocation.faithful.nullable nofun) Decoder.keeps_none hlocation
      (by omega)) .nil⟩
  simp [encode]

theorem Parameter.faithful_list : Decoder.Faithful (.list decode) encodeList 2 := faithful.list

theorem StructMember.faithful : decode.Faithful encode 1 := by
  refine .record (by decide) fun {room r m} _ hr h => ?_
  simp only [Option.bind_eq_bind, Option.bind_eq_some_iff, Option.pure_def,
    Option.some.injEq] at h
  obtain ⟨name, hname, dataType, htype, rfl⟩ := h
  exact ⟨_, rfl, .required (hr.required .string hname (by omega)) <|
    .required (hr.required .string htype (by omega)) .nil⟩

theorem ModifierUse.faithful : decode.Faithful encode 2 := by
  refine .collect fun {room j m} hroom hj hm => ?_
  split at hm
  · obtain rfl := Option.some.inj hm
    exact ⟨Json.fits_string _, rfl⟩
  · next fields =>
    obtain ⟨k, rfl, hfields⟩ := Json.fits_object_iff.1 hj
    simp only [Option.bind_eq_bind, Option.bind_eq_some_iff, Option.pure_def,
      Option.some.injEq] at hm
    obtain ⟨r, hr, name, hname, arguments, harguments, rfl⟩ := hm
    have hr := Record.sees_ofFields? hr .collected fun f hf => (hfields f hf).sees .collected
    have hrestores : Restores ["name", "arguments"] (fun r => do
        let name ← r.required "name" .string
        let arguments ← r.withDefault "arguments" (.list .string) []
        return ModifierUse.applied name arguments) _ k (.applied name arguments) :=
      .required (hr.required .string hname (by omega)) <|
      .withDefault (hr.withDefault Decoder.Faithful.string.list (Decoder.keeps_nil (by omega))
        harguments (by omega)) .nil
    exact ⟨Json.fits_object_iff.2 ⟨k, rfl, hrestores.fits⟩,
      hrestores.bind_ofFields? (by decide) .collected⟩
  · cases hm

theorem StoredOverride.faithful : decode.Faithful encode 1 := by
  refine .record (by decide) fun {room r o} _ hr h => ?_
  simp only [Option.bind_eq_bind, Option.bind_eq_some_iff, Option.pure_def,
    Option.some.injEq] at h
  obtain ⟨functionId, hid, body, hbody, superCall, hsuper, isModified, hmodified, rfl⟩ := h
  exact ⟨_, rfl, .required (hr.required .string hid (by omega)) <|
    .required (hr.required .string hbody (by omega)) <|
    .required (hr.required .bool hsuper (by omega)) <|
    .required (hr.required .bool hmodified (by omega)) .nil⟩

/-! ### What the kinds need -/

section Kinds

variable {room : Nat} {r : Record} (hroom : 3 ≤ room) (hr : r.Sees room)

include hroom hr

theorem FunctionBlock.restores {f : FunctionBlock} (h : ofRecord r = some f) :
    Restores names ofRecord f.fields room f := by
  simp only [ofRecord, Option.bind_eq_bind, Option.bind_eq_some_iff, Option.pure_def,
    Option.some.injEq] at h
  obtain ⟨visibility, hvisibility, stateMutability, hmutability, parameters, hparameters,
    returns, hreturns, modifiers, hmodifiers, isVirtual, hvirtual, body, hbody, overrides,
    hoverrides, rfl⟩ := h
  have hnil : ∀ {α : Type} {d : Decoder α} {e : α → Json}, d.list.Keeps (.ofList e) room [] :=
    Decoder.keeps_nil (by omega)
  have hall : Restores names ofRecord _ room _ :=
    .required (hr.required Visibility.faithful hvisibility (by omega)) <|
    .required (hr.required StateMutability.faithful hmutability (by omega)) <|
    .withDefault (hr.withDefault Parameter.faithful_list hnil hparameters (by omega)) <|
    .withDefault (hr.withDefault Parameter.faithful_list hnil hreturns (by omega)) <|
    .withDefault (hr.withDefault ModifierUse.faithful.list hnil hmodifiers (by omega)) <|
    .withDefault (hr.withDefault .bool (Decoder.keeps_bool _) hvirtual (by omega)) <|
    .withDefault (hr.withDefault .string (Decoder.keeps_string _) hbody (by omega)) <|
    .fieldIf (hr.withDefault StoredOverride.faithful.list hnil hoverrides (by omega)) .nil
  simpa [fields] using hall

theorem VariableBlock.restores {v : VariableBlock} (h : ofRecord r = some v) :
    Restores names ofRecord v.fields room v := by
  simp only [ofRecord, Option.bind_eq_bind, Option.bind_eq_some_iff, Option.pure_def,
    Option.some.injEq] at h
  obtain ⟨dataType, htype, visibility, hvisibility, mutability, hmutability, initialValue,
    hinitial, rfl⟩ := h
  have hall : Restores names ofRecord _ room _ :=
    .required (hr.required .string htype (by omega)) <|
    .required (hr.required Visibility.faithful hvisibility (by omega)) <|
    .withDefault (hr.withDefault VariableMutability.faithful
      ⟨Json.fits_string _, fun _ _ => rfl⟩ hmutability (by omega)) <|
    .fieldOf (hr.withDefault .text Decoder.keeps_none hinitial (by omega)) .nil
  simpa [fields] using hall

theorem ConstructorBlock.restores {c : ConstructorBlock} (h : ofRecord r = some c) :
    Restores names ofRecord c.fields room c := by
  simp only [ofRecord, Option.bind_eq_bind, Option.bind_eq_some_iff, Option.pure_def,
    Option.some.injEq] at h
  obtain ⟨parameters, hparameters, modifiers, hmodifiers, body, hbody, rfl⟩ := h
  exact .withDefault (hr.withDefault Parameter.faithful_list (Decoder.keeps_nil (by omega))
      hparameters (by omega)) <|
    .withDefault (hr.withDefault ModifierUse.faithful.list (Decoder.keeps_nil (by omega))
      hmodifiers (by omega)) <|
    .withDefault (hr.withDefault .string (Decoder.keeps_string _) hbody (by omega)) .nil

theorem ModifierBlock.restores {m : ModifierBlock} (h : ofRecord r = some m) :
    Restores names ofRecord m.fields room m := by
  simp only [ofRecord, Option.bind_eq_bind, Option.bind_eq_some_iff, Option.pure_def,
    Option.some.injEq] at h
  obtain ⟨parameters, hparameters, body, hbody, rfl⟩ := h
  exact .withDefault (hr.withDefault Parameter.faithful_list (Decoder.keeps_nil (by omega))
      hparameters (by omega)) <|
    .withDefault (hr.withDefault .string (Decoder.keeps_string _) hbody (by omega)) .nil

theorem MappingBlock.restores {m : MappingBlock} (h : ofRecord r = some m) :
    Restores names ofRecord m.fields room m := by
  simp only [ofRecord, Option.bind_eq_bind, Option.bind_eq_some_iff, Option.pure_def,
    Option.some.injEq] at h
  obtain ⟨keyType, hkey, valueType, hvalue, visibility, hvisibility, rfl⟩ := h
  exact .required (hr.required .string hkey (by omega)) <|
    .required (hr.required .string hvalue (by omega)) <|
    .required (hr.required Visibility.faithful hvisibility (by omega)) .nil

theorem ArrayBlock.restores {a : ArrayBlock} (h : ofRecord r = some a) :
    Restores names ofRecord a.fields room a := by
  simp only [ofRecord, Option.bind_eq_bind, Option.bind_eq_some_iff, Option.pure_def,
    Option.some.injEq] at h
  obtain ⟨elementType, htype, length, hlength, visibility, hvisibility, rfl⟩ := h
  have hall : Restores names ofRecord _ room _ :=
    .required (hr.required .string htype (by omega)) <|
    .fieldOf (hr.withDefault (Decoder.Faithful.natural.nullable nofun) Decoder.keeps_none hlength
      (by omega)) <|
    .required (hr.required Visibility.faithful hvisibility (by omega)) .nil
  simpa [fields] using hall

theorem Descriptor.restores {α : Type} {key : String} {all : List α} {name : α → String}
    {d : Descriptor α} (h : ofRecord key all name r = some d) :
    Restores (names key) (ofRecord key all name) (d.fields key name) room d := by
  simp only [ofRecord, Option.bind_eq_bind, Option.bind_eq_some_iff, Option.pure_def,
    Option.some.injEq] at h
  obtain ⟨subject, hsubject, parameters, hparameters, requirements, hrequirements, rfl⟩ := h
  exact .required (hr.required (.oneOf all name) hsubject (by omega)) <|
    .withDefault (hr.withDefault Decoder.Faithful.string.map (Decoder.keeps_empty (by omega))
      hparameters (by omega)) <|
    .withDefault (hr.withDefault Decoder.Faithful.string.list (Decoder.keeps_nil (by omega))
      hrequirements (by omega)) .nil

/-- **The fields of a kind are read back as that kind,** behind the tag. -/
theorem Kind.restores {tag : Tag} {kind : Kind} (h : ofRecord r tag = some kind) :
    ∃ fields, kind.fields = ("type", .string tag.name) :: fields ∧
      Restores (names tag) (fun r => ofRecord r tag) fields room kind := by
  have hnil : ∀ {α : Type} {d : Decoder α} {e : α → Json}, d.list.Keeps (.ofList e) room [] :=
    Decoder.keeps_nil (by omega)
  cases tag
  all_goals obtain ⟨x, hx, rfl⟩ := Option.map_eq_some_iff.1 h
  case function => exact ⟨_, rfl, (FunctionBlock.restores hroom hr hx).map _⟩
  case stateVariable => exact ⟨_, rfl, (VariableBlock.restores hroom hr hx).map _⟩
  case constructor => exact ⟨_, rfl, (ConstructorBlock.restores hroom hr hx).map _⟩
  case event | error =>
    exact ⟨_, rfl, .map _ <| .last <| .withDefault
      (hr.withDefault Parameter.faithful_list hnil hx (by omega)) .nil⟩
  case modifier => exact ⟨_, rfl, (ModifierBlock.restores hroom hr hx).map _⟩
  case struct =>
    exact ⟨_, rfl, .map _ <| .last <| .withDefault
      (hr.withDefault StructMember.faithful.list hnil hx (by omega)) .nil⟩
  case enum =>
    exact ⟨_, rfl, .map _ <| .last <| .withDefault
      (hr.withDefault Decoder.Faithful.string.list hnil hx (by omega)) .nil⟩
  case mapping => exact ⟨_, rfl, (MappingBlock.restores hroom hr hx).map _⟩
  case array => exact ⟨_, rfl, (ArrayBlock.restores hroom hr hx).map _⟩
  all_goals exact ⟨_, rfl, (Descriptor.restores hroom hr hx).map _⟩

end Kinds

/-! ### Kinds behind their tag -/

namespace Kind

theorem nodup_names (tag : Tag) : (names tag).Nodup := by cases tag <;> decide

theorem type_notMem_names : "type" ∉ Block.names := by decide

/-- What a kind needs is under other keys than its tag and what every block has. -/
theorem keys_names (tag : Tag) : ∀ name ∈ names tag, name ≠ "type" ∧ name ∉ Block.names := by
  cases tag <;> decide

/-- Fields that make a kind have a known tag, and with it make the kind, or a type that is none and
make a foreign one. -/
theorem exists_of_ofFields? {fields : List (String × Json)} {kind : Kind}
    (h : ofFields? fields = some kind) :
    (∃ tag, ofTag? tag (fields.filter fun f => f.1 != "type") = some kind) ∨
      ∃ name, Json.lastValue? "type" fields = some (.string name) ∧ Tag.ofName? name = none ∧
        kind = .foreign name
          (Json.sortFields (Json.sortedFields (fields.filter fun f => f.1 != "type"))) := by
  unfold ofFields? at h
  dsimp only at h
  split at h
  · next name hfilter =>
    split at h
    · next tag _ => exact Or.inl ⟨tag, h⟩
    · next hname =>
      exact Or.inr ⟨name, Json.lastValue?_of_filter_eq hfilter, hname, (Option.some.inj h).symm⟩
  · obtain ⟨tag, -, h⟩ := Option.bind_eq_some_iff.1 h
    exact Or.inl ⟨tag, h⟩
  · cases h

/-- The fields of a kind make the kind, and they are apart from those that every block has. -/
structure Kept (room : Nat) (kind : Kind) : Prop where
  fits : ∀ f ∈ kind.fields, f.2.Fits Value.InRange room
  keys : ∀ f ∈ kind.fields, f.1 ∉ Block.names
  restores : ofFields? kind.fields = some kind

/-- **The kind in the fields of a block is kept.** -/
theorem kept_of_ofFields? {room : Nat} (hroom : 3 ≤ room) {fields : List (String × Json)}
    {kind : Kind} (hfits : ∀ f ∈ fields, f.2.Fits Value.InRange room)
    (hkeys : ∀ f ∈ fields, f.1 ∉ Block.names) (h : ofFields? fields = some kind) :
    Kept room kind := by
  have hothers : ∀ f ∈ fields.filter fun f => f.1 != "type", f ∈ fields ∧ f.1 ≠ "type" := by
    simp
  rcases exists_of_ofFields? h with ⟨tag, h⟩ | ⟨name, -, hname, rfl⟩
  · obtain ⟨r, hr, h⟩ := Option.bind_eq_some_iff.1 h
    have hsees : r.Sees room := Record.sees_ofFields? hr .collected fun f hf =>
      (hfits f (hothers f hf).1).sees .collected
    obtain ⟨known, hfields, hrestores⟩ := restores hroom hsees h
    have hknown : ∀ f ∈ known, f.1 ≠ "type" ∧ f.1 ∉ Block.names := fun f hf =>
      keys_names tag f.1 (hrestores.keys.subset (List.mem_map_of_mem hf))
    obtain ⟨htag, hrest⟩ := Record.filter_key_cons (j := .string tag.name)
      fun f hf => (hknown f hf).1
    refine ⟨?_, ?_, ?_⟩
    · rw [hfields]
      exact List.forall_mem_cons.2 ⟨Json.fits_string _, hrestores.fits⟩
    · rw [hfields]
      exact List.forall_mem_cons.2 ⟨type_notMem_names, fun f hf => (hknown f hf).2⟩
    · rw [hfields, ofFields?, htag, hrest]
      simp only [Tag.ofName?_name]
      exact hrestores.bind_ofFields? (nodup_names tag) .collected
  · have hforeign : ∀ f ∈ Json.sortFields (Json.sortedFields (fields.filter fun f =>
        f.1 != "type")), f.2.sorted = f.2 ∧ f.2.Fits Value.InRange room ∧ f.1 ∉ Block.names ∧
        f.1 ≠ "type" := by
      intro f hf
      obtain ⟨g, hg, rfl⟩ := Json.exists_of_mem_sortFields hf
      obtain ⟨hg, htype⟩ := hothers g hg
      exact ⟨Json.sorted_sorted _, (hfits g hg).sorted, hkeys g hg, htype⟩
    obtain ⟨htag, hrest⟩ := Record.filter_key_cons (j := .string name)
      fun f hf => (hforeign f hf).2.2.2
    refine ⟨?_, ?_, ?_⟩
    · exact List.forall_mem_cons.2 ⟨Json.fits_string _, fun f hf => (hforeign f hf).2.1⟩
    · exact List.forall_mem_cons.2 ⟨type_notMem_names, fun f hf => (hforeign f hf).2.2.1⟩
    · show ofFields? (("type", .string name) :: _) = _
      rw [ofFields?, htag, hrest]
      simp only [hname]
      rw [Json.sortFields_sortedFields_of_sorted (Json.ordered_sortFields _)
        fun f hf => (hforeign f hf).1]

end Kind

/-! ### Blocks -/

theorem Block.fits_of_collectible {room : Nat} {reach : Reach} {fields : List (String × Json)}
    (h : collectible fields reach) (hsees : ∀ f ∈ fields, f.2.Sees room reach)
    (hreach : reach.Within room) : ∀ f ∈ fields, f.2.Fits Value.InRange room := by
  intro f hf
  cases hreach with
  | direct => exact ⟨Json.readableFields_iff.1 h f hf, (hsees f hf).inRange⟩
  | collected => exact (hsees f hf).fits rfl

theorem Block.collectible_of_fits {room : Nat} {reach : Reach} {fields : List (String × Json)}
    (h : ∀ f ∈ fields, f.2.Fits Value.InRange room) (hreach : reach.Within room) :
    collectible fields reach := by
  cases hreach with
  | direct => exact Json.readableFields_iff.2 fun f hf => (h f hf).readable
  | collected => rfl

namespace Block

/-- The fields that every block has. -/
def baseFields (b : Block) : List (String × Json) :=
  [("id", .string b.id), ("name", .string b.name), ("description", .string b.description),
    ("category", b.category.encode), ("defaultValues", .object b.defaults)]

theorem encode_eq (b : Block) : b.encode = .object (b.baseFields ++ b.kind.fields) := rfl

/-- What is left of a block without the fields that every block has is its kind. -/
theorem filter_fields {room : Nat} {b : Block} (h : b.kind.Kept room) :
    (b.baseFields ++ b.kind.fields).filter (fun f => !names.contains f.1) = b.kind.fields := by
  have hbase : b.baseFields.filter (fun f => !names.contains f.1) = [] := rfl
  rw [List.filter_append, hbase, List.nil_append, List.filter_eq_self]
  exact fun f hf => by simpa using h.keys f hf

/-- A block is kept if what every block has is, and its kind. -/
theorem keeps_of_kept {k : Nat} {b : Block} (hkind : b.kind.Kept k)
    (hid : Decoder.string.Keeps .string k b.id) (hname : Decoder.string.Keeps .string k b.name)
    (hdescription : Decoder.string.Keeps .string k b.description)
    (hcategory : Category.decode.Keeps Category.encode k b.category)
    (hdefaults : (Decoder.map .any).Keeps .object k b.defaults) :
    decode.Keeps encode (k + 1) b := by
  have hbase : Restores names (fun r => do
      let id ← r.required "id" .string
      let name ← r.required "name" .string
      let description ← r.withDefault "description" .string ""
      let category ← r.required "category" Category.decode
      let defaults ← r.withDefault "defaultValues" (.map .any) []
      return (⟨id, name, description, category, defaults, b.kind⟩ : Block)) b.baseFields k b :=
    .required hid <| .required hname <| .withDefault hdescription <| .required hcategory <|
      .withDefault hdefaults .nil
  constructor
  · rw [encode_eq]
    refine Json.fits_object_iff.2 ⟨k, rfl, fun f hf => ?_⟩
    exact (List.mem_append.1 hf).elim (hbase.fits f) (hkind.fits f)
  · intro reach hreach
    obtain ⟨inner, henter, hinner⟩ := hreach.enter
    have hcollect := collectible_of_fits hkind.fits hinner
    rw [encode_eq]
    simp only [decode, henter, filter_fields hkind, hcollect, hkind.restores, if_true,
      Option.bind_eq_bind, Option.bind_some]
    exact hbase.bind_ofFields?_append (by decide) hinner hkind.keys

/-- **A block is decoded faithfully,** whatever its kind. -/
theorem faithful : decode.Faithful encode 4 := by
  refine ⟨fun {room reach j b} hroom hsees h => ?_⟩
  unfold decode at h
  split at h
  · next fields =>
    simp only [Option.bind_eq_bind, Option.bind_eq_some_iff, Option.pure_def] at h
    obtain ⟨inner, henter, r, hr, id, hid, name, hname, description, hdescription, category,
      hcategory, defaults, hdefaults, h⟩ := h
    split at h
    · next hcollectible =>
      obtain ⟨kind, hkind, h⟩ := Option.bind_eq_some_iff.1 h
      obtain rfl := Option.some.inj h
      obtain ⟨k, rfl, hinner, hfields⟩ := hsees.fields henter
      have hr := Record.sees_ofFields? hr hinner hfields
      have hkept : Kind.Kept k kind := by
        refine Kind.kept_of_ofFields? (by omega) (fits_of_collectible hcollectible
          (fun f hf => hfields f (List.mem_of_mem_filter hf)) hinner) (fun f hf => ?_) hkind
        simpa using List.of_mem_filter hf
      exact keeps_of_kept hkept (hr.required .string hid (by omega))
        (hr.required .string hname (by omega))
        (hr.withDefault .string (Decoder.keeps_string _) hdescription (by omega))
        (hr.required Category.faithful hcategory (by omega))
        (hr.withDefault .anyMap (Decoder.keeps_anyMap_empty (by omega)) hdefaults (by omega))
    · cases h
  · cases h

end Block

/-! ### Blocks in their places -/

theorem Position.faithful : decode.Faithful encode 1 := by
  refine .record (by decide) fun {room r p} _ hr h => ?_
  simp only [Option.bind_eq_bind, Option.bind_eq_some_iff, Option.pure_def,
    Option.some.injEq] at h
  obtain ⟨x, hx, y, hy, rfl⟩ := h
  exact ⟨_, rfl, .required (hr.required .double hx (by omega)) <|
    .required (hr.required .double hy (by omega)) .nil⟩

/-- Any place is kept where a container may be opened. -/
theorem Position.keeps {room : Nat} (hroom : 1 ≤ room) (p : Position) :
    decode.Keeps encode room p := by
  obtain ⟨k, rfl⟩ := Nat.exists_eq_add_of_le' hroom
  exact ⟨Json.fits_object_iff.2 ⟨k, rfl, by simp [Value.InRange]⟩, fun reach hreach => by
    obtain ⟨inner, henter, -⟩ := hreach.enter
    show (reach.enter.bind fun inner => _) = some p
    rw [henter]
    rfl⟩

theorem Placed.faithful : decode.Faithful encode 5 := by
  refine .record (by decide) fun {room r p} hroom hr h => ?_
  simp only [Option.bind_eq_bind, Option.bind_eq_some_iff, Option.pure_def,
    Option.some.injEq] at h
  obtain ⟨block, hblock, position, hposition, rfl⟩ := h
  exact ⟨_, rfl, .required (hr.required Block.faithful hblock (by omega)) <|
    .withDefault (hr.withDefault Position.faithful (Position.keeps (by omega) _) hposition
      (by omega)) .nil⟩

end ContractBlocks
