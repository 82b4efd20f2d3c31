/-
# What a patch changes

The fourteen kinds and the foreign one share some fields and not others.  `Kind.details` lists every
field, with its value where the kind has it; together with the tag that is all there is to a kind
(`Kind.eq_of_details`).  A patch names four of these fields.  It sets those that it names and that the
kind has, and leaves all else as it is (`Block.details_patch`), which describes the patched block
completely (`Block.Patched`).

The laws follow from that description.  Two patches one after the other are one patch, in which the
later one has its way (`Patch.andThen`), and `Block.patch_laws` says so, with what it means for a
patch that is applied twice, for patches that have no field in common, and for the empty patch.
-/

import ContractBlocks.Block.Patch

namespace ContractBlocks

/-! ### The fields of a kind -/

/-- Every field that some kind has, each with its value if the kind in question has it. -/
structure Kind.Details where
  visibility : Option Visibility := none
  stateMutability : Option StateMutability := none
  parameters : Option (List Parameter) := none
  returns : Option (List Parameter) := none
  modifiers : Option (List ModifierUse) := none
  isVirtual : Option Bool := none
  body : Option String := none
  overrides : Option (List StoredOverride) := none
  dataType : Option String := none
  mutability : Option VariableMutability := none
  initialValue : Option (Option String) := none
  structMembers : Option (List StructMember) := none
  enumMembers : Option (List String) := none
  keyType : Option String := none
  valueType : Option String := none
  elementType : Option String := none
  length : Option (Option Nat) := none
  protocol : Option Protocol := none
  safeguard : Option Safeguard := none
  provider : Option OracleProvider := none
  standard : Option InterfaceStandard := none
  /-- The parameters of a block that describes something outside the source text. -/
  settings : Option (List (String × String)) := none
  requirements : Option (List String) := none
  typeName : Option String := none
  foreignFields : Option (List (String × Json)) := none

namespace Kind

/-- The fields of a kind. -/
def details : Kind → Details
  | .function f =>
    { visibility := f.visibility, stateMutability := f.stateMutability, parameters := f.parameters,
      returns := f.returns, modifiers := f.modifiers, isVirtual := f.isVirtual, body := f.body,
      overrides := f.overrides }
  | .stateVariable v =>
    { dataType := v.dataType, visibility := v.visibility, mutability := v.mutability,
      initialValue := some v.initialValue }
  | .constructor c => { parameters := c.parameters, modifiers := c.modifiers, body := c.body }
  | .event ps => { parameters := ps }
  | .modifier m => { parameters := m.parameters, body := m.body }
  | .error ps => { parameters := ps }
  | .struct ms => { structMembers := ms }
  | .enum ms => { enumMembers := ms }
  | .mapping m => { keyType := m.keyType, valueType := m.valueType, visibility := m.visibility }
  | .array a => { elementType := a.elementType, length := some a.length, visibility := a.visibility }
  | .integration d =>
    { protocol := d.subject, settings := d.parameters, requirements := d.requirements }
  | .security d =>
    { safeguard := d.subject, settings := d.parameters, requirements := d.requirements }
  | .oracle d =>
    { provider := d.subject, settings := d.parameters, requirements := d.requirements }
  | .externalCall d =>
    { standard := d.subject, settings := d.parameters, requirements := d.requirements }
  | .foreign name fields => { typeName := name, foreignFields := fields }

/-- **A kind is its tag and its fields.** -/
theorem eq_of_details {k l : Kind} (ht : k.tag? = l.tag?) (hf : k.details = l.details) : k = l := by
  cases k <;> cases l <;> cases ht
  -- the tags agree, so both are of one kind
  case event | error | struct | enum | foreign => cases hf; rfl
  case function x y | stateVariable x y | constructor x y | modifier x y | mapping x y | array x y |
      integration x y | security x y | oracle x y | externalCall x y =>
    cases x; cases y; cases hf; rfl

/-! ### What a patch does to the fields -/

/-- The fields as a patch leaves them: a field that it names takes its value where the kind has that
field, and all other fields stay. -/
def Details.patched (x : Details) (p : Patch) : Details :=
  { x with
    visibility := x.visibility.map fun v => p.visibility.getD v
    parameters := x.parameters.map fun ps => p.parameters.getD ps
    body := x.body.map fun body => p.body.getD body
    overrides := x.overrides.map fun os => p.overrides.getD os }

theorem details_update_setVisibility (v : Option Visibility) (k : Kind) :
    (update setVisibility v k).details =
      { k.details with visibility := k.details.visibility.map fun a => v.getD a } := by
  cases v <;> cases k <;> rfl

theorem details_update_setParameters (ps : Option (List Parameter)) (k : Kind) :
    (update setParameters ps k).details =
      { k.details with parameters := k.details.parameters.map fun a => ps.getD a } := by
  cases ps <;> cases k <;> rfl

theorem details_update_setBody (body : Option String) (k : Kind) :
    (update setBody body k).details =
      { k.details with body := k.details.body.map fun a => body.getD a } := by
  cases body <;> cases k <;> rfl

theorem details_update_setOverrides (os : Option (List StoredOverride)) (k : Kind) :
    (update setOverrides os k).details =
      { k.details with overrides := k.details.overrides.map fun a => os.getD a } := by
  cases os <;> cases k <;> rfl

/-- A setter that keeps the tag keeps it where nothing is to be set, too. -/
theorem tag?_update {α : Type} {set : α → Kind → Kind} (h : ∀ a k, (set a k).tag? = k.tag?)
    (value : Option α) (k : Kind) : (update set value k).tag? = k.tag? := by
  cases value with
  | none => rfl
  | some a => exact h a k

end Kind

namespace Block

variable {b c d : Block} {p q : Patch}

/-- **The fields of a patched block.** -/
theorem details_patch (b : Block) (p : Patch) :
    (b.patch p).kind.details = b.kind.details.patched p := by
  simp only [patch, Kind.details_update_setOverrides, Kind.details_update_setBody,
    Kind.details_update_setParameters, Kind.details_update_setVisibility, Kind.Details.patched]

/-- A patch never changes the tag. -/
theorem tag?_patch (b : Block) (p : Patch) : (b.patch p).kind.tag? = b.kind.tag? := by
  simp only [patch]
  rw [Kind.tag?_update, Kind.tag?_update, Kind.tag?_update, Kind.tag?_update]
  all_goals
    intro a k
    cases k <;> rfl

/-- What a patch makes of a block: what it says of the identity, the tag and the default values,
the three fields that every block has, and the fields of the kind. -/
structure Patched (b : Block) (p : Patch) (c : Block) : Prop where
  id : c.id = b.id
  tag : c.kind.tag? = b.kind.tag?
  defaults : c.defaults = b.defaults
  name : c.name = p.name.getD b.name
  description : c.description = p.description.getD b.description
  category : c.category = p.category.getD b.category
  details : c.kind.details = b.kind.details.patched p

theorem patched_patch (b : Block) (p : Patch) : b.Patched p (b.patch p) :=
  ⟨rfl, b.tag?_patch p, rfl, rfl, rfl, rfl, b.details_patch p⟩

/-- The description leaves nothing open. -/
theorem Patched.unique (h : b.Patched p c) (h' : b.Patched p d) : c = d := by
  have hkind : c.kind = d.kind :=
    Kind.eq_of_details (h.tag.trans h'.tag.symm) (h.details.trans h'.details.symm)
  rw [Block.mk.injEq]
  exact ⟨h.id.trans h'.id.symm, h.name.trans h'.name.symm,
    h.description.trans h'.description.symm, h.category.trans h'.category.symm,
    h.defaults.trans h'.defaults.symm, hkind⟩

end Block

/-! ### Patches one after the other -/

namespace Patch

variable {p q : Patch}

/-- Both patches as one: each field is set as the second one sets it, or else as the first one
does. -/
def andThen (p q : Patch) : Patch where
  name := q.name.or p.name
  description := q.description.or p.description
  category := q.category.or p.category
  visibility := q.visibility.or p.visibility
  parameters := q.parameters.or p.parameters
  body := q.body.or p.body
  overrides := q.overrides.or p.overrides

/-- No field is set by both patches. -/
structure Disjoint (p q : Patch) : Prop where
  name : p.name = none ∨ q.name = none
  description : p.description = none ∨ q.description = none
  category : p.category = none ∨ q.category = none
  visibility : p.visibility = none ∨ q.visibility = none
  parameters : p.parameters = none ∨ q.parameters = none
  body : p.body = none ∨ q.body = none
  overrides : p.overrides = none ∨ q.overrides = none

theorem andThen_self (p : Patch) : p.andThen p = p := by
  simp only [andThen, Option.or_self]

theorem or_comm_of_eq_none {α : Type} {o o' : Option α} (h : o = none ∨ o' = none) :
    o.or o' = o'.or o := by
  rcases h with rfl | rfl
  · rw [Option.none_or, Option.or_none]
  · rw [Option.or_none, Option.none_or]

theorem Disjoint.andThen_comm (h : p.Disjoint q) : p.andThen q = q.andThen p := by
  simp only [andThen, or_comm_of_eq_none h.name, or_comm_of_eq_none h.description,
    or_comm_of_eq_none h.category, or_comm_of_eq_none h.visibility,
    or_comm_of_eq_none h.parameters, or_comm_of_eq_none h.body, or_comm_of_eq_none h.overrides]

end Patch

theorem Kind.Details.patched_patched (x : Kind.Details) (p q : Patch) :
    (x.patched p).patched q = x.patched (p.andThen q) := by
  simp only [Kind.Details.patched, Patch.andThen, Option.map_map, Function.comp_def, Option.getD_or]

namespace Block

variable {b c d : Block} {p q : Patch}

/-- A block that is patched twice is patched with both patches as one. -/
theorem Patched.andThen (h : b.Patched p c) (h' : c.Patched q d) : b.Patched (p.andThen q) d where
  id := h'.id.trans h.id
  tag := h'.tag.trans h.tag
  defaults := h'.defaults.trans h.defaults
  name := by rw [h'.name, h.name, Patch.andThen, Option.getD_or]
  description := by rw [h'.description, h.description, Patch.andThen, Option.getD_or]
  category := by rw [h'.category, h.category, Patch.andThen, Option.getD_or]
  details := by rw [h'.details, h.details, Kind.Details.patched_patched]

theorem patch_patch (b : Block) (p q : Patch) : (b.patch p).patch q = b.patch (p.andThen q) :=
  ((b.patched_patch p).andThen ((b.patch p).patched_patch q)).unique (b.patched_patch _)

/-- **The laws of patches.**  Two patches one after the other are one patch that sets each field as
the later one sets it, or else as the earlier one does.  So to apply a patch again changes nothing,
patches that set no field in common commute, and a patch that sets nothing changes nothing.  What a
patch makes of a block is described by `Patched`: it keeps the identity, the tag, the default values
and each field of the kind that it does not name or that the kind does not have. -/
theorem patch_laws (b : Block) (p q : Patch) :
    (b.patch p).patch q = b.patch (p.andThen q) ∧
    (b.patch p).patch p = b.patch p ∧
    (p.Disjoint q → (b.patch p).patch q = (b.patch q).patch p) ∧
    (p.isEmpty → b.patch p = b) ∧
    b.Patched p (b.patch p) := by
  refine ⟨b.patch_patch p q, ?_, fun h => ?_, fun h => ?_, b.patched_patch p⟩
  · rw [patch_patch, Patch.andThen_self]
  · rw [patch_patch, patch_patch, h.andThen_comm]
  · rw [of_decide_eq_true h, patch_empty]

namespace Ledger

/-- A public mapping: it has a visibility, and neither parameters nor a body. -/
def ledger : Block :=
  ⟨"l", "balances", "", .dataStructures, [], .mapping ⟨"address", "uint256", .pub⟩⟩

/-- A patch of a field that a mapping has and of one that it has not. -/
def hide : Patch := { Patch.empty with visibility := some .priv, body := some "return;" }

/-- A patch of the name and of a field that a mapping has not. -/
def rename : Patch := { Patch.empty with name := some "accounts", parameters := some [] }

end Ledger

open Ledger in
theorem patch_laws_ledger :
    hide.Disjoint rename ∧ (ledger.patch hide).patch rename = (ledger.patch rename).patch hide ∧
      Patch.empty.isEmpty ∧ ledger.patch .empty = ledger ∧
      (ledger.patch hide).kind = .mapping ⟨"address", "uint256", .priv⟩ := by
  have hdisjoint : hide.Disjoint rename :=
    ⟨.inl rfl, .inl rfl, .inl rfl, .inr rfl, .inl rfl, .inr rfl, .inl rfl⟩
  obtain ⟨-, -, hcomm, -, -⟩ := patch_laws ledger hide rename
  obtain ⟨-, -, -, hempty, -⟩ := patch_laws ledger .empty rename
  exact ⟨hdisjoint, hcomm hdisjoint, rfl, hempty rfl, rfl⟩

/-! ### A block with other statements -/

/-- The block with the given text as its statements, if its kind has some. -/
def withBody (b : Block) (body : String) : Block := { b with kind := b.kind.setBody body }

theorem function?_withBody (b : Block) (body : String) :
    (b.withBody body).function? = b.function?.map fun f => { f with body := body } := by
  unfold withBody function?
  cases b.kind <;> rfl

theorem overrides_withBody (b : Block) (body : String) :
    (b.withBody body).overrides = b.overrides := by
  unfold withBody overrides
  cases b.kind <;> rfl

/-- A block with its own statements is the block. -/
theorem withBody_of_body? {b : Block} {body : String} (h : b.body? = some body) :
    b.withBody body = b := by
  obtain ⟨id, name, description, category, defaults, kind⟩ := b
  cases kind <;> cases h <;> rfl

end Block
end ContractBlocks
