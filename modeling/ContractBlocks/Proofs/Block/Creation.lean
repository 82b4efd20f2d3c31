/-
# What a seed makes of a tag

A new block has the tag that was asked for, and what breaks a rule in it comes from the seed alone:
the defaults of every kind pass the checks of that kind.  Only two things that a seed asks for are
checked.  The name is, except for a constructor, and so are the type and the visibility of what a
block stores, for the three kinds that declare state (`Block.violations_ofTag`).  Whether the block
has a source form depends on the tag only.

`Block.creation_exact` puts this together with the names that a block is created from: those of the
fourteen tags, and no others.
-/

import ContractBlocks.Block.Seed
import ContractBlocks.Proofs.Source.Composition
import ContractBlocks.Proofs.Validation.Block

namespace ContractBlocks

namespace Tag

/-- The name of a new block is an identifier. -/
theorem isIdentifierName_defaultName (t : Tag) : isIdentifierName t.defaultName := by
  cases t <;> decide

/-- The field with the type of what a block stores, for the kinds that declare state. -/
def typeField? : Tag → Option String
  | .stateVariable => some "dataType"
  | .mapping => some "valueType"
  | .array => some "elementType"
  | _ => none

/-- The kinds that declare state. -/
def stateful : List Tag := [.stateVariable, .mapping, .array]

theorem mem_stateful_iff {t : Tag} : t ∈ stateful ↔ ∃ field, t.typeField? = some field := by
  cases t <;> simp [stateful, typeField?]

end Tag

namespace Validation

/-- A block of one of the fourteen kinds is checked for its name, its parameters and what its kind
asks for. -/
theorem violations_of_tag? {b : Block} {t : Tag} (h : b.kind.tag? = some t) :
    b.violations =
      name b ++ parameters b.id (b.parameters?.getD []) ++ kind b.id b.name b.kind := by
  unfold Block.violations
  split
  · next hk =>
    rw [hk] at h
    cases h
  · rfl

variable (id : BlockId) (tag : Tag) (seed : Seed)

/-- Only a constructor has a name that is not checked. -/
theorem name_ofTag :
    name (.ofTag id tag seed) =
      when (tag ≠ .constructor && !isIdentifierName (seed.name.getD tag.defaultName))
        (.invalidIdentifier id (seed.name.getD tag.defaultName)) := by
  cases tag <;> simp [name, Block.ofTag, Seed.kind, when]

/-- A new block has no parameters yet. -/
theorem parameters?_ofTag : (Block.ofTag id tag seed).parameters?.getD [] = [] := by
  cases tag <;> rfl

/-- What a kind that declares state, with its type under `field`, says about a seed. -/
def ofSeed (field : String) : List Violation :=
  when (isBlankType (seed.dataType.getD "uint256")) (.missingType id field)
    ++ when (seed.visibility.getD .pub = .external) (.externalStateDeclaration id)

/-- **The defaults of a kind are in order,** so a kind objects only to the type and the visibility that
the seed gives to what is stored. -/
theorem kind_seed (name : String) :
    kind id name (seed.kind tag) = tag.typeField?.elim [] (ofSeed id seed) := by
  cases tag with
  | mapping =>
    have hkey : isMappingKey "address" := by decide
    simp [kind, Seed.kind, Tag.typeField?, ofSeed, hkey, when]
  | struct =>
    have hmember : structMember id [] ⟨"id", "uint256"⟩ = [] := by rfl
    simp [kind, Seed.kind, Tag.typeField?, withEarlier, hmember]
  | enum =>
    have hfirst : enumMember id [] "Inactive" = [] := by rfl
    have hsecond : enumMember id ["Inactive"] "Active" = [] := by rfl
    simp [kind, Seed.kind, Tag.typeField?, withEarlier, hfirst, hsecond]
  | stateVariable | array => simp [kind, Seed.kind, Tag.typeField?, ofSeed, when]
  | _ => rfl

end Validation

namespace Block

variable (id : BlockId) (tag : Tag) (seed : Seed)

/-- **The violations of a new block** are about what the seed asks for: its name, and the type and the
visibility of what it stores. -/
theorem violations_ofTag :
    (ofTag id tag seed).violations =
      Validation.when (tag ≠ .constructor && !isIdentifierName (seed.name.getD tag.defaultName))
          (.invalidIdentifier id (seed.name.getD tag.defaultName))
        ++ tag.typeField?.elim [] (Validation.ofSeed id seed) := by
  rw [Validation.violations_of_tag? (seed.tag?_kind tag), Validation.name_ofTag,
    Validation.parameters?_ofTag]
  show _ ++ [] ++ Validation.kind id _ (seed.kind tag) = _
  rw [List.append_nil, Validation.kind_seed]

/-- The name of a new block is an identifier unless the seed gives it another one. -/
theorem isIdentifierName_getD_defaultName :
    isIdentifierName (seed.name.getD tag.defaultName) ↔ ∀ name ∈ seed.name, isIdentifierName name := by
  cases hname : seed.name with
  | none => simp [tag.isIdentifierName_defaultName]
  | some name => simp

theorem ofSeed_eq_nil_iff {field : String} :
    Validation.ofSeed id seed field = [] ↔
      (∀ dataType ∈ seed.dataType, ¬isBlankType dataType) ∧
        ∀ v ∈ seed.visibility, v ∈ [Visibility.pub, .priv, .internal] := by
  have hdefault : ¬isBlankType "uint256" := by decide
  have htype : isBlankType (seed.dataType.getD "uint256") = false ↔
      ∀ dataType ∈ seed.dataType, ¬isBlankType dataType := by
    cases seed.dataType <;> simp [hdefault]
  have hvisibility : seed.visibility.getD .pub ≠ .external ↔
      ∀ v ∈ seed.visibility, v ∈ [Visibility.pub, .priv, .internal] := by
    cases seed.visibility with
    | none => simp
    | some v => cases v <;> simp
  rw [Validation.ofSeed, List.append_eq_nil_iff, Validation.when_eq_nil_iff,
    Validation.when_eq_nil_iff, htype, decide_eq_false_iff_not, ← Ne, hvisibility]

/-- **A new block breaks no rule** exactly if it is a constructor or is given no name that is no
identifier, and, where it declares state, is given neither a blank type nor the visibility
`external`. -/
theorem violations_ofTag_eq_nil_iff :
    (ofTag id tag seed).violations = [] ↔
      (tag = .constructor ∨ ∀ name ∈ seed.name, isIdentifierName name) ∧
        (tag ∈ Tag.stateful →
          (∀ dataType ∈ seed.dataType, ¬isBlankType dataType) ∧
            ∀ v ∈ seed.visibility, v ∈ [Visibility.pub, .priv, .internal]) := by
  rw [violations_ofTag, List.append_eq_nil_iff, Validation.when_eq_nil_iff]
  refine and_congr ?_ ?_
  · rw [← isIdentifierName_getD_defaultName tag seed, Bool.and_eq_false_iff,
      decide_eq_false_iff_not, not_not, Bool.not_eq_false']
  · rw [Tag.mem_stateful_iff]
    cases tag.typeField? with
    | none => simp
    | some field => simp [ofSeed_eq_nil_iff]

/-- **What a seed makes of a tag.**  Whatever the seed, the block has the tag; it breaks no rule exactly
if what the seed asks for is in order; it has a source form, under any options, exactly if its tag is
one of the ten that do; and a block is created from the names of the tags, and from no other name. -/
theorem creation_exact (id : BlockId) (seed : Seed) :
    (∀ tag, (ofTag id tag seed).kind.tag? = some tag ∧
      ((ofTag id tag seed).violations = [] ↔
        (tag = .constructor ∨ ∀ name ∈ seed.name, isIdentifierName name) ∧
          (tag ∈ [Tag.stateVariable, .mapping, .array] →
            (∀ dataType ∈ seed.dataType, ¬isBlankType dataType) ∧
              ∀ v ∈ seed.visibility, v ∈ [Visibility.pub, .priv, .internal])) ∧
      ∀ o, ((ofTag id tag seed).source? o).isSome ↔ tag ∈ Tag.inSource) ∧
    (∀ tag : Tag, create id tag.name seed = .ok (ofTag id tag seed)) ∧
      ∀ name e, create id name seed = .error e ↔
        name ∉ Tag.all.map Tag.name ∧ e = .unsupportedKind name := by
  refine ⟨fun tag => ⟨seed.tag?_kind tag, violations_ofTag_eq_nil_iff id tag seed, fun o => ?_⟩,
    fun tag => ?_, fun name e => ?_⟩
  · rw [source?, Option.isSome_map, ← isShown, isShown_iff, ofTag, seed.tag?_kind]
    simp
  · rw [create, Tag.ofName?_name]
  · have hname : name ∉ Tag.all.map Tag.name ↔ Tag.ofName? name = none := by
      rw [Tag.ofName?_eq_none_iff, List.mem_map, not_exists]
      exact forall_congr' fun t => by rw [not_and, imp_iff_right t.mem_all]
    rw [hname, create]
    cases Tag.ofName? name <;> simp [eq_comm]

end Block

end ContractBlocks
