/-
# Patches

A patch names the fields that an edit sets. Setting a field that the kind does not have does
nothing, so a patch never changes the kind, the identity or the default values of a block.
-/

import ContractBlocks.Block.Basic

namespace ContractBlocks

/-- The fields that an edit sets. -/
structure Patch where
  name : Option String
  description : Option String
  category : Option Category
  visibility : Option Visibility
  parameters : Option (List Parameter)
  body : Option String
  overrides : Option (List StoredOverride)
deriving DecidableEq, Repr

namespace Patch

/-- The patch that sets nothing. -/
def empty : Patch := ⟨none, none, none, none, none, none, none⟩

/-- The patch sets nothing. -/
def isEmpty (p : Patch) : Bool := p = empty

/-- The patch that sets the overrides of a function. -/
def ofOverrides (overrides : List StoredOverride) : Patch :=
  { empty with overrides := some overrides }

end Patch

namespace Kind

/-- Sets the visibility of a kind that has one. -/
def setVisibility (v : Visibility) : Kind → Kind
  | .function f => .function { f with visibility := v }
  | .stateVariable s => .stateVariable { s with visibility := v }
  | .mapping m => .mapping { m with visibility := v }
  | .array a => .array { a with visibility := v }
  | k => k

/-- Sets the parameters of a kind that takes some. -/
def setParameters (ps : List Parameter) : Kind → Kind
  | .function f => .function { f with parameters := ps }
  | .constructor c => .constructor { c with parameters := ps }
  | .event _ => .event ps
  | .error _ => .error ps
  | .modifier m => .modifier { m with parameters := ps }
  | k => k

/-- Sets the statements of a kind that has some. -/
def setBody (body : String) : Kind → Kind
  | .function f => .function { f with body := body }
  | .constructor c => .constructor { c with body := body }
  | .modifier m => .modifier { m with body := body }
  | k => k

/-- Sets the overrides kept with a function. -/
def setOverrides (os : List StoredOverride) : Kind → Kind
  | .function f => .function { f with overrides := os }
  | k => k

/-- Sets a field to a value, if there is one. -/
def update {α : Type} (set : α → Kind → Kind) (value : Option α) (k : Kind) : Kind :=
  match value with
  | some a => set a k
  | none => k

end Kind

/-- The block with the fields of the patch set. -/
def Block.patch (b : Block) (p : Patch) : Block where
  id := b.id
  name := p.name.getD b.name
  description := p.description.getD b.description
  category := p.category.getD b.category
  defaults := b.defaults
  kind := Kind.update Kind.setOverrides p.overrides
    (Kind.update Kind.setBody p.body
      (Kind.update Kind.setParameters p.parameters
        (Kind.update Kind.setVisibility p.visibility b.kind)))

@[simp]
theorem Block.patch_empty (b : Block) : b.patch Patch.empty = b := rfl

end ContractBlocks
