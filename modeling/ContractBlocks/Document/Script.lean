/-
# Script documents

How seeds, patches and the operations of a script are written as documents and read back. An
operation carries its tag under `op`.
-/

import ContractBlocks.History.Workspace
import ContractBlocks.Document.Block

namespace ContractBlocks

namespace Seed

/-- A seed is written with all its fields; one that asks for nothing is `null`. -/
def encode (s : Seed) : Json :=
  .object [("name", .ofOption .string s.name), ("description", .ofOption .string s.description),
    ("category", .ofOption Category.encode s.category),
    ("visibility", .ofOption Visibility.encode s.visibility),
    ("stateMutability", .ofOption StateMutability.encode s.stateMutability),
    ("dataType", .ofOption .string s.dataType), ("defaultValues", .object s.defaults)]

/-- Every field of a seed may be `null` or missing. -/
def decode : Decoder Seed :=
  .record ["name", "description", "category", "visibility", "stateMutability", "dataType",
      "defaultValues"] fun r => do
    let name ← r.optional "name" .string
    let description ← r.optional "description" .string
    let category ← r.optional "category" Category.decode
    let visibility ← r.optional "visibility" Visibility.decode
    let stateMutability ← r.optional "stateMutability" StateMutability.decode
    let dataType ← r.optional "dataType" .string
    let defaults ← r.withDefault "defaultValues" (.map .any) []
    return ⟨name, description, category, visibility, stateMutability, dataType, defaults⟩

end Seed

namespace Patch

/-- A patch is written with all its fields; one that sets nothing is `null`. -/
def encode (p : Patch) : Json :=
  .object [("name", .ofOption .string p.name), ("description", .ofOption .string p.description),
    ("category", .ofOption Category.encode p.category),
    ("visibility", .ofOption Visibility.encode p.visibility),
    ("parameters", .ofOption Parameter.encodeList p.parameters),
    ("body", .ofOption .string p.body),
    ("overrides", .ofOption (.ofList StoredOverride.encode) p.overrides)]

/-- Every field of a patch may be `null` or missing. -/
def decode : Decoder Patch :=
  .record ["name", "description", "category", "visibility", "parameters", "body", "overrides"]
    fun r => do
      let name ← r.optional "name" .string
      let description ← r.optional "description" .string
      let category ← r.optional "category" Category.decode
      let visibility ← r.optional "visibility" Visibility.decode
      let parameters ← r.optional "parameters" (.list Parameter.decode)
      let body ← r.optional "body" .string
      let overrides ← r.optional "overrides" (.list StoredOverride.decode)
      return ⟨name, description, category, visibility, parameters, body, overrides⟩

end Patch

namespace Operation

/-- An operation is written with its tag first. -/
def encode : Operation → Json
  | .add tagName id seed position =>
    .object [("op", .string "add"), ("componentType", .string tagName),
      ("id", .ofOption .string id), ("seed", .ofOption Seed.encode seed),
      ("position", position.encode)]
  | .update id patch =>
    .object [("op", .string "update"), ("id", .string id), ("patch", patch.encode)]
  | .move id position =>
    .object [("op", .string "move"), ("id", .string id), ("position", position.encode)]
  | .remove id => .object [("op", .string "remove"), ("id", .string id)]
  | .undo => .object [("op", .string "undo")]
  | .redo => .object [("op", .string "redo")]

/-- The fields of each operation, and the operation that they make. -/
def cases : String → Option (List String × (Record → Option Operation))
  | "add" => some (["componentType", "id", "seed", "position"], fun r => do
    let tagName ← r.required "componentType" .string
    let id ← r.withDefault "id" (.nullable .string) none
    let seed ← r.withDefault "seed" (.nullable Seed.decode) none
    let position ← r.withDefault "position" Position.decode .origin
    return .add tagName id seed position)
  | "update" => some (["id", "patch"], fun r => do
    let id ← r.required "id" .string
    let patch ← r.required "patch" Patch.decode
    return .update id patch)
  | "move" => some (["id", "position"], fun r => do
    let id ← r.required "id" .string
    let position ← r.required "position" Position.decode
    return .move id position)
  | "remove" => some (["id"], fun r => (r.required "id" .string).map .remove)
  | "undo" => some ([], fun _ => some .undo)
  | "redo" => some ([], fun _ => some .redo)
  | _ => none

/-- An operation is read by its tag. -/
def decode : Decoder Operation := .tagged "op" cases

end Operation

end ContractBlocks
