/-
# Project documents

How contracts and projects are written as documents and read back. A parent is an object that names
the contract.
-/

import ContractBlocks.Contract.Project
import ContractBlocks.Document.Block

namespace ContractBlocks

namespace Contract

/-- A parent is written as an object that names it. -/
def encodeParent (id : ContractId) : Json := .object [("contractId", .string id)]

/-- A parent needs the identity of the contract. -/
def decodeParent : Decoder ContractId :=
  .record ["contractId"] fun r => r.required "contractId" .string

/-- A contract is written with its blocks; parents are left out if there are none. -/
def encode (c : Contract) : Json :=
  .object ([("id", .string c.id), ("name", .string c.name),
    ("components", .ofList Placed.encode c.components)]
    ++ Json.fieldIf (!c.parents.isEmpty) "inherits" (.ofList encodeParent c.parents))

/-- A contract needs its identity and its name; repeated parents stay. -/
def decode : Decoder Contract :=
  .record ["id", "name", "components", "inherits"] fun r => do
    let id ← r.required "id" .string
    let name ← r.required "name" .string
    let components ← r.withDefault "components" (.list Placed.decode) []
    let parents ← r.withDefault "inherits" (.list decodeParent) []
    return ⟨id, name, components, parents⟩

end Contract

namespace DeploymentStatus

/-- A deployment status is written as its name. -/
def encode (s : DeploymentStatus) : Json := .string s.name

/-- A deployment status is read from its name. -/
def decode : Decoder DeploymentStatus := .oneOf all name

end DeploymentStatus

namespace Project

/-- A project is written with its contracts; the current one is left out if there is none. -/
def encode (p : Project) : Json :=
  .object ([("id", .string p.id), ("name", .string p.name),
    ("contracts", .ofList Contract.encode p.contracts)]
    ++ Json.fieldOf "currentContract" .string p.currentId
    ++ [("deployment", p.deployment.encode)])

/-- A project needs its identity and its name; nothing is asked of the contracts together. -/
def decode : Decoder Project :=
  .record ["id", "name", "contracts", "currentContract", "deployment"] fun r => do
    let id ← r.required "id" .string
    let name ← r.required "name" .string
    let contracts ← r.withDefault "contracts" (.list Contract.decode) []
    let currentId ← r.withDefault "currentContract" (.nullable .string) none
    let deployment ← r.withDefault "deployment" DeploymentStatus.decode .idle
    return ⟨id, name, contracts, currentId, deployment⟩

end Project

end ContractBlocks
