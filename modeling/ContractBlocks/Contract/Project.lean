/-
# Projects

A project registers contracts by identity and keeps one of them current. Removing a contract leaves
the other contracts as they are, so a parent can be missing.
-/

import ContractBlocks.Contract.Basic

namespace ContractBlocks

/-- Where the deployment of a project stands. -/
inductive DeploymentStatus where
  | idle
  | compiling
  | deploying
  | verifying
  | success
  | error
deriving DecidableEq, Repr

namespace DeploymentStatus

/-- Every deployment status. -/
def all : List DeploymentStatus := [.idle, .compiling, .deploying, .verifying, .success, .error]

/-- The name of a deployment status. -/
def name : DeploymentStatus → String
  | .idle => "idle"
  | .compiling => "compiling"
  | .deploying => "deploying"
  | .verifying => "verifying"
  | .success => "success"
  | .error => "error"

end DeploymentStatus

/-- A project. -/
structure Project where
  id : String
  name : String
  contracts : List Contract
  /-- The identity of the current contract, which need not be registered in a loaded project. -/
  currentId : Option ContractId
  deployment : DeploymentStatus
deriving DecidableEq, Repr

namespace Project

/-- A project without contracts. -/
def empty (id name : String) : Project := ⟨id, name, [], none, .idle⟩

/-- The first contract of the given identity. -/
def contract? (p : Project) (id : ContractId) : Option Contract :=
  p.contracts.find? fun c => c.id == id

/-- The first contract of the given name. -/
def byName? (p : Project) (name : String) : Option Contract :=
  p.contracts.find? fun c => c.name == name

/-- The current contract, if it is registered. -/
def current? (p : Project) : Option Contract := p.currentId.bind p.contract?

/-- Registers a contract behind the others; the first one registered becomes current. -/
def add (p : Project) (c : Contract) : Except EditError Project :=
  if (p.contract? c.id).isSome then .error (.duplicateContract c.id)
  else .ok { p with
    contracts := p.contracts ++ [c]
    currentId := some (p.currentId.getD c.id) }

/-- Takes the first contract of the given identity out of the project. The contract comes back
without its blocks; if it was the current one, the first contract left becomes current. -/
def remove (p : Project) (id : ContractId) : Except EditError (Project × Contract) :=
  match p.contract? id with
  | none => .error (.missingContract id)
  | some c =>
    let rest := p.contracts.eraseP fun c => c.id == id
    let currentId :=
      if p.currentId = some id then rest.head?.map Contract.id else p.currentId
    .ok ({ p with contracts := rest, currentId := currentId }, { c with components := [] })

/-- Makes a registered contract current. -/
def setCurrent (p : Project) (id : ContractId) : Except EditError Project :=
  if (p.contract? id).isSome then .ok { p with currentId := some id }
  else .error (.missingContract id)

/-- Changes the first contract of the given identity. -/
def modify (p : Project) (id : ContractId) (f : Contract → Contract) : Project :=
  { p with contracts := p.contracts.modify (p.contracts.findIdx fun c => c.id == id) f }

end Project

end ContractBlocks
