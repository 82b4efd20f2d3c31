/-
# Inheritance issues

Four things can be wrong with how contracts inherit: a parent is missing, contracts inherit in a
loop, an ancestor is reached through two direct parents, or several ancestors declare a function
that the contract does not settle. The last two are asked only of contracts without a loop above
them.
-/

import ContractBlocks.Inheritance.Graph

namespace ContractBlocks

/-- Something wrong with how contracts inherit. -/
inductive InheritanceIssue where
  /-- A parent is not registered. -/
  | missingParent (contract parent : ContractId)
  /-- The contracts inherit from each other. -/
  | cycle (members : List ContractId)
  /-- The ancestor is reached through two direct parents. -/
  | diamond (contract ancestor : ContractId)
  /-- Several ancestors declare the function, and the contract does not settle it. -/
  | ambiguousFunction (contract : ContractId) (signature : String) (sources : List String)
deriving DecidableEq, Repr

/-- The issue in words. -/
def InheritanceIssue.message : InheritanceIssue → String
  | .missingParent c p => "contract " ++ c ++ " inherits missing contract " ++ p
  | .cycle ms => "inheritance cycle through " ++ String.intercalate " -> " ms
  | .diamond c a => "contract " ++ c ++ " reaches " ++ a ++ " through more than one parent"
  | .ambiguousFunction c s ss =>
    "contract " ++ c ++ " inherits '" ++ s ++ "' from " ++ String.intercalate ", " ss

/-- A function's name with its parameter types, as overloads are told apart. -/
def signatureKey (name : String) (parameters : List Parameter) : String :=
  name ++ "(" ++ String.intercalate "," (parameters.map Parameter.dataType) ++ ")"

namespace Contract

/-- The signatures of the functions of a contract. -/
def signatures (c : Contract) : List String :=
  c.functions.map fun f => signatureKey f.1.name f.2.parameters

/-- The functions that the overrides of a contract replace. -/
def overriddenIds (c : Contract) : List BlockId :=
  c.functions.flatMap fun f => f.2.overrides.map StoredOverride.functionId

end Contract

/-- A function that an ancestor declares. -/
structure AncestorFunction where
  signature : String
  source : Contract
  id : BlockId
deriving DecidableEq, Repr

/-- The functions of an ancestor. -/
def Contract.ancestorFunctions (c : Contract) : List AncestorFunction :=
  c.functions.map fun f => ⟨signatureKey f.1.name f.2.parameters, c, f.1.id⟩

/-- A signature that a contract inherits. -/
structure InheritedSignature where
  signature : String
  /-- The ancestors that declare it, in the order in which they are met. -/
  sources : List Contract
  /-- An override replaces one of the declarations. -/
  isOverridden : Bool
deriving DecidableEq, Repr

namespace InheritedSignature

/-- A signature when its first declaration is met. -/
def ofFunction (f : AncestorFunction) (isOverridden : Bool) : InheritedSignature :=
  ⟨f.signature, [f.source], isOverridden⟩

/-- A signature when one more declaration is met. An ancestor is a source once, however many
functions of the signature it declares. -/
def declare (i : InheritedSignature) (source : Contract) (isOverridden : Bool) :
    InheritedSignature where
  signature := i.signature
  sources :=
    if i.sources.any fun c => c.id == source.id then i.sources else i.sources ++ [source]
  isOverridden := i.isOverridden || isOverridden

/-- Enters a declaration among the signatures met so far: with its own signature if that has been
met, and behind the others if it has not. -/
def enter (f : AncestorFunction) (isOverridden : Bool) :
    List InheritedSignature → List InheritedSignature
  | [] => [.ofFunction f isOverridden]
  | i :: rest =>
    if i.signature = f.signature then i.declare f.source isOverridden :: rest
    else i :: enter f isOverridden rest

/-- The signatures of the functions in the order in which they are met first; `overridden` are the
functions that an override replaces. -/
def collect (overridden : List BlockId) (fs : List AncestorFunction) : List InheritedSignature :=
  fs.foldl (fun met f => enter f (overridden.contains f.id) met) []

end InheritedSignature

namespace InheritanceGraph

/-- A contract is on one of the loops or has one above it. -/
def meetsLoop (g : InheritanceGraph) (looping : List ContractId) (id : ContractId) : Bool :=
  looping.contains id || (g.above id).any fun a => looping.contains a

/-- The ancestors that a second parent in the list reaches. Only ancestors that are not `direct`
parents count; `seen` are those reached through the parents before, and `reported` those of them
that a second parent has reached before. -/
def reachedTwice (g : InheritanceGraph) (direct seen reported : List ContractId) :
    List ContractId → List ContractId
  | [] => []
  | parent :: rest =>
    let reached := (g.lineage parent).filter fun a => a ∉ direct
    let again := reached.filter fun a => a ∈ seen && a ∉ reported
    again ++ reachedTwice g direct (seen ++ reached) (reported ++ again) rest

/-- Of contracts that declare a function, those that no other of them inherits from. -/
def mostDerived (g : InheritanceGraph) (sources : List Contract) : List Contract :=
  sources.filter fun s =>
    !sources.any fun o => o.id != s.id && (g.above o.id).contains s.id

end InheritanceGraph

namespace Project

/-- The parent references to contracts that are not registered. -/
def missingParents (p : Project) : List InheritanceIssue :=
  (p.parentReferences.filter fun e => !p.ids.contains e.2).map fun e => .missingParent e.1 e.2

/-- The diamonds below a contract. -/
def diamonds (p : Project) (c : Contract) : List InheritanceIssue :=
  let parents := (c.knownParents p.contract?).map Contract.id
  (p.inheritance.reachedTwice parents [] [] parents).map fun a => .diamond c.id a

/-- The ancestors of a contract in order of identity. -/
def ancestorContracts (p : Project) (id : ContractId) : List Contract :=
  (p.inheritance.ancestors id).filterMap p.contract?

/-- The functions that a contract inherits from several ancestors and does not settle. -/
def ambiguities (p : Project) (c : Contract) : List InheritanceIssue :=
  let graph := p.inheritance
  let declared := (p.ancestorContracts c.id).flatMap Contract.ancestorFunctions
  let inherited := InheritedSignature.collect c.overriddenIds declared
  (inherited.filter fun i => !i.isOverridden && i.signature ∉ c.signatures).filterMap fun i =>
    let rivals := graph.mostDerived i.sources
    if 1 < rivals.length then
      some (.ambiguousFunction c.id i.signature (rivals.map Contract.name))
    else none

/-- Every issue of a project: missing parents, loops, and then contract by contract diamonds and
ambiguous functions. -/
def inheritanceIssues (p : Project) : List InheritanceIssue :=
  let graph := p.inheritance
  let cycles := graph.cycles
  p.missingParents ++ cycles.map .cycle
    ++ p.contracts.flatMap fun c =>
      if graph.meetsLoop cycles.flatten c.id then [] else p.diamonds c ++ p.ambiguities c

end Project

end ContractBlocks
