/-
# Generated source

The source of a contract together with its digest, by which equal sources are recognised.
-/

import ContractBlocks.Source.Contract
import ContractBlocks.Contract.Project
import ContractBlocks.Digest.Blake3

namespace ContractBlocks

/-- Source text with its digest. -/
structure GeneratedSource where
  text : String
  digest : String
deriving DecidableEq, Repr

namespace GeneratedSource

/-- Source text with its digest computed. -/
def ofText (text : String) : GeneratedSource := ⟨text, Digest.ofText text⟩

end GeneratedSource

/-- The source of the first contract of the given identity in the project. -/
def Project.generate? (p : Project) (id : ContractId) (o : SourceOptions) :
    Option GeneratedSource :=
  (p.contract? id).map fun c => .ofText (c.source p.contract? o)

end ContractBlocks
