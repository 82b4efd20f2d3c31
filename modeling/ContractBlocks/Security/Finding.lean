/-
# Findings

A finding names a hazard in a block, how severe it is, and perhaps a remedy and the line of code.
-/

import ContractBlocks.Block.Basic

namespace ContractBlocks

/-- How serious a finding is. -/
inductive Severity where
  | low
  | medium
  | high
  | critical
deriving DecidableEq, Repr

namespace Severity

/-- Every severity, from the least to the most serious. -/
def all : List Severity := [.low, .medium, .high, .critical]

/-- The name of a severity. -/
def name : Severity → String
  | .low => "low"
  | .medium => "medium"
  | .high => "high"
  | .critical => "critical"

/-- The name of a severity at the start of a sentence. -/
def title : Severity → String
  | .low => "Low"
  | .medium => "Medium"
  | .high => "High"
  | .critical => "Critical"

/-- The place of a severity in the order of seriousness. -/
def rank : Severity → Nat
  | .low => 0
  | .medium => 1
  | .high => 2
  | .critical => 3

/-- The first severity is no more serious than the second. -/
def atMost (a b : Severity) : Bool := a.rank ≤ b.rank

/-- The more serious of two severities. -/
def max (a b : Severity) : Severity := if a.atMost b then b else a

/-- The more serious of two severities, where there may be none. -/
def max? : Option Severity → Option Severity → Option Severity
  | some a, some b => some (a.max b)
  | some a, none => some a
  | none, b => b

end Severity

/-- What a finding is about. -/
inductive Hazard where
  | reentrancy
  | txOrigin
  | uncheckedCall
  | selfdestruct
  | accessControl
  | timestampDependence
  | unboundedLoop
  | orphanedOverride
  | constantCandidate
deriving DecidableEq, Repr

namespace Hazard

/-- Every hazard. -/
def all : List Hazard :=
  [.reentrancy, .txOrigin, .uncheckedCall, .selfdestruct, .accessControl, .timestampDependence,
    .unboundedLoop, .orphanedOverride, .constantCandidate]

/-- The name of a hazard. -/
def name : Hazard → String
  | .reentrancy => "reentrancy"
  | .txOrigin => "txOrigin"
  | .uncheckedCall => "uncheckedCall"
  | .selfdestruct => "selfdestruct"
  | .accessControl => "accessControl"
  | .timestampDependence => "timestampDependence"
  | .unboundedLoop => "unboundedLoop"
  | .orphanedOverride => "orphanedOverride"
  | .constantCandidate => "constantCandidate"

end Hazard

/-- A finding. -/
structure Finding where
  hazard : Hazard
  message : String
  severity : Severity
  /-- The block that the finding is about. -/
  component : BlockId
  suggestion : Option String
  /-- The line of code that gives rise to the finding. -/
  code : Option String
deriving DecidableEq, Repr

/-- The most serious severity among findings. -/
def Finding.highest? (fs : List Finding) : Option Severity :=
  fs.foldl (fun worst f => Severity.max? worst (some f.severity)) none

end ContractBlocks
