/-
# Report documents

How the results of analyses and of generation are written as documents and read back: violations and
inheritance issues, which carry their tag under `kind`, findings, overridable functions, conflicts,
generated source, and the options it is generated with.
-/

import ContractBlocks.Document.Block
import ContractBlocks.Validation.Violation
import ContractBlocks.Inheritance.Issue
import ContractBlocks.Security.Finding
import ContractBlocks.Source.Generated

namespace ContractBlocks

namespace Violation

/-- The tag of a violation. -/
def kindName : Violation → String
  | .invalidIdentifier _ _ => "invalidIdentifier"
  | .missingType _ _ => "missingType"
  | .externalStateDeclaration _ => "externalStateDeclaration"
  | .constantWithoutValue _ _ => "constantWithoutValue"
  | .emptyMembers _ _ => "emptyMembers"
  | .duplicateName _ _ => "duplicateName"
  | .invalidMappingKey _ _ => "invalidMappingKey"
  | .zeroLengthArray _ => "zeroLengthArray"
  | .duplicateId _ => "duplicateId"

/-- The fields of a violation beside the block it is about. -/
def details : Violation → List (String × Json)
  | .invalidIdentifier _ n | .constantWithoutValue _ n | .emptyMembers _ n | .duplicateName _ n =>
    [("name", .string n)]
  | .missingType _ f => [("field", .string f)]
  | .invalidMappingKey _ k => [("key_type", .string k)]
  | .externalStateDeclaration _ | .zeroLengthArray _ | .duplicateId _ => []

/-- The fields of a violation. -/
def fields (v : Violation) : List (String × Json) :=
  ("kind", .string v.kindName) :: ("component", .string v.component) :: v.details

/-- A violation is written as an object with its tag first. -/
def encode (v : Violation) : Json := .object v.fields

/-- A violation that is about a block and nothing else. -/
def caseOfBlock (f : BlockId → Violation) : List String × (Record → Option Violation) :=
  (["component"], fun r => (r.required "component" .string).map f)

/-- A violation that is about a block and a text. -/
def caseOfText (name : String) (f : BlockId → String → Violation) :
    List String × (Record → Option Violation) :=
  (["component", name], fun r => do
    let component ← r.required "component" .string
    let text ← r.required name .string
    return f component text)

/-- The fields of each violation, and the violation that they make. -/
def cases : String → Option (List String × (Record → Option Violation))
  | "invalidIdentifier" => some (caseOfText "name" .invalidIdentifier)
  | "missingType" => some (caseOfText "field" .missingType)
  | "externalStateDeclaration" => some (caseOfBlock .externalStateDeclaration)
  | "constantWithoutValue" => some (caseOfText "name" .constantWithoutValue)
  | "emptyMembers" => some (caseOfText "name" .emptyMembers)
  | "duplicateName" => some (caseOfText "name" .duplicateName)
  | "invalidMappingKey" => some (caseOfText "key_type" .invalidMappingKey)
  | "zeroLengthArray" => some (caseOfBlock .zeroLengthArray)
  | "duplicateId" => some (caseOfBlock .duplicateId)
  | _ => none

/-- A violation is read by its tag. -/
def decode : Decoder Violation := .tagged "kind" cases

end Violation

namespace InheritanceIssue

/-- The fields of an issue. -/
def fields : InheritanceIssue → List (String × Json)
  | .missingParent c p =>
    [("kind", .string "missingParent"), ("contract", .string c), ("parent", .string p)]
  | .cycle ms => [("kind", .string "cycle"), ("members", .ofList .string ms)]
  | .diamond c a =>
    [("kind", .string "diamond"), ("contract", .string c), ("ancestor", .string a)]
  | .ambiguousFunction c s ss =>
    [("kind", .string "ambiguousFunction"), ("contract", .string c), ("signature", .string s),
      ("sources", .ofList .string ss)]

/-- An issue is written as an object with its tag first. -/
def encode (i : InheritanceIssue) : Json := .object i.fields

/-- The fields of each issue, and the issue that they make. -/
def cases : String → Option (List String × (Record → Option InheritanceIssue))
  | "missingParent" => some (["contract", "parent"], fun r => do
    let contract ← r.required "contract" .string
    let parent ← r.required "parent" .string
    return .missingParent contract parent)
  | "cycle" => some (["members"], fun r => (r.required "members" (.list .string)).map .cycle)
  | "diamond" => some (["contract", "ancestor"], fun r => do
    let contract ← r.required "contract" .string
    let ancestor ← r.required "ancestor" .string
    return .diamond contract ancestor)
  | "ambiguousFunction" => some (["contract", "signature", "sources"], fun r => do
    let contract ← r.required "contract" .string
    let signature ← r.required "signature" .string
    let sources ← r.required "sources" (.list .string)
    return .ambiguousFunction contract signature sources)
  | _ => none

/-- An issue is read by its tag. -/
def decode : Decoder InheritanceIssue := .tagged "kind" cases

end InheritanceIssue

namespace Severity

/-- A severity is written as its name. -/
def encode (s : Severity) : Json := .string s.name

/-- A severity is read from its name. -/
def decode : Decoder Severity := .oneOf all name

end Severity

namespace Hazard

/-- A hazard is written as its name. -/
def encode (h : Hazard) : Json := .string h.name

/-- A hazard is read from its name. -/
def decode : Decoder Hazard := .oneOf all name

end Hazard

namespace Finding

/-- A finding leaves out a remedy and a line of code that it does not have. -/
def encode (f : Finding) : Json :=
  .object ([("type", f.hazard.encode), ("message", .string f.message),
    ("severity", f.severity.encode), ("component", .string f.component)]
    ++ Json.fieldOf "suggestion" .string f.suggestion ++ Json.fieldOf "code" .string f.code)

/-- A finding may do without a remedy and a line of code. -/
def decode : Decoder Finding :=
  .record ["type", "message", "severity", "component", "suggestion", "code"] fun r => do
    let hazard ← r.required "type" Hazard.decode
    let message ← r.required "message" .string
    let severity ← r.required "severity" Severity.decode
    let component ← r.required "component" .string
    let suggestion ← r.optional "suggestion" .string
    let code ← r.optional "code" .string
    return ⟨hazard, message, severity, component, suggestion, code⟩

end Finding

namespace OverridableFunction

/-- An overridable function is written with all its fields. -/
def encode (f : OverridableFunction) : Json :=
  .object [("id", .string f.id), ("name", .string f.name), ("visibility", f.visibility.encode),
    ("stateMutability", f.stateMutability.encode),
    ("parameters", Parameter.encodeList f.parameters),
    ("returnParameters", Parameter.encodeList f.returns), ("isVirtual", .bool f.isVirtual),
    ("sourceContract", .string f.sourceContract), ("body", .string f.body)]

/-- An overridable function needs all its fields. -/
def decode : Decoder OverridableFunction :=
  .record ["id", "name", "visibility", "stateMutability", "parameters", "returnParameters",
      "isVirtual", "sourceContract", "body"] fun r => do
    let id ← r.required "id" .string
    let name ← r.required "name" .string
    let visibility ← r.required "visibility" Visibility.decode
    let stateMutability ← r.required "stateMutability" StateMutability.decode
    let parameters ← r.required "parameters" (.list Parameter.decode)
    let returns ← r.required "returnParameters" (.list Parameter.decode)
    let isVirtual ← r.required "isVirtual" .bool
    let sourceContract ← r.required "sourceContract" .string
    let body ← r.required "body" .string
    return ⟨id, name, visibility, stateMutability, parameters, returns, isVirtual, sourceContract,
      body⟩

end OverridableFunction

namespace OverrideConflict

/-- A conflict is written as the function and the kind of conflict. -/
def encode (c : OverrideConflict) : Json :=
  .object [("functionId", .string c.functionId), ("kind", .string c.kind.name)]

/-- A conflict needs the function and the kind of conflict. -/
def decode : Decoder OverrideConflict :=
  .record ["functionId", "kind"] fun r => do
    let functionId ← r.required "functionId" .string
    let kind ← r.required "kind" (.oneOf ConflictKind.all ConflictKind.name)
    return ⟨functionId, kind⟩

end OverrideConflict

namespace GeneratedSource

/-- Generated source is written as its text and its digest. -/
def encode (s : GeneratedSource) : Json :=
  .object [("text", .string s.text), ("digest", .string s.digest)]

/-- Generated source is taken as it is: the digest is not computed again. -/
def decode : Decoder GeneratedSource :=
  .record ["text", "digest"] fun r => do
    let text ← r.required "text" .string
    let digest ← r.required "digest" .string
    return ⟨text, digest⟩

end GeneratedSource

namespace SourceOptions

/-- Source options are written with all fields; a missing license is `null`. -/
def encode (o : SourceOptions) : Json :=
  .object [("pragma", .string o.pragma), ("license", .ofOption .string o.license),
    ("indent", .ofNat o.indent)]

/-- Options that are missing, also at the end of an array, are the standard ones. -/
def decode : Decoder SourceOptions :=
  .record ["pragma", "license", "indent"] fun r => do
    let pragma ← r.withDefault "pragma" .string standard.pragma
    let license ← r.withDefault "license" (.nullable .string) standard.license
    let indent ← r.withDefault "indent" .natural standard.indent
    return ⟨pragma, license, indent⟩

end SourceOptions

end ContractBlocks
