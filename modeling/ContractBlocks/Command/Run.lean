/-
# Running commands

What a command does, given how files are read and which identities new blocks get. The outcome is
what is printed, at most one file to save, and perhaps a complaint. Results are printed as pretty
documents; reports have the keys of their objects sorted, so of contracts with one name the last
is reported.
-/

import ContractBlocks.Command.Complaint
import ContractBlocks.Document.Project
import ContractBlocks.Document.Report
import ContractBlocks.Document.Script
import ContractBlocks.Inheritance.Linearization
import ContractBlocks.Json.Writer
import ContractBlocks.Security.Checker
import ContractBlocks.Validation.Contract

namespace ContractBlocks

/-- What a command comes to. -/
structure Outcome where
  stdout : String
  /-- A file to save, as its path and its text. -/
  saves : Option (String × String)
  complaint : Option Complaint
deriving DecidableEq, Repr

namespace Outcome

/-- The outcome that prints a text. -/
def printed (text : String) : Outcome := ⟨text, none, none⟩

/-- The outcome that ends in a complaint. -/
def failed (c : Complaint) : Outcome := ⟨"", none, some c⟩

/-- The exit code. -/
def code (o : Outcome) : Nat := (o.complaint.map Complaint.code).getD 0

/-- What is printed to standard error. -/
def stderr (o : Outcome) : String := (o.complaint.map Complaint.text).getD ""

/-- The outcome when the file could not be saved. -/
def unsaved (path cause : String) : Outcome := failed (.unwritable path cause)

end Outcome

/-- What a command may ask of the world. -/
structure World where
  /-- The text of a file, or why there is none. -/
  read : String → Except String String
  /-- The identity for the next new block, by the number of new blocks before it. -/
  fresh : Nat → BlockId

namespace World

/-- Why a text is no document of the kind that is wanted. -/
def notADocument : String := "not a document of the expected form"

/-- Reads a file as a document. -/
def load {α : Type} (w : World) (path : String) (d : Decoder α) : Except Complaint α :=
  match w.read path with
  | .error cause => .error (.unreadable path cause)
  | .ok text => match d.ofText? text with
    | some a => .ok a
    | none => .error (.notUnderstood path notADocument)

/-- Reads source options from a file. -/
def loadOptions (w : World) (path : String) : Except Complaint SourceOptions :=
  match w.read path with
  | .error cause => .error (.badConfig path cause)
  | .ok text => match SourceOptions.decode.ofText? text with
    | some o => .ok o
    | none => .error (.badConfig path notADocument)

end World

/-- The contract that a selector chooses. -/
def Project.select? (p : Project) : Selector → Option Contract
  | some s => (p.contract? s).or (p.byName? s)
  | none => p.current?

/-- The chosen contract, or the complaint that there is none. -/
def Project.select (p : Project) (s : Selector) : Except Complaint Contract :=
  match p.select? s with
  | some c => .ok c
  | none => .error (.noContract s)

/-- The options with the changes of the command line. -/
def OptionChanges.apply (changes : OptionChanges) (o : SourceOptions) : SourceOptions where
  pragma := changes.pragma.getD o.pragma
  license := changes.license.or o.license
  indent := changes.indent.getD o.indent

namespace Command

/-- The files that a command reads. -/
def inputs : Command → List String
  | .generate project _ config _ _ _ => project :: config.toList
  | .check project _ _ | .overrides project _ | .inheritance project _ => [project]
  | .newComponent _ _ _ => []
  | .replay script _ => [script]

/-- A document as it is printed. -/
def printDocument (j : Json) : String := j.pretty ++ "\n"

/-- A report as it is printed, with sorted keys. -/
def printReport (j : Json) : String := printDocument j.sorted

/-- Generates the source of the chosen contract, if it is valid. -/
def runGenerate (w : World) (project : String) (s : Selector) (config : Option String)
    (changes : OptionChanges) (output : Option String) (json : Bool) :
    Except Complaint Outcome := do
  let p ← w.load project Project.decode
  let base ← match config with
    | some path => w.loadOptions path
    | none => .ok .standard
  let c ← p.select s
  if c.violations.isEmpty then
    match p.generate? c.id (changes.apply base) with
    | none => .error (.noContract s)
    | some source =>
      if json then .ok (.printed (printDocument source.encode))
      else match output with
        | some path => .ok ⟨"", some (path, source.text), none⟩
        | none => .ok (.printed source.text)
  else .error (.invalid c.name c.violations)

/-- The contracts to check: the chosen one, or all. -/
def checked (p : Project) (s : Selector) : Except Complaint (List Contract) :=
  match s with
  | some _ => (p.select s).map fun c => [c]
  | none => .ok p.contracts

/-- The complaint about the most serious finding, if it is at least as serious as the threshold. -/
def exceeds (threshold worst : Option Severity) : Option Complaint :=
  match threshold, worst with
  | some t, some found => if t.atMost found then some (.severeFindings t) else none
  | _, _ => none

/-- What a check has come to: the report by contract name, and the most serious severity. -/
structure CheckResult where
  report : List (String × Json)
  worst : Option Severity

/-- Nothing has been checked. -/
def CheckResult.empty : CheckResult := ⟨[], none⟩

/-- Checks one more contract; in the report its findings take the place of those in a contract of the
same name. -/
def CheckResult.add (p : Project) (r : CheckResult) (c : Contract) : CheckResult :=
  let findings := Checker.builtin.checkContract c p.contract?
  { report := Json.insertSorted c.name (.ofList Finding.encode findings) r.report
    worst := Severity.max? r.worst (Finding.highest? findings) }

/-- Checks contracts and reports the findings by contract name. -/
def runCheck (w : World) (project : String) (s : Selector) (failOn : Option Severity) :
    Except Complaint Outcome := do
  let p ← w.load project Project.decode
  let contracts ← checked p s
  let result := contracts.foldl (CheckResult.add p) .empty
  return ⟨printReport (.object result.report), none, exceeds failOn result.worst⟩

/-- Reports the overridable functions of the chosen contract, and the overrides of its functions. -/
def runOverrides (w : World) (project : String) (s : Selector) : Except Complaint Outcome := do
  let p ← w.load project Project.decode
  let c ← p.select s
  let overridable := (c.overridable p.contract?).map fun f => Json.object
    [("id", .string f.id), ("name", .string f.name), ("sourceContract", .string f.sourceContract),
      ("signature", .string f.signature)]
  let functions := c.functions.map fun f => Json.object
    [("id", .string f.1.id), ("name", .string f.1.name),
      ("overrides", .ofList StoredOverride.encode f.1.overrides),
      ("conflicts", .ofNat (f.1.conflicts c p.contract?).length)]
  return .printed (printReport (.object [("contract", .string c.name),
    ("overridable", .array overridable), ("functions", .array functions)]))

/-- Reports the inheritance issues of a project, and the linearization of every contract by name. -/
def runInheritance (w : World) (project : String) (strict : Bool) : Except Complaint Outcome := do
  let p ← w.load project Project.decode
  let issues := p.inheritanceIssues
  let order := p.contracts.map fun c =>
    (c.name, Json.ofOption (.ofList .string) (p.linearize c.id))
  let report := Json.object
    [("issues", .ofList InheritanceIssue.encode issues), ("linearization", .object order)]
  let complaint :=
    if strict && !issues.isEmpty then some (.inheritanceIssues issues.length) else none
  return ⟨printReport report, none, complaint⟩

/-- Prints a new block at the origin of the canvas. -/
def runNewComponent (w : World) (tagName : String) (id name : Option String) :
    Except Complaint Outcome :=
  match Block.create (id.getD (w.fresh 0)) tagName { Seed.empty with name := name } with
  | .ok b => .ok (.printed (printDocument (b.place .origin).encode))
  | .error e => .error (.refused e)

/-- Applies operations in order; `index` counts those before them. -/
def replayFrom (w : World) (index : Nat) (space : Workspace) :
    List Operation → Except Complaint Workspace
  | [] => .ok space
  | op :: ops => match space.apply (w.fresh index) op with
    | .ok next => replayFrom w (index + 1) next ops
    | .error e => .error (.operationRefused index e)

/-- Replays a script from an empty workspace and prints the source it comes to. -/
def runReplay (w : World) (script name : String) : Except Complaint Outcome := do
  let ops ← w.load script (.list Operation.decode)
  let space ← replayFrom w 0 (.ofComponents []) ops
  return .printed (Source.ofComponents .standard name space.components)

/-- Runs a command up to a complaint that leaves nothing to print. -/
def attempt (w : World) : Command → Except Complaint Outcome
  | .generate project s config changes output json =>
    runGenerate w project s config changes output json
  | .check project s failOn => runCheck w project s failOn
  | .overrides project s => runOverrides w project s
  | .inheritance project strict => runInheritance w project strict
  | .newComponent tagName id name => runNewComponent w tagName id name
  | .replay script name => runReplay w script name

/-- Runs a command. -/
def run (w : World) (c : Command) : Outcome :=
  match attempt w c with
  | .ok o => o
  | .error complaint => .failed complaint

end Command

/-- The summary of the command line. -/
def helpText : String :=
  String.join (["Tools for contracts built from visual blocks", "",
    "  generate -p FILE [-c CONTRACT] [--config FILE] [--license ID] [--pragma LINE] [--indent N] "
      ++ "[-o FILE] [--json]",
    "  check -p FILE [-c CONTRACT] [--fail-on low|medium|high|critical]",
    "  overrides -p FILE [-c CONTRACT]",
    "  inheritance -p FILE [--strict]",
    "  new-component TYPE [--id ID] [--name NAME]",
    "  replay -s FILE [-n NAME]"].map fun l => l ++ "\n")

/-- The files that a command line reads. -/
def inputsOf (args : List String) : List String :=
  match Request.ofArguments? args with
  | some (.run c) => c.inputs
  | _ => []

/-- Runs a command line. -/
def runArguments (w : World) (args : List String) : Outcome :=
  match Request.ofArguments? args with
  | some (.run c) => c.run w
  | some .help => .printed helpText
  | none => .failed .usage

end ContractBlocks
