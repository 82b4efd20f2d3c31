/-
# Commands

The six commands with their arguments, and how they are read from a command line. The option for
more log output may stand before and behind the name of a command, any number of times.
-/

import ContractBlocks.Command.Options
import ContractBlocks.Security.Finding
import ContractBlocks.Number.Numeral

namespace ContractBlocks

/-- How a contract is chosen: by identity or else by name, or the current one. -/
abbrev Selector := Option String

/-- What the command line may change about source options. -/
structure OptionChanges where
  license : Option String
  pragma : Option String
  indent : Option Nat
deriving DecidableEq, Repr

/-- A command with its arguments. -/
inductive Command where
  | generate (project : String) (contract : Selector) (config : Option String)
      (changes : OptionChanges) (output : Option String) (json : Bool)
  | check (project : String) (contract : Selector) (failOn : Option Severity)
  | overrides (project : String) (contract : Selector)
  | inheritance (project : String) (strict : Bool)
  | newComponent (tagName : String) (id name : Option String)
  | replay (script name : String)
deriving DecidableEq, Repr

/-- What a command line asks for. -/
inductive Request where
  | run (command : Command)
  | help
deriving DecidableEq, Repr

namespace Command

/-- A natural number below `2 ^ 64`, perhaps behind a plus sign. -/
def readNatural (s : String) : Option Nat :=
  let digits := match s.toList with
    | '+' :: cs => cs
    | cs => cs
  match Number.takeDigits digits with
  | (d :: ds, []) =>
    let n := Number.ofDigits (d :: ds)
    if n < UInt64.size then some n else none
  | _ => none

/-- The severity of a name. -/
def readSeverity (s : String) : Option Severity := Severity.all.find? fun v => v.name == s

/-- An option that is only given or not. -/
def flagSpec (long : String) : OptionSpec := ⟨long, none, none, false⟩

/-- An option with any text as its value. -/
def textSpec (long : String) (short : Option Char) : OptionSpec :=
  ⟨long, short, some fun _ => true, false⟩

/-- An option with a path as its value, which is not empty. -/
def pathSpec (long : String) (short : Option Char) : OptionSpec :=
  ⟨long, short, some fun v => v != "", false⟩

/-- An option with a value that must be readable. -/
def readableSpec {α : Type} (long : String) (read : String → Option α) : OptionSpec :=
  ⟨long, none, some fun v => (read v).isSome, false⟩

/-- The options that every command knows. -/
def globalSpecs : List OptionSpec :=
  [⟨"verbose", some 'v', none, true⟩, ⟨"help", some 'h', none, true⟩]

/-- The option that names the project. -/
def projectSpec : OptionSpec := pathSpec "project" (some 'p')

/-- The option that chooses a contract. -/
def contractSpec : OptionSpec := textSpec "contract" (some 'c')

/-- What a command takes: its own options, and at most so many positional arguments. -/
def forms : List (String × List OptionSpec × Nat) :=
  [("generate", [projectSpec, contractSpec, pathSpec "config" none, textSpec "license" none,
      textSpec "pragma" none, readableSpec "indent" readNatural, pathSpec "output" (some 'o'),
      flagSpec "json"], 0),
    ("check", [projectSpec, contractSpec, readableSpec "fail-on" readSeverity], 0),
    ("overrides", [projectSpec, contractSpec], 0),
    ("inheritance", [projectSpec, flagSpec "strict"], 0),
    ("new-component", [textSpec "id" none, textSpec "name" none], 1),
    ("replay", [pathSpec "script" (some 's'), textSpec "name" (some 'n')], 0)]

/-- A command from its name and the items behind it; none if it lacks something. -/
def ofItems? (name : String) (is : List Item) : Option Command :=
  let project := value? "project" is
  let contract := value? "contract" is
  match name with
  | "generate" => project.map fun p =>
    let indent := (value? "indent" is).bind readNatural
    .generate p contract (value? "config" is)
      ⟨value? "license" is, value? "pragma" is, indent⟩
      (value? "output" is) (is.contains (.flag "json"))
  | "check" => project.map fun p => .check p contract ((value? "fail-on" is).bind readSeverity)
  | "overrides" => project.map fun p => .overrides p contract
  | "inheritance" => project.map fun p => .inheritance p (is.contains (.flag "strict"))
  | "new-component" => (positionals is).head?.map fun tagName =>
    .newComponent tagName (value? "id" is) (value? "name" is)
  | "replay" => (value? "script" is).map fun s =>
    .replay s ((value? "name" is).getD "Contract")
  | _ => none

/-- What the arguments behind the name of a command ask for. -/
def ofArguments? (name : String) (args : List String) : Option Request := do
  let (own, limit) ← forms.lookup name
  let specs := globalSpecs ++ own
  let is ← items specs none args
  if withinLimits specs limit is then
    if is.contains .help then some .help else (ofItems? name is).map .run
  else none

/-- The word asks for help, perhaps on a command. -/
def helpOn? : List String → Option Request
  | [] => some .help
  | [name] => if name = "help" || (forms.lookup name).isSome then some .help else none
  | _ => none

end Command

/-- What a command line asks for; none if it fits no command. -/
def Request.ofArguments? : List String → Option Request
  | [] => none
  | arg :: args =>
    match arg.toList with
    | '-' :: _ :: _ =>
      match Command.argumentItems Command.globalSpecs arg with
      | some (found, _) => if found.contains .help then some .help else ofArguments? args
      | none => none
    | _ => if arg = "help" then Command.helpOn? args else Command.ofArguments? arg args

end ContractBlocks
