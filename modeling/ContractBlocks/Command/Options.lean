/-
# Command line options

Arguments are read from left to right against the options that a command knows. A long option has
its value behind an equals sign or in the next argument. Short options may share a dash; the first
that takes a value takes the rest of the argument, less an equals sign before it, or else the next
argument. The next argument is no value if it begins with a dash and has more behind it. Behind
two dashes everything is positional. A request for help ends the reading, so what stands behind it
does not count.
-/

namespace ContractBlocks
namespace Command

/-- An option. -/
structure OptionSpec where
  long : String
  short : Option Char
  /-- The values that the option takes; none for a flag. -/
  takes : Option (String → Bool)
  /-- The option may be given more than once. -/
  repeats : Bool

/-- An argument in its role. -/
inductive Item where
  | flag (long : String)
  | value (long : String) (text : String)
  | positional (text : String)
deriving DecidableEq, Repr

/-- A request for help. -/
def Item.help : Item := .flag "help"

/-- What has been read from one argument, and the option that still lacks its value, if any. -/
abbrev Reading := List Item × Option OptionSpec

/-- The argument could be a value: it is a lone dash or begins with none. -/
def isValueLike : List Char → Bool
  | '-' :: _ :: _ => false
  | _ => true

/-- The option with a value, if the option takes it. -/
def OptionSpec.withValue? (s : OptionSpec) (text : String) : Option Item :=
  match s.takes with
  | some accepts => if accepts text then some (.value s.long text) else none
  | none => none

/-- The option with a value in its own argument. -/
def OptionSpec.attached? (s : OptionSpec) (cs : List Char) : Option Reading :=
  (s.withValue? (String.ofList cs)).map fun i => ([i], none)

/-- Reads the letters behind a single dash. -/
def shortItems (specs : List OptionSpec) : List Char → Option Reading
  | [] => some ([], none)
  | c :: cs =>
    match specs.find? fun s => s.short == some c with
    | none => none
    | some s =>
      if s.takes.isSome then
        match cs with
        | [] => some ([], some s)
        | '=' :: v => s.attached? v
        | v => s.attached? v
      else if Item.flag s.long = .help then some ([.help], none)
      else (shortItems specs cs).map fun r => (.flag s.long :: r.1, r.2)

/-- Reads what stands behind a double dash. -/
def longItems (specs : List OptionSpec) (cs : List Char) : Option Reading :=
  let name := String.ofList (cs.takeWhile fun c => c != '=')
  match specs.find? fun s => s.long == name with
  | none => none
  | some s =>
    match cs.dropWhile fun c => c != '=' with
    | _ :: v => s.attached? v
    | [] => if s.takes.isSome then some ([], some s) else some ([.flag s.long], none)

/-- Reads the options of one argument; an argument that is no option is positional. -/
def argumentItems (specs : List OptionSpec) (arg : String) : Option Reading :=
  match arg.toList with
  | '-' :: '-' :: cs => longItems specs cs
  | '-' :: c :: cs => shortItems specs (c :: cs)
  | _ => some ([.positional arg], none)

/-- Reads arguments; `open?` is the option before them that lacks its value. -/
def items (specs : List OptionSpec) : Option OptionSpec → List String → Option (List Item)
  | none, [] => some []
  | some _, [] => none
  | some s, arg :: args =>
    if isValueLike arg.toList then do return (← s.withValue? arg) :: (← items specs none args)
    else none
  | none, arg :: args =>
    if arg = "--" then some (args.map .positional)
    else
      match argumentItems specs arg with
      | none => none
      | some (found, open?) =>
        if found.contains .help then some found else (items specs open? args).map (found ++ ·)

/-- The values given for an option. -/
def valuesOf (long : String) (is : List Item) : List String :=
  is.filterMap fun i => match i with
    | .value l v => if l = long then some v else none
    | _ => none

/-- The value given for an option. -/
def value? (long : String) (is : List Item) : Option String := (valuesOf long is).head?

/-- The positional arguments. -/
def positionals (is : List Item) : List String :=
  is.filterMap fun i => match i with
    | .positional v => some v
    | _ => none

/-- How often an option is given. -/
def OptionSpec.uses (s : OptionSpec) (is : List Item) : Nat :=
  is.count (.flag s.long) + (valuesOf s.long is).length

/-- No option is given too often, and there are not more positional arguments than a limit. -/
def withinLimits (specs : List OptionSpec) (limit : Nat) (is : List Item) : Bool :=
  decide ((positionals is).length ≤ limit) && specs.all fun s => s.repeats || decide (s.uses is ≤ 1)

end Command
end ContractBlocks
