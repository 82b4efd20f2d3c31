/-
# Rules

A rule looks at a block and its surroundings and reports findings. Nine rules are built in. Those
about statements look at code lines; the one about overrides needs the contract and a registry, and
the one about constants the contract.
-/

import ContractBlocks.Security.Finding
import ContractBlocks.Security.CodeLine
import ContractBlocks.Override.Basic

namespace ContractBlocks

/-- What a rule may see besides the block. -/
structure Surroundings where
  contract : Option Contract
  registry : Option Registry

/-- No surroundings. -/
def Surroundings.none : Surroundings := ⟨.none, .none⟩

/-- The surroundings of a block in a contract. -/
def Surroundings.ofContract (c : Contract) (registry : Registry) : Surroundings :=
  ⟨some c, some registry⟩

/-- A rule with the name that selects it. -/
structure Rule where
  name : String
  check : Surroundings → Block → List Finding

/-- The code lines of a block; a block without statements has none. -/
def Block.codeLines (b : Block) : List (List Char) :=
  match b.body? with
  | some body => Code.lines body.toList
  | none => []

namespace Rule

/-- Calls that hand control to another contract. -/
def externalCalls : List (List Char) :=
  [".call\x7b", ".call(", ".delegatecall(", ".staticcall(", ".send(", ".transfer("].map
    String.toList

/-- Calls that report failure by their result only. -/
def lowLevelCalls : List (List Char) :=
  [".call\x7b", ".call(", ".delegatecall(", ".staticcall(", ".send("].map String.toList

/-- How the names of privileged functions begin, in lower case. -/
def privilegedStarts : List (List Char) :=
  ["set", "withdraw", "mint", "burn", "pause", "unpause", "upgrade", "transferownership",
    "destroy", "kill"].map String.toList

/-- The modifiers that guard against reentrancy. -/
def guardModifiers : List String := ["nonReentrant", "noReentrancy"]

/-- One finding for each of the lines. -/
def perLine (lines : List (List Char)) (finding : Option String → Finding) : List Finding :=
  lines.map fun l => finding (some (String.ofList l))

/-- The finding of the reentrancy rule. -/
def reentrancyFinding (b : Block) (code : Option String) : Finding where
  hazard := .reentrancy
  message := "function '" ++ b.name ++ "' writes state after an external call"
  severity := .high
  component := b.id
  suggestion := some ("Update state before the external call (checks-effects-interactions) "
    ++ "or add a nonReentrant modifier")
  code := code

/-- The function carries a modifier that guards against reentrancy. -/
def isGuarded (f : FunctionBlock) : Bool :=
  f.modifiers.any fun m => guardModifiers.contains m.name

/-- The code writes state, as far as it can be told from a local declaration. -/
def writesState (line : List Char) : Bool := Code.isAssignment line && !Code.isLocalDeclaration line

/-- The first line with an external call that a line with a state write follows. -/
def callBeforeWrite? (lines : List (List Char)) : Option (List Char) :=
  match lines.dropWhile fun l => !Text.containsAny externalCalls l with
  | [] => none
  | call :: later => if later.any writesState then some call else none

/-- An external call with a state write after it, in a function without a guard. -/
def reentrancy : Rule where
  name := "reentrancy"
  check _ b := match b.function? with
    | none => []
    | some f =>
      if isGuarded f then []
      else perLine (callBeforeWrite? b.codeLines).toList (reentrancyFinding b)

/-- The finding of the rule about the origin of a transaction. -/
def txOriginFinding (b : Block) (code : Option String) : Finding where
  hazard := .txOrigin
  message := "'" ++ b.name ++ "' uses tx.origin"
  severity := .high
  component := b.id
  suggestion := some "Use msg.sender for authorization"
  code := code

/-- Authorization by the origin of the transaction. -/
def txOrigin : Rule where
  name := "tx-origin"
  check _ b :=
    perLine (b.codeLines.filter fun l => Text.contains "tx.origin".toList l) (txOriginFinding b)

/-- The finding of the rule about ignored results. -/
def uncheckedCallFinding (b : Block) (code : Option String) : Finding where
  hazard := .uncheckedCall
  message := "'" ++ b.name ++ "' ignores the result of a low-level call"
  severity := .medium
  component := b.id
  suggestion := some "Capture the returned success flag and require it"
  code := code

/-- How the lines begin that use the result of a call. -/
def resultUses : List (List Char) := ["require(", "if", "assert(", "return"].map String.toList

/-- The code has a low-level call and does nothing with the result. -/
def ignoresResult (line : List Char) : Bool :=
  Text.containsAny lowLevelCalls line && !Code.isAssignment line
    && !resultUses.any fun w => Text.startsWith w line

/-- A low-level call whose result is ignored. -/
def uncheckedCall : Rule where
  name := "unchecked-call"
  check _ b := perLine (b.codeLines.filter ignoresResult) (uncheckedCallFinding b)

/-- The finding of the rule about destruction. -/
def selfdestructFinding (b : Block) (code : Option String) : Finding where
  hazard := .selfdestruct
  message := "'" ++ b.name ++ "' can destroy the contract"
  severity := .critical
  component := b.id
  suggestion := some "Remove selfdestruct or restrict it behind a timelocked owner check"
  code := code

/-- The calls that destroy a contract. -/
def destructions : List (List Char) := ["selfdestruct(", "suicide("].map String.toList

/-- A call that destroys the contract. -/
def selfdestruct : Rule where
  name := "selfdestruct"
  check _ b :=
    perLine (b.codeLines.filter fun l => Text.containsAny destructions l) (selfdestructFinding b)

/-- The finding of the rule about access. -/
def accessControlFinding (b : Block) : Finding where
  hazard := .accessControl
  message := "privileged function '" ++ b.name ++ "' is callable by anyone"
  severity := .medium
  component := b.id
  suggestion := some "Add an access modifier such as onlyOwner or check msg.sender"
  code := none

/-- The name begins like that of a privileged function. -/
def isPrivilegedName (name : String) : Bool :=
  privilegedStarts.any fun p => Text.startsWith p (name.toList.map Char.toLower)

/-- Anyone may call the function, it may change state, and nothing in it asks who calls. -/
def isOpen (f : FunctionBlock) : Bool :=
  (f.visibility = .pub || f.visibility = .external) && !f.stateMutability.isReadOnly
    && f.modifiers.isEmpty && !Text.contains "msg.sender".toList f.body.toList

/-- A privileged function that anyone may call. -/
def accessControl : Rule where
  name := "access-control"
  check _ b := match b.function? with
    | none => []
    | some f => if isOpen f && isPrivilegedName b.name then [accessControlFinding b] else []

/-- The finding of the rule about block time. -/
def timestampFinding (b : Block) (code : Option String) : Finding where
  hazard := .timestampDependence
  message := "'" ++ b.name ++ "' depends on block time"
  severity := .low
  component := b.id
  suggestion := some "Avoid block values for randomness or tight deadlines"
  code := code

/-- The values that a block producer can bend. -/
def blockTimes : List (List Char) := ["block.timestamp", "block.number"].map String.toList

/-- The first use of block time. -/
def timestamp : Rule where
  name := "timestamp"
  check _ b :=
    perLine (b.codeLines.find? fun l => Text.containsAny blockTimes l).toList (timestampFinding b)

/-- The finding of the rule about loops. -/
def unboundedLoopFinding (b : Block) (code : Option String) : Finding where
  hazard := .unboundedLoop
  message := "'" ++ b.name ++ "' loops over unbounded data"
  severity := .low
  component := b.id
  suggestion := some "Bound the iteration count or paginate the work"
  code := code

/-- The code begins a loop over a dynamic length, or any conditional loop. -/
def loopsUnbounded (line : List Char) : Bool :=
  (Text.startsWith "for".toList line && Text.contains ".length".toList line)
    || Text.startsWith "while".toList line

/-- A loop without a bound. -/
def unboundedLoop : Rule where
  name := "unbounded-loop"
  check _ b := perLine (b.codeLines.filter loopsUnbounded) (unboundedLoopFinding b)

/-- The finding of the rule about overrides. -/
def orphanedOverrideFinding (b : Block) (conflict : OverrideConflict) : Finding where
  hazard := .orphanedOverride
  message := match conflict.kind with
    | .orphaned =>
      "'" ++ b.name ++ "' overrides " ++ conflict.functionId
        ++ " which is no longer inherited as virtual"
    | .incompatible =>
      "'" ++ b.name ++ "' overrides " ++ conflict.functionId ++ " with an incompatible signature"
  severity := .medium
  component := b.id
  suggestion := some "Remove the override or restore the parent contract link"
  code := none

/-- An override in conflict. -/
def orphanedOverride : Rule where
  name := "orphaned-override"
  check s b := match s.contract, s.registry with
    | some c, some registry => (b.conflicts c registry).map (orphanedOverrideFinding b)
    | _, _ => []

/-- The finding of the rule about constants. -/
def constantCandidateFinding (b : Block) : Finding where
  hazard := .constantCandidate
  message := "'" ++ b.name ++ "' is never written and could be constant"
  severity := .low
  component := b.id
  suggestion := some "Declare the variable constant to save gas"
  code := none

/-- Some code line of the contract writes to the name. -/
def isWritten (c : Contract) (name : String) : Bool :=
  c.blocks.any fun b => b.codeLines.any fun l => Code.writesTo l name.toList

/-- A mutable variable with an initial value that nothing in the contract writes to. -/
def constantCandidate : Rule where
  name := "constant-candidate"
  check s b := match s.contract, b.kind with
    | some c, .stateVariable v =>
      if v.mutability = .mutable && v.initialValue.isSome && !b.name.isEmpty && !isWritten c b.name
      then [constantCandidateFinding b] else []
    | _, _ => []

/-- The built-in rules in the order in which they run. -/
def builtin : List Rule :=
  [reentrancy, txOrigin, uncheckedCall, selfdestruct, accessControl, timestamp, unboundedLoop,
    orphanedOverride, constantCandidate]

/-- The built-in rule of the given name. -/
def ofName? (name : String) : Option Rule := builtin.find? fun r => r.name == name

end Rule

end ContractBlocks
