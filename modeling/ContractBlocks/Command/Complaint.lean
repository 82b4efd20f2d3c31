/-
# Complaints

A command that does not succeed ends with a complaint. The complaint settles the exit code: 1 if
there is nothing valid to work on, 2 for a kind of block that does not exist, for findings and
issues that count as failure, and for arguments that fit no command, and 3 if a file cannot be
read, understood or written.
-/

import ContractBlocks.Validation.Violation
import ContractBlocks.Block.EditError
import ContractBlocks.Command.Arguments

namespace ContractBlocks

/-- Why a command does not succeed. -/
inductive Complaint where
  | unreadable (path cause : String)
  | notUnderstood (path cause : String)
  | badConfig (path cause : String)
  | unwritable (path cause : String)
  | noContract (selector : Selector)
  | invalid (contract : String) (violations : List Violation)
  | severeFindings (threshold : Severity)
  | inheritanceIssues (count : Nat)
  | refused (error : EditError)
  | operationRefused (index : Nat) (error : EditError)
  | usage
deriving DecidableEq, Repr

namespace Complaint

/-- The exit code of a refused edit. -/
def editCode : EditError → Nat
  | .unsupportedKind _ => 2
  | _ => 1

/-- The exit code. -/
def code : Complaint → Nat
  | .unreadable _ _ | .notUnderstood _ _ | .badConfig _ _ | .unwritable _ _ => 3
  | .noContract _ | .invalid _ _ => 1
  | .severeFindings _ | .inheritanceIssues _ | .usage => 2
  | .refused e | .operationRefused _ e => editCode e

/-- The complaint about a file, and its cause. -/
def aboutFile (what path cause : String) : String :=
  "Error: failed to " ++ what ++ " '" ++ path ++ "': " ++ cause

/-- The complaint in lines. -/
def lines : Complaint → List String
  | .unreadable path cause => [aboutFile "read" path cause]
  | .notUnderstood path cause => [aboutFile "parse" path cause]
  | .badConfig path cause => [aboutFile "load config" path cause]
  | .unwritable path cause => [aboutFile "write" path cause]
  | .noContract (some s) => ["Error: contract '" ++ s ++ "' not found"]
  | .noContract none => ["Error: project has no contracts"]
  | .invalid name vs =>
    ("Validation failed for '" ++ name ++ "' with " ++ Nat.repr vs.length ++ " error(s):")
      :: vs.map fun v => "  - " ++ v.message
  | .severeFindings threshold => ["Found issues at or above " ++ threshold.title]
  | .inheritanceIssues n => ["Found " ++ Nat.repr n ++ " inheritance issue(s)"]
  | .refused e => ["Error: " ++ e.message]
  | .operationRefused i e => ["Error: operation " ++ Nat.repr i ++ " failed: " ++ e.message]
  | .usage => ["Error: the arguments fit no command; see --help"]

/-- The complaint as it is printed. -/
def text (c : Complaint) : String := String.join (c.lines.map fun l => l ++ "\n")

end Complaint

end ContractBlocks
