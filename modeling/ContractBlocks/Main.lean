/-
# The program

Reads the arguments, lets the command run on the file system, saves what it asks for, and prints.
-/

import ContractBlocks.Command.Run
import ContractBlocks.Block.Identity

namespace ContractBlocks

/-- The text of a file, or why it cannot be read. -/
def readFile (path : String) : IO (Except String String) := do
  try
    return .ok (← IO.FS.readFile path)
  catch e => return .error (toString e)

/-- Prints an outcome and gives its exit code. -/
def finish (o : Outcome) : IO UInt32 := do
  IO.print o.stdout
  IO.eprint o.stderr
  return o.code.toUInt32

/-- Runs a command line on the file system. -/
def runOnFiles (args : List String) : IO UInt32 := do
  let files ← (inputsOf args).mapM fun path => do return (path, ← readFile path)
  let seed ← IO.rand 0 ((1 <<< 122) - 1)
  let outcome := runArguments
    { read := fun path => (files.lookup path).getD (.error "no such file")
      fresh := fun n => BlockId.ofBits (seed + n) } args
  match outcome.saves with
  | none => finish outcome
  | some (path, text) =>
    try
      IO.FS.writeFile path text
      finish outcome
    catch e => finish (.unsaved path (toString e))

end ContractBlocks

def main (args : List String) : IO UInt32 := ContractBlocks.runOnFiles args
