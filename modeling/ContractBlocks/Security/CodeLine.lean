/-
# Code lines

Rules look at the statements of a block line by line. The code on a line is what stands before the
first `//`, without blank characters around it; lines without code are left out. Code is judged by
its characters alone, it is not parsed.
-/

import ContractBlocks.Text.Lines
import ContractBlocks.Text.Search
import ContractBlocks.Text.Alphanumeric

namespace ContractBlocks
namespace Code

/-- What stands before the first `//` of a line. -/
def beforeComment (line : List Char) : List Char :=
  match Text.cut? ['/', '/'] line with
  | some (code, _) => code
  | none => line

/-- The lines of code in a text. -/
def lines (text : List Char) : List (List Char) :=
  ((Text.lines text).map fun l => Text.trim (beforeComment l)).filter fun l => !l.isEmpty

/-- An equals sign behind this character is part of a comparison. -/
def comparesBefore (c : Char) : Bool := c == '=' || c == '!' || c == '<' || c == '>'

/-- An equals sign in front of this character is part of a comparison or an arrow. -/
def comparesBehind (c : Char) : Bool := c == '=' || c == '>'

/-- The code behind `before` has an assignment: an equals sign that is no part of `==`, `=>`, `!=`,
`<=` or `>=`. -/
def assignsAfter (before : Char) : List Char → Bool
  | [] => false
  | c :: cs =>
    (c == '=' && !comparesBefore before && !comparesBehind (cs.head?.getD ' ')) || assignsAfter c cs

/-- The code has an assignment. -/
def isAssignment (line : List Char) : Bool := assignsAfter ' ' line

/-- How the lines begin that are taken for declarations of local variables. -/
def localStarts : List String := ["uint", "int", "address", "bool", "bytes", "string", "("]

/-- The code is taken for the declaration of local variables. -/
def isLocalDeclaration (line : List Char) : Bool :=
  localStarts.any fun t => Text.startsWith t.toList line

/-- The operators that write to the name before them. -/
def writeOperators : List String := ["+=", "-=", "*=", "/=", "++", "--"]

/-- What follows a name writes to it: an equals sign by itself, an operator that writes, or an index
with an assignment behind it. -/
def isWrite (rest : List Char) : Bool :=
  (Text.startsWith ['='] rest && !Text.startsWith ['=', '='] rest)
    || (writeOperators.any fun op => Text.startsWith op.toList rest)
    || (Text.startsWith ['['] rest && isAssignment rest)

/-- A name may stand behind this character without being the end of a longer name or a member. -/
def isBoundary (c : Char) : Bool := !(Text.isAlphanumeric c || c == '_' || c == '.')

/-- One of the occurrences of the name, each looked for behind the one before, is a write. -/
def writesAt (name line : List Char) : Bool :=
  if _hn : name = [] then false
  else match _h : Text.cut? name line with
    | none => false
    | some (before, after) =>
      (before.getLast?.all isBoundary && isWrite (Text.trimStart after)) || writesAt name after
termination_by line.length
decreasing_by
  have := Text.length_after_cut? _h
  have := List.length_pos_iff.2 _hn
  omega

/-- The code writes to the name, or deletes it. -/
def writesTo (line name : List Char) : Bool :=
  !name.isEmpty && (Text.startsWith ("delete ".toList ++ name) line || writesAt name line)

end Code
end ContractBlocks
