/-
# Contract source

The source of a contract is an optional license comment, the pragma, an empty line, the header, the
texts of its blocks with an empty line between them, and the closing brace. Each text is moved in by
one level as a whole, so a body, which its block has moved in already, ends up two levels deep. A
function is followed by the overrides that are kept with it, as far as the function they replace may
still be overridden.
-/

import ContractBlocks.Source.Fragment

namespace ContractBlocks

/-- What may be chosen about source text. -/
structure SourceOptions where
  /-- The first line of the source, or the second behind a license. -/
  pragma : String
  /-- The SPDX identifier of the license. -/
  license : Option String
  /-- The width of one level in spaces. -/
  indent : Nat
deriving DecidableEq, Repr

/-- The options where nothing is chosen. -/
def SourceOptions.standard : SourceOptions := ⟨"pragma solidity ^0.8.0;", none, 4⟩

namespace Source

/-- The text before the header. -/
def preludeText (o : SourceOptions) : String :=
  (match o.license with
    | some l => "// SPDX-License-Identifier: " ++ l ++ "\n"
    | none => "") ++ o.pragma ++ "\n\n"

/-- The header of a contract with the names of its parents. -/
def header (name : String) (parents : List String) : String :=
  if parents.isEmpty then "contract " ++ name ++ " \x7b"
  else "contract " ++ name ++ " is " ++ String.intercalate ", " parents ++ " \x7b"

/-- A source file put together from a header and the texts of its blocks. -/
def assemble (o : SourceOptions) (header : String) (blocks : List String) : String :=
  preludeText o ++ header ++ "\n"
    ++ String.ofList (['\n'].intercalate (blocks.map fun b => indented o.indent b.toList)) ++ "\x7d\n"

/-- The text of a source file with the given fragments. -/
def fileText (o : SourceOptions) (header : String) (fragments : List Fragment) : String :=
  assemble o header (fragments.map fun f => String.ofList (f.text o.indent))

/-- The fragments of placed blocks that have a source form. -/
def fragments (components : List Placed) : List Fragment :=
  components.filterMap fun p => p.block.fragment?

/-- The source of placed blocks as a contract without parents. -/
def ofComponents (o : SourceOptions) (name : String) (components : List Placed) : String :=
  fileText o (header name []) (fragments components)

end Source

/-- The text of a block by itself, if it has a source form. -/
def Block.source? (b : Block) (o : SourceOptions) : Option String :=
  b.fragment?.map fun f => String.ofList (f.text o.indent)

/-- The functions that the overrides kept with a block become. -/
def Block.overrideFragments (b : Block) (overridable : List OverridableFunction) : List Fragment :=
  b.overrides.filterMap fun o => match o.target? overridable with
    | some target => if o.isCompatible target then some (o.fragment target) else none
    | none => none

namespace Contract

/-- Some function of the contract keeps an override. -/
def keepsOverrides (c : Contract) : Bool := c.functions.any fun f => !f.2.overrides.isEmpty

/-- The fragments of a contract: each block's own, then those of its overrides. What may be
overridden is only asked for if an override is kept. -/
def fragments (c : Contract) (registry : Registry) : List Fragment :=
  let overridable := if c.keepsOverrides then c.overridable registry else []
  c.blocks.flatMap fun b => b.fragment?.toList ++ b.overrideFragments overridable

/-- The source of a contract. -/
def source (c : Contract) (registry : Registry) (o : SourceOptions) : String :=
  Source.fileText o (Source.header c.name ((c.knownParents registry).map Contract.name))
    (c.fragments registry)

end Contract

end ContractBlocks
