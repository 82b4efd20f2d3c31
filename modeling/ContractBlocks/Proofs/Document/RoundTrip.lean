/-
# What is read is read again as it was

A document may be an object or an array, leave out what has a default, say `null`, hold unknown fields
and repeat the keys of a map.  Written, all that is gone: each value has one compact and one pretty
text.  Both are read as that very value, with its maps in the same order, and written from there they
are the same texts again (`DocumentType.read_written`).

Only a double may be read as its neighbour, since the reader rounds more than once.  So the doubles of
the value are asked to be read from the text that they are written as; for a value without doubles
nothing is asked.
-/

import ContractBlocks.Proofs.Document.Project
import ContractBlocks.Proofs.Document.Report
import ContractBlocks.Proofs.Document.Script

namespace ContractBlocks

/-- The types of documents that are exchanged. -/
inductive DocumentType where
  | project
  | contract
  | placed
  | block
  | patch
  | seed
  | operation
  | options
  | violation
  | inheritanceIssue
  | finding
  | overridable
deriving DecidableEq, Repr

namespace DocumentType

/-- The values of a type. -/
def Carrier : DocumentType → Type
  | .project => Project
  | .contract => Contract
  | .placed => Placed
  | .block => Block
  | .patch => Patch
  | .seed => Seed
  | .operation => Operation
  | .options => SourceOptions
  | .violation => Violation
  | .inheritanceIssue => InheritanceIssue
  | .finding => Finding
  | .overridable => OverridableFunction

/-- How a value of a type is read. -/
def decode : (t : DocumentType) → Decoder t.Carrier
  | .project => Project.decode
  | .contract => Contract.decode
  | .placed => Placed.decode
  | .block => Block.decode
  | .patch => Patch.decode
  | .seed => Seed.decode
  | .operation => Operation.decode
  | .options => SourceOptions.decode
  | .violation => Violation.decode
  | .inheritanceIssue => InheritanceIssue.decode
  | .finding => Finding.decode
  | .overridable => OverridableFunction.decode

/-- How a value of a type is written. -/
def encode : (t : DocumentType) → t.Carrier → Json
  | .project => Project.encode
  | .contract => Contract.encode
  | .placed => Placed.encode
  | .block => Block.encode
  | .patch => Patch.encode
  | .seed => Seed.encode
  | .operation => Operation.encode
  | .options => SourceOptions.encode
  | .violation => Violation.encode
  | .inheritanceIssue => InheritanceIssue.encode
  | .finding => Finding.encode
  | .overridable => OverridableFunction.encode

/-- Every type is decoded faithfully, with far less room than a text begins with. -/
theorem faithful (t : DocumentType) : ∃ need ≤ 127, t.decode.Faithful t.encode need := by
  cases t with
  | project => exact ⟨9, by decide, Project.faithful⟩
  | contract => exact ⟨7, by decide, Contract.faithful⟩
  | placed => exact ⟨5, by decide, Placed.faithful⟩
  | block => exact ⟨4, by decide, Block.faithful⟩
  | patch => exact ⟨3, by decide, Patch.faithful⟩
  | seed => exact ⟨2, by decide, Seed.faithful⟩
  | operation => exact ⟨4, by decide, Operation.faithful⟩
  | options => exact ⟨1, by decide, SourceOptions.faithful⟩
  | violation => exact ⟨1, by decide, Violation.faithful⟩
  | inheritanceIssue => exact ⟨2, by decide, InheritanceIssue.faithful⟩
  | finding => exact ⟨1, by decide, Finding.faithful⟩
  | overridable => exact ⟨3, by decide, OverridableFunction.faithful⟩

/-- **What is read is read again as it was:** whatever text a value was read from, both its compact
and its pretty text are read as that value, and what is read from either is written as the same
texts. -/
theorem read_written (t : DocumentType) {text : String} {v : t.Carrier}
    (h : t.decode.ofText? text = some v)
    (hdoubles : ∀ x, .double x ∈ (t.encode v).numbers → (Number.Value.double x).ReadsBack) :
    ∀ written ∈ [(t.encode v).compact, (t.encode v).pretty],
      t.decode.ofText? written = some v ∧
        ∀ w, t.decode.ofText? written = some w →
          (t.encode w).compact = (t.encode v).compact ∧
            (t.encode w).pretty = (t.encode v).pretty := by
  obtain ⟨need, hneed, hfaithful⟩ := t.faithful
  obtain ⟨hcompact, hpretty⟩ := hfaithful.ofText? hneed h hdoubles
  intro written hwritten
  have hread : t.decode.ofText? written = some v := by
    rcases List.mem_cons.1 hwritten with rfl | hwritten
    · exact hcompact
    · exact List.mem_singleton.1 hwritten ▸ hpretty
  refine ⟨hread, fun w hw => ?_⟩
  obtain rfl := Option.some.inj (hread.symm.trans hw)
  exact ⟨rfl, rfl⟩

/-- A placed block of a foreign kind with its place as an array, a name escaped, a tag as an object,
keys of maps repeated, and an unknown field that nobody could read. -/
def gadgetText : String :=
  "\x7b \"place\": 1e400, \"position\": [1.5, -0],\n \"data\": \x7b\"type\": \"gadget\", \"id\": \"g\","
    ++ "\"note\": \x7b\"b\": 1, \"a\": true, \"b\": 2\x7d, \"name\": \"Gate \\u0022x\\u0022\","
    ++ "\"category\": \x7b\"basic\": null\x7d,\"defaultValues\": \x7b\"k\": 1, \"l\": [0.1], \"k\": -3\x7d\x7d\x7d"

/-- The block at its place. -/
def gadget : Placed where
  block :=
    { id := "g"
      name := "Gate \"x\""
      description := ""
      category := .basic
      defaults := [("k", .number (.integer (-3))), ("l", .array [.number (.double tenth)])]
      kind := .foreign "gadget"
        [("note", .object [("a", .bool true), ("b", .number (.integer 2))])] }
  position := ⟨⟨false, 3 <<< 1073⟩, ⟨true, 0⟩⟩
where
  /-- The double nearest to a tenth. -/
  tenth : Number.Binary64 := ⟨false, 0x1999999999999a <<< 1018⟩

theorem read_written_gadget :
    Placed.decode.ofText? gadgetText = some gadget ∧
      (∀ x, .double x ∈ gadget.encode.numbers → (Number.Value.double x).ReadsBack) ∧
      Placed.decode.ofText? gadget.encode.compact = some gadget ∧
      Placed.decode.ofText? gadget.encode.pretty = some gadget := by
  have hread : Placed.decode.ofText? gadgetText = some gadget := by decide +kernel
  have hnumbers : ∀ n ∈ gadget.encode.numbers, n.ReadsBack := by decide +kernel
  have hdoubles : ∀ x, .double x ∈ gadget.encode.numbers → (Number.Value.double x).ReadsBack :=
    fun x => hnumbers (.double x)
  have hwritten := read_written .placed hread hdoubles
  exact ⟨hread, hdoubles, (hwritten _ List.mem_cons_self).1,
    (hwritten _ (List.mem_cons_of_mem _ (List.mem_singleton_self _))).1⟩

end DocumentType

end ContractBlocks
