/-
# Bodies are written as they are

The lines of a body are moved in twice, each time after the text has been split into lines anew, and
no line is lost, joined to another, trimmed or written twice.  For a body without carriage returns
they are the pieces between its line feeds (`Text.feedLines`), and each stands two levels deep with its
characters unchanged, or is empty if it is blank (`Source.bodyText`).  A carriage return in front of
each line feed makes no difference (`Text.lines_withReturns`).

`Source.body_verbatim` says where in the source of a list of blocks this text stands.
-/

import ContractBlocks.Proofs.Block.Patch
import ContractBlocks.Proofs.Source.Assembly
import ContractBlocks.Proofs.Text.Returns

namespace ContractBlocks

/-! ### A body in the source -/

namespace Source

/-- A line of a body as it is written: two levels deep, and empty if it is blank. -/
def bodyLineText (width : Nat) (line : List Char) : List Char :=
  if Text.isBlank line then ['\n'] else List.replicate (2 * width) ' ' ++ line ++ ['\n']

/-- A body as it is written: each of its lines, and none if the body is blank. -/
def bodyText (width : Nat) (body : List Char) : List Char :=
  if Text.isBlank body then [] else (Text.feedLines body).flatMap (bodyLineText width)

/-- The header of a block with a body, the body, and the closing brace, as they are written. -/
def bracedText (width : Nat) (header : String) (body : List Char) : List Char :=
  indented width (Fragment.opening header) ++ bodyText width body
    ++ (List.replicate width ' ' ++ ['\x7d', '\n'])

/-- **The lines of a body without carriage returns** are written as they are. -/
theorem textOf_insideLines (width : Nat) {body : String} (h : '\r' ∉ body.toList) :
    textOf width (Fragment.insideLines body) = bodyText width body.toList := by
  unfold Fragment.insideLines bodyText bodyLines
  split
  · rfl
  · rw [textOf, List.flatMap_map, Text.lines_eq_feedLines h]
    refine List.flatMap_congr fun l hl => ?_
    rw [Text.dropReturn_of_not_mem (Text.return_not_mem_of_mem_feedLines h hl), Line.ofContent,
      bodyLineText]
    split <;> simp [Line.text, Line.empty]

/-- A block with a body is moved in to its header, its body and the closing brace. -/
theorem indented_braced (width : Nat) (header : String) {body : String} (h : '\r' ∉ body.toList) :
    indented width ((Fragment.braced header body).text width) =
      bracedText width header body.toList := by
  have hsolid : (Fragment.braced header body).IsSolid := trivial
  rw [Fragment.indented_text width hsolid, Fragment.lines, textOf_append, textOf_append,
    textOf_insideLines width h, bracedText, indented_eq_textOf,
    bodyLines_of_not_isBlank (Fragment.isBlank_opening header), Fragment.headLines]
  simp [textOf, Line.text]

/-- A carriage return in front of each line feed of a body makes no other text of the block. -/
theorem text_withReturns (width : Nat) (header : String) {body : String} (h : '\r' ∉ body.toList) :
    (Fragment.braced header (String.ofList (Text.withReturns body.toList))).text width =
      (Fragment.braced header body).text width := by
  have hindented : indented width (Text.withReturns body.toList) = indented width body.toList := by
    rw [indented, indented, Text.isBlank_withReturns, Text.lines_withReturns h]
  rw [Fragment.text, Fragment.text, String.toList_ofList, hindented]

end Source

/-- A block with a body has a header that does not depend on the body. -/
theorem Block.exists_header {b : Block} {body : String} (h : b.body? = some body) :
    ∃ header, ∀ t, (b.withBody t).fragment? = some (.braced header t) := by
  obtain ⟨id, name, description, category, defaults, kind⟩ := b
  have hbraced : ∃ header, kind.fragment? name = some (.braced header body) := by
    cases kind <;> cases h <;> exact ⟨_, rfl⟩
  obtain ⟨header, hf⟩ := hbraced
  refine ⟨header, fun t => ?_⟩
  -- A header is made from the name and the other fields of the kind, so it stays.
  cases kind <;> cases h <;> cases hf <;> rfl

/-- The block with other statements, at its place. -/
def Placed.withBody (p : Placed) (body : String) : Placed :=
  { p with block := p.block.withBody body }

/-! ### The place of a block in the source -/

namespace Source

/-- The texts of the blocks with a source form. -/
def sources (o : SourceOptions) (components : List Placed) : List String :=
  components.filterMap fun p => p.block.source? o

theorem intercalate_cons_flatMap {α : Type} (sep x : List α) (xs : List (List α)) :
    sep.intercalate (x :: xs) = x ++ xs.flatMap fun y => sep ++ y := by
  induction xs generalizing x with
  | nil => simp
  | cons y ys ih => rw [List.intercalate_cons_cons, ih, List.flatMap_cons]; simp

theorem intercalate_append_cons {α : Type} (sep : List α) (xs : List (List α)) (y : List α)
    (ys : List (List α)) :
    sep.intercalate (xs ++ y :: ys) =
      (xs.flatMap fun x => x ++ sep) ++ y ++ ys.flatMap fun z => sep ++ z := by
  induction xs with
  | nil => simp [intercalate_cons_flatMap]
  | cons x xs ih =>
    obtain ⟨z, zs, hz⟩ := List.exists_cons_of_ne_nil (l := xs ++ y :: ys) (by simp)
    rw [List.cons_append, hz, List.intercalate_cons_cons, ← hz, ih, List.flatMap_cons]
    simp

theorem ofComponents_eq_assemble (o : SourceOptions) (name : String) (components : List Placed) :
    ofComponents o name components = assemble o (header name []) (sources o components) := by
  rw [ofComponents, fileText, fragments, List.map_filterMap]
  rfl

/-- The source up to a block: what stands before the blocks, and those before it, each with an empty
line behind it. -/
def textBefore (o : SourceOptions) (name : String) (before : List Placed) : String :=
  preludeText o ++ header name [] ++ "\n" ++ String.ofList
    ((sources o before).flatMap fun b => indented o.indent b.toList ++ ['\n'])

/-- The source behind a block: those behind it, each with an empty line before it, and the closing
brace. -/
def textAfter (o : SourceOptions) (after : List Placed) : String :=
  String.ofList ((sources o after).flatMap fun b => '\n' :: indented o.indent b.toList) ++ "\x7d\n"

/-- **A block between others** stands between the source up to it and the source behind it. -/
theorem ofComponents_append_cons (o : SourceOptions) (name : String) (before after : List Placed)
    {p : Placed} {f : Fragment} (hf : p.block.fragment? = some f) :
    ofComponents o name (before ++ p :: after) =
      textBefore o name before ++ String.ofList (indented o.indent (f.text o.indent)) ++
        textAfter o after := by
  have hsource : p.block.source? o = some (String.ofList (f.text o.indent)) := by
    rw [Block.source?, hf, Option.map_some]
  have hsources : sources o (before ++ p :: after) =
      sources o before ++ String.ofList (f.text o.indent) :: sources o after := by
    unfold sources
    rw [List.filterMap_append,
      List.filterMap_cons_some (f := fun p : Placed => p.block.source? o) hsource]
  rw [ofComponents_eq_assemble, assemble, hsources, List.map_append, List.map_cons,
    intercalate_append_cons, textBefore, textAfter, ← String.toList_inj]
  simp [List.flatMap_map]

/-- **Bodies are written as they are.**  A function, constructor or modifier whose body has no
carriage return is written as its header, which does not depend on the body, then one line for each
line of the body, two levels deep and with the characters unchanged, but empty if it is blank, and
the closing brace; a blank body has no lines.  A carriage return in front of each line feed of the
body changes nothing in the source. -/
theorem body_verbatim (o : SourceOptions) (name : String) (before after : List Placed) (p : Placed)
    {body : String} (hbody : p.block.body? = some body) (hreturn : '\r' ∉ body.toList) :
    ∃ header, (∀ t, (p.block.withBody t).fragment? = some (.braced header t)) ∧
      ofComponents o name (before ++ p :: after) =
        textBefore o name before ++ String.ofList (bracedText o.indent header body.toList) ++
          textAfter o after ∧
      ofComponents o name
          (before ++ p.withBody (String.ofList (Text.withReturns body.toList)) :: after) =
        ofComponents o name (before ++ p :: after) := by
  obtain ⟨header, hheader⟩ := Block.exists_header hbody
  have hf : p.block.fragment? = some (.braced header body) := by
    rw [← hheader body, Block.withBody_of_body? hbody]
  have hsource := ofComponents_append_cons o name before after hf
  refine ⟨header, hheader, ?_, ?_⟩
  · rw [hsource, indented_braced o.indent header hreturn]
  · have hreturned : (p.withBody (String.ofList (Text.withReturns body.toList))).block.fragment? =
        some (.braced header (String.ofList (Text.withReturns body.toList))) := hheader _
    rw [hsource, ofComponents_append_cons o name before after hreturned,
      text_withReturns o.indent header hreturn]

namespace Vault

def opened : Placed := ⟨⟨"o", "Opened", "", .basic, [], .event []⟩, .origin⟩

def closed : Placed := ⟨⟨"c", "Closed", "", .basic, [], .error []⟩, .origin⟩

/-- Blank lines at the start, inside and at the end, one of them with an ideographic space. -/
def statements : String := "\n  a = 1;\n\u3000\nb = 2; \n\n"

def deposit : Placed :=
  ⟨⟨"d", "deposit", "", .basic, [], .function ⟨.pub, .payable, [], [], [], false, statements, []⟩⟩,
    .origin⟩

end Vault

open Vault in
theorem body_verbatim_vault :
    deposit.block.body? = some statements ∧ '\r' ∉ statements.toList ∧
      ofComponents .standard "Vault" ([opened] ++ deposit :: [closed]) =
        textBefore .standard "Vault" [opened] ++
          ("    function deposit() public payable \x7b\n"
            ++ "\n          a = 1;\n\n        b = 2; \n\n    \x7d\n") ++
          textAfter .standard [closed] ∧
      ofComponents .standard "Vault"
          ([opened] ++ deposit.withBody "\r\n  a = 1;\r\n\u3000\r\nb = 2; \r\n\r\n" :: [closed]) =
        ofComponents .standard "Vault" ([opened] ++ deposit :: [closed]) := by
  have hreturn : '\r' ∉ statements.toList := by decide
  obtain ⟨header, hheader, hsource, hreturns⟩ :=
    body_verbatim .standard "Vault" [opened] [closed] deposit rfl hreturn
  have hname : header = "function deposit() public payable" :=
    (Fragment.braced.inj (Option.some.inj (hheader statements))).1.symm
  have hblock : String.ofList (bracedText 4 "function deposit() public payable" statements.toList) =
      "    function deposit() public payable \x7b\n"
        ++ "\n          a = 1;\n\n        b = 2; \n\n    \x7d\n" := by decide +kernel
  subst hname
  exact ⟨rfl, hreturn, hsource.trans (by rw [← hblock]; rfl), hreturns⟩

end Source
end ContractBlocks
