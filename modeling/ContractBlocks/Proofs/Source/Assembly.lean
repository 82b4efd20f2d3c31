/-
# A source file line by line

A source file is put together from texts: each block is written by itself, its body moved in, and then
all its lines are moved in once more.  Here it is described as a list of lines that know how deep they
stand, with an indent of so many levels each.  The file is the text of those lines
(`Source.fileText_eq_textOf`): no block with a source form is blank, and the lines of its text, those
of its body among them, are found again when it is moved in (`Fragment.indented_text`).
-/

import Mathlib.Data.List.Basic
import ContractBlocks.Source.Contract
import ContractBlocks.Proofs.Text.Lines

namespace ContractBlocks

namespace Source

/-! ### Lines with a depth -/

/-- A line of source text. -/
structure Line where
  depth : Nat
  content : List Char
deriving DecidableEq, Repr

namespace Line

/-- The empty line. -/
def empty : Line := ⟨0, []⟩

/-- A line at a depth; one of blank characters only becomes empty. -/
def ofContent (depth : Nat) (content : List Char) : Line :=
  if Text.isBlank content then empty else ⟨depth, content⟩

/-- The line with its indent and its end. -/
def text (width : Nat) (l : Line) : List Char :=
  List.replicate (l.depth * width) ' ' ++ l.content ++ ['\n']

end Line

/-- The text of lines for a width of one level. -/
def textOf (width : Nat) (lines : List Line) : List Char := lines.flatMap (Line.text width)

@[simp]
theorem textOf_append (width : Nat) (a b : List Line) :
    textOf width (a ++ b) = textOf width a ++ textOf width b := by
  simp [textOf]

/-- The lines of a body; a blank body has none. -/
def bodyLines (body : List Char) : List (List Char) :=
  if Text.isBlank body then [] else Text.lines body

theorem bodyLines_of_not_isBlank {text : List Char} (h : Text.isBlank text = false) :
    bodyLines text = Text.lines text := by
  rw [bodyLines, h, if_neg Bool.false_ne_true]

theorem newline_not_mem_of_mem_bodyLines {body l : List Char} (h : l ∈ bodyLines body) :
    '\n' ∉ l := by
  unfold bodyLines at h
  split at h
  · cases h
  · exact Text.newline_not_mem_of_mem_lines h

/-- **A text that is moved in** stands one level deep. -/
theorem indented_eq_textOf (width : Nat) (text : List Char) :
    indented width text = textOf width ((bodyLines text).map (Line.ofContent 1)) := by
  have hline : ∀ l, indentedLine width l = (Line.ofContent 1 l).text width := fun l => by
    unfold indentedLine Line.ofContent
    split <;> simp [Line.text, Line.empty]
  unfold indented bodyLines textOf
  split
  · rfl
  · rw [List.flatMap_map]
    exact List.flatMap_congr fun l _ => hline l

/-! ### Rows -/

/-- A line with its indent and without its end. -/
def Line.row (width : Nat) (l : Line) : List Char :=
  List.replicate (l.depth * width) ' ' ++ l.content

theorem textOf_eq_unlines (width : Nat) (ls : List Line) :
    textOf width ls = Text.unlines (ls.map (Line.row width)) := by
  rw [textOf, Text.unlines, List.flatMap_map]
  rfl

theorem newline_not_mem_row {width depth : Nat} {content : List Char} (h : '\n' ∉ content) :
    '\n' ∉ (Line.ofContent depth content).row width := by
  unfold Line.ofContent
  split
  · simp [Line.row, Line.empty]
  · simp [Line.row, h]

/-- **A row moved in by one level** is the line two levels deep, without a carriage return at its
end. -/
theorem text_ofContent_row (width : Nat) (content : List Char) :
    (Line.ofContent 1 (Text.dropReturn ((Line.ofContent 1 content).row width))).text width =
      (Line.ofContent 2 (Text.dropReturn content)).text width := by
  by_cases hb : Text.isBlank content
  · have hrow : (Line.ofContent 1 content).row width = [] := by
      simp [Line.ofContent, hb, Line.row, Line.empty]
    rw [hrow, Line.ofContent, Line.ofContent, Text.isBlank_dropReturn, Text.isBlank_dropReturn,
      if_pos hb, if_pos (by decide)]
  · have hne : content ≠ [] := by
      rintro rfl
      exact hb rfl
    have hrow : (Line.ofContent 1 content).row width =
        List.replicate (1 * width) ' ' ++ content := by
      simp [Line.ofContent, hb, Line.row]
    rw [hrow, Text.dropReturn_append hne, Line.ofContent, Line.ofContent, Text.isBlank_append,
      Text.isBlank_dropReturn, if_neg hb, if_neg (by simp [hb])]
    simp only [Line.text, ← List.append_assoc, List.replicate_append_replicate]
    congr 3
    omega

end Source

/-! ### The lines of a fragment -/

namespace Fragment

/-- The fragment has a line of its own in a contract: a statement is not blank. -/
def IsSolid : Fragment → Prop
  | .statement t => Text.isBlank t.toList = false
  | .braced _ _ => True

/-- The lines of a header inside a contract, up to the opening brace. -/
def headLines (header : String) : List Source.Line :=
  (Text.lines (opening header)).map (Source.Line.ofContent 1)

/-- The lines of a body inside a contract.  As each of them has been ended before it is moved in for
the second time, it loses a carriage return at its end. -/
def insideLines (body : String) : List Source.Line :=
  (Source.bodyLines body.toList).map fun l => Source.Line.ofContent 2 (Text.dropReturn l)

/-- The lines of the fragment inside a contract. -/
def lines : Fragment → List Source.Line
  | .statement t => (Text.lines t.toList).map (Source.Line.ofContent 1)
  | .braced header body => headLines header ++ insideLines body ++ [⟨1, ['\x7d']⟩]

theorem lines_opening (header : String) :
    Text.lines (opening header) = (Text.pieces (opening header)).map Text.dropReturn := by
  have h : opening header = (header.toList ++ [' ']) ++ ['\x7b'] := by simp [opening]
  rw [h]
  exact Text.lines_append_last (by decide) (by decide) _

theorem isBlank_opening (header : String) : Text.isBlank (opening header) = false := by
  rw [opening, Text.isBlank_append, show Text.isBlank [' ', '\x7b'] = false by decide, Bool.and_false]

/-- **The text of a fragment moved in** is that of its lines inside a contract. -/
theorem indented_text (width : Nat) {f : Fragment} (hf : f.IsSolid) :
    Source.indented width (f.text width) = Source.textOf width f.lines := by
  rw [Source.indented_eq_textOf]
  cases f with
  | statement t => rw [text, Source.bodyLines_of_not_isBlank hf, lines]
  | braced header body =>
    let inner := (Source.bodyLines body.toList).map (Source.Line.ofContent 1)
    have htext : (Fragment.braced header body).text width =
        opening header ++ '\n' :: (Text.unlines (inner.map (Source.Line.row width)) ++ ['\x7d']) := by
      rw [text, Source.indented_eq_textOf, Source.textOf_eq_unlines]
      simp [inner]
    have hblank : Text.isBlank ((Fragment.braced header body).text width) = false := by
      rw [htext, Text.isBlank_append, isBlank_opening, Bool.false_and]
    have hrows : ∀ r ∈ inner.map (Source.Line.row width), '\n' ∉ r := by
      intro r hr
      simp only [inner, List.map_map, List.mem_map, Function.comp_apply] at hr
      obtain ⟨l, hl, rfl⟩ := hr
      exact Source.newline_not_mem_row (Source.newline_not_mem_of_mem_bodyLines hl)
    have hinner : Source.textOf width (insideLines body) =
        Source.textOf width (((inner.map (Source.Line.row width)).map Text.dropReturn).map
          (Source.Line.ofContent 1)) := by
      simp only [inner, insideLines, Source.textOf, List.map_map, List.flatMap_map]
      exact List.flatMap_congr fun l _ => (Source.text_ofContent_row width l).symm
    rw [Source.bodyLines_of_not_isBlank hblank, htext, Text.lines_append_newline,
      Text.lines_unlines_append hrows, ← lines_opening]
    simp only [lines, headLines, List.map_append, Source.textOf_append, List.append_assoc, hinner]
    rfl

end Fragment

/-! ### Blocks are not blank -/

/-- A statement that ends in something that is not blank is not blank. -/
theorem Fragment.isSolid_append (start : String) {ending : String}
    (h : Text.isBlank ending.toList = false) : (statement (start ++ ending)).IsSolid := by
  simp [IsSolid, h]

/-- **A block with a source form is not blank:** it has braces or ends in a semicolon or a brace. -/
theorem Block.isSolid_of_fragment? {b : Block} {f : Fragment} (h : b.fragment? = some f) :
    f.IsSolid := by
  unfold Block.fragment? at h
  cases hk : b.kind <;> rw [hk] at h <;> cases h
  case function | constructor | modifier | struct => trivial
  case stateVariable | event | error | enum | mapping | array =>
    exact Fragment.isSolid_append _ (by decide)

/-- Every fragment of a contract is a block that is not blank. -/
theorem Contract.isSolid_of_mem_fragments {c : Contract} {registry : Registry} {f : Fragment}
    (h : f ∈ c.fragments registry) : f.IsSolid := by
  obtain ⟨b, -, hf⟩ := List.mem_flatMap.1 h
  rcases List.mem_append.1 hf with hf | hf
  · exact b.isSolid_of_fragment? (Option.mem_toList.1 hf)
  · obtain ⟨o, -, ho⟩ := List.mem_filterMap.1 hf
    split at ho
    · split at ho
      · rw [← Option.some.inj ho]
        trivial
      · cases ho
    · cases ho

theorem Source.isSolid_of_mem_fragments {components : List Placed} {f : Fragment}
    (h : f ∈ Source.fragments components) : f.IsSolid := by
  obtain ⟨p, -, hf⟩ := List.mem_filterMap.1 h
  exact Block.isSolid_of_fragment? hf

/-! ### The whole file -/

namespace Source

theorem textOf_intercalate (width : Nat) (parts : List (List Line)) :
    textOf width ([Line.empty].intercalate parts) =
      ['\n'].intercalate (parts.map (textOf width)) := by
  induction parts with
  | nil => rfl
  | cons part parts ih =>
    cases parts with
    | nil => simp
    | cons next parts =>
      have hempty : textOf width [Line.empty] = ['\n'] := by simp [textOf, Line.text, Line.empty]
      rw [List.intercalate_cons_cons, textOf_append, textOf_append, ih, hempty]
      simp only [List.map_cons, List.intercalate_cons_cons]

/-- The lines before the header. -/
def prelude (o : SourceOptions) : List Line :=
  (o.license.map fun l => (⟨0, ("// SPDX-License-Identifier: " ++ l).toList⟩ : Line)).toList
    ++ [⟨0, o.pragma.toList⟩, .empty]

/-- The lines between the header and the closing brace. -/
def innerLines (fragments : List Fragment) : List Line :=
  [Line.empty].intercalate (fragments.map Fragment.lines)

/-- The lines of a source file. -/
def fileLines (o : SourceOptions) (header : String) (fragments : List Fragment) : List Line :=
  prelude o ++ [⟨0, header.toList⟩] ++ innerLines fragments ++ [⟨0, ['\x7d']⟩]

theorem preludeText_eq_textOf (o : SourceOptions) :
    preludeText o = String.ofList (textOf o.indent (prelude o)) := by
  rw [← String.toList_inj]
  unfold preludeText prelude
  cases o.license <;> simp [textOf, Line.text, Line.empty]

/-- **A source file is the text of its lines.** -/
theorem fileText_eq_textOf (o : SourceOptions) (header : String) {fragments : List Fragment}
    (h : ∀ f ∈ fragments, f.IsSolid) :
    fileText o header fragments = String.ofList (textOf o.indent (fileLines o header fragments)) := by
  have hblocks : (fragments.map fun f => String.ofList (f.text o.indent)).map
        (fun b => indented o.indent b.toList) =
      (fragments.map Fragment.lines).map (textOf o.indent) := by
    rw [List.map_map, List.map_map]
    refine List.map_congr_left fun f hf => ?_
    simp [Fragment.indented_text o.indent (h f hf)]
  rw [fileText, assemble, hblocks, preludeText_eq_textOf, fileLines, innerLines, ← textOf_intercalate,
    ← String.toList_inj]
  simp [textOf, Line.text]

end Source

end ContractBlocks
