/-
# The source of blocks is put together block by block

What a list of blocks shows in its source is the list of the names and the kinds of those blocks
that have a source form, the overrides kept with a function left out (`Source.shown`).  All else
about a block, where it lies, its identity, its description, its palette group, its default values
and its overrides, makes no difference, and neither do blocks that describe something outside the
source text or are of a foreign kind.

The text between the braces of the contract (`Source.innerText`) is put together from that of the
first blocks and that of the others, with an empty line in between if both show something
(`Source.innerText_append`).  `Source.ofComponents_compositional` puts the two together.
-/

import ContractBlocks.Proofs.Source.Bodies

namespace ContractBlocks

/-! ### What a block shows -/

/-- The kinds that have a source form. -/
def Tag.inSource : List Tag :=
  [.function, .stateVariable, .constructor, .event, .modifier, .error, .struct, .enum, .mapping,
    .array]

namespace Block

/-- The block has a source form. -/
def isShown (b : Block) : Bool := b.fragment?.isSome

/-- What the source of the block depends on: its name, and its kind without the overrides that are
kept with it. -/
def face (b : Block) : String × Kind := (b.name, b.kind.setOverrides [])

/-- **Ten kinds have a source form:** not those that describe something outside the source text, and
no foreign one. -/
theorem isShown_iff {b : Block} : b.isShown ↔ ∃ t ∈ Tag.inSource, b.kind.tag? = some t := by
  unfold isShown fragment?
  cases b.kind <;> simp [Kind.fragment?, Kind.tag?, Tag.inSource]

/-- **The source form of a block** is that of its name and its kind, whatever overrides it keeps. -/
theorem fragment?_eq_face (b : Block) : b.fragment? = b.face.2.fragment? b.face.1 := by
  unfold fragment? face
  cases b.kind <;> rfl

end Block

namespace Source

/-- What blocks show in the source: the names and kinds of those with a source form, in order. -/
def shown (components : List Placed) : List (String × Kind) :=
  (components.filter fun p => p.block.isShown).map fun p => p.block.face

/-- Some block has a source form. -/
def ShowsSome (components : List Placed) : Prop := ∃ p ∈ components, p.block.isShown

instance (components : List Placed) : Decidable (ShowsSome components) :=
  inferInstanceAs (Decidable (∃ p ∈ components, p.block.isShown = true))

/-- The faces of the blocks say which of them are shown. -/
theorem shown_eq_filter (components : List Placed) :
    shown components =
      (components.map fun p => p.block.face).filter fun f => (f.2.fragment? f.1).isSome := by
  simp only [shown, List.filter_map, Function.comp_def, Block.isShown, Block.fragment?_eq_face]

/-- **The fragments of blocks** are those of what the blocks show. -/
theorem fragments_eq_shown (components : List Placed) :
    fragments components = (shown components).filterMap fun f => f.2.fragment? f.1 := by
  rw [fragments, shown, List.filterMap_map, List.filterMap_filter]
  refine List.filterMap_congr fun p _ => ?_
  rw [Function.comp_apply, ← Block.fragment?_eq_face, Block.isShown]
  cases p.block.fragment? <;> rfl

theorem fragments_eq_nil_iff {components : List Placed} :
    fragments components = [] ↔ ¬ShowsSome components := by
  simp [fragments, ShowsSome, Block.isShown, List.filterMap_eq_nil_iff]

/-- **Blocks that show the same** have the same source. -/
theorem ofComponents_congr (o : SourceOptions) (name : String) {xs ys : List Placed}
    (h : shown xs = shown ys) : ofComponents o name xs = ofComponents o name ys := by
  rw [ofComponents, ofComponents, fragments_eq_shown, fragments_eq_shown, h]

/-! ### The text between the braces -/

/-- The text between the line of the header and the closing brace. -/
def innerText (o : SourceOptions) (components : List Placed) : String :=
  String.ofList <|
    ['\n'].intercalate ((sources o components).map fun b => indented o.indent b.toList)

theorem ofComponents_eq_innerText (o : SourceOptions) (name : String) (components : List Placed) :
    ofComponents o name components =
      preludeText o ++ header name [] ++ "\n" ++ innerText o components ++ "\x7d\n" := by
  rw [ofComponents_eq_assemble, assemble, innerText]

/-- The texts of the blocks in a contract, each made of its lines. -/
def blockTexts (o : SourceOptions) (components : List Placed) : List (List Char) :=
  (fragments components).map fun f => textOf o.indent f.lines

theorem innerText_eq (o : SourceOptions) (components : List Placed) :
    innerText o components = String.ofList (['\n'].intercalate (blockTexts o components)) := by
  have hsources : sources o components =
      (fragments components).map fun f => String.ofList (f.text o.indent) := by
    rw [fragments, List.map_filterMap]
    rfl
  rw [innerText, hsources, List.map_map, blockTexts]
  congr 2
  refine List.map_congr_left fun f hf => ?_
  rw [Function.comp_apply, String.toList_ofList,
    Fragment.indented_text o.indent (isSolid_of_mem_fragments hf)]

theorem blockTexts_ne_nil_iff {o : SourceOptions} {components : List Placed} :
    blockTexts o components ≠ [] ↔ ShowsSome components := by
  rw [blockTexts, ne_eq, List.map_eq_nil_iff, fragments_eq_nil_iff, not_not]

/-- Something stands between the parts of two lists if neither is empty. -/
theorem intercalate_append {α : Type} (sep : List α) (xs ys : List (List α)) :
    sep.intercalate (xs ++ ys) =
      sep.intercalate xs ++ (if xs ≠ [] ∧ ys ≠ [] then sep else []) ++ sep.intercalate ys := by
  cases ys with
  | nil => simp
  | cons y ys =>
    cases xs with
    | nil => simp
    | cons x xs =>
      rw [List.cons_append, intercalate_cons_flatMap, intercalate_cons_flatMap,
        intercalate_cons_flatMap, if_pos (by simp)]
      simp

/-- **One list of blocks behind another:** between what they show stands an empty line, if both show
something. -/
theorem innerText_append (o : SourceOptions) (xs ys : List Placed) :
    innerText o (xs ++ ys) =
      innerText o xs ++ (if ShowsSome xs ∧ ShowsSome ys then "\n" else "") ++ innerText o ys := by
  have htexts : blockTexts o (xs ++ ys) = blockTexts o xs ++ blockTexts o ys := by
    rw [blockTexts, fragments, List.filterMap_append, List.map_append]
    rfl
  simp only [innerText_eq, htexts, intercalate_append, blockTexts_ne_nil_iff, ← String.toList_inj]
  split <;> simp

/-! ### Whole lines -/

/-- A fragment has lines. -/
theorem lines_fragment_ne_nil {f : Fragment} (hf : f.IsSolid) : f.lines ≠ [] := by
  cases f with
  | statement t =>
    have hne : t.toList ≠ [] := by
      intro h
      rw [Fragment.IsSolid, h] at hf
      cases hf
    simpa [Fragment.lines] using Text.lines_ne_nil hne
  | braced header body => simp [Fragment.lines]

/-- **The text between the braces is that of whole lines.** -/
theorem innerText_eq_textOf (o : SourceOptions) (components : List Placed) :
    innerText o components =
      String.ofList (textOf o.indent (innerLines (fragments components))) := by
  rw [innerText_eq, innerLines, textOf_intercalate, List.map_map]
  rfl

theorem innerLines_eq_nil_iff {components : List Placed} :
    innerLines (fragments components) = [] ↔ ¬ShowsSome components := by
  rw [← fragments_eq_nil_iff]
  refine ⟨fun h => ?_, fun h => by rw [h]; rfl⟩
  by_contra hne
  obtain ⟨f, fs, hf⟩ := List.exists_cons_of_ne_nil hne
  have hsolid : f.IsSolid := isSolid_of_mem_fragments (hf ▸ List.mem_cons_self)
  rw [innerLines, hf, List.map_cons, intercalate_cons_flatMap] at h
  exact lines_fragment_ne_nil hsolid (List.append_eq_nil_iff.1 h).1

/-! ### Composition -/

/-- The source of a list of blocks is put together from what each of them shows. -/
structure Compositional (o : SourceOptions) (name : String) (xs : List Placed) : Prop where
  /-- Behind the line of the header stands the text of the blocks, and then the closing brace. -/
  source : ofComponents o name xs =
    preludeText o ++ header name [] ++ "\n" ++ innerText o xs ++ "\x7d\n"
  /-- Behind the text of the blocks stands that of others, after an empty line if both show
  something. -/
  append : ∀ ys, innerText o (xs ++ ys) =
    innerText o xs ++ (if ShowsSome xs ∧ ShowsSome ys then "\n" else "") ++ innerText o ys
  /-- The text is that of whole lines, and there are none exactly if no block has a source form. -/
  lines : ∃ ls, innerText o xs = String.ofList (textOf o.indent ls) ∧ (ls = [] ↔ ¬ShowsSome xs)
  /-- The source depends on nothing but the names and kinds of the blocks with a source form. -/
  eq_of_shown : ∀ ys, shown ys = shown xs → ofComponents o name ys = ofComponents o name xs
  /-- Blocks with the same names and kinds, apart from overrides, have the same source, whatever
  else there is about them. -/
  eq_of_faces : ∀ ys, (ys.map fun p => p.block.face) = (xs.map fun p => p.block.face) →
    ofComponents o name ys = ofComponents o name xs
  /-- A block of a kind that is not among the ten with a source form may be put in anywhere. -/
  insert : ∀ front back p, xs = front ++ back → (∀ t ∈ p.block.kind.tag?, t ∉ Tag.inSource) →
    ofComponents o name (front ++ p :: back) = ofComponents o name xs

/-- **The source of blocks is put together block by block,** and it shows nothing of a block but its
name and its kind. -/
theorem ofComponents_compositional (o : SourceOptions) (name : String) (xs : List Placed) :
    Compositional o name xs where
  source := ofComponents_eq_innerText o name xs
  append := innerText_append o xs
  lines := ⟨_, innerText_eq_textOf o xs, innerLines_eq_nil_iff⟩
  eq_of_shown ys h := ofComponents_congr o name h
  eq_of_faces ys h := by
    refine ofComponents_congr o name ?_
    rw [shown_eq_filter, shown_eq_filter, h]
  insert front back p hxs hp := by
    subst hxs
    have hnot : ¬p.block.isShown := by
      rw [Block.isShown_iff]
      rintro ⟨t, ht, htag⟩
      exact hp t htag ht
    refine ofComponents_congr o name ?_
    rw [shown, shown, List.filter_append, List.filter_append,
      List.filter_cons_of_neg (p := fun q : Placed => q.block.isShown) hnot]

end Source
end ContractBlocks
