/-
# The layout does not depend on the width

The texts of the blocks are moved in by as many spaces as a level is wide, and those of their bodies
twice.  Whatever the blocks hold, line feeds, carriage returns and blank characters of any kind
included, the width decides about nothing else: which lines there are, how deep each of them stands
and what is in it is the same for every width (`Source.IsLayout`).  Inside the braces of the contract
a line is either empty, or it stands one or two levels deep and is not blank (`Source.Line.IsInner`).

`Source.layout_uniform` is the result, for contracts and for blocks by themselves.
-/

import ContractBlocks.Proofs.Source.Assembly

namespace ContractBlocks

/-- What is in a list of lists with something in between is in that, or in one of the lists. -/
theorem mem_or_exists_of_mem_intercalate {α : Type} {sep : List α} {x : α} {xs : List (List α)}
    (h : x ∈ sep.intercalate xs) : x ∈ sep ∨ ∃ l ∈ xs, x ∈ l := by
  induction xs with
  | nil => cases h
  | cons l xs ih =>
    cases xs with
    | nil => exact Or.inr ⟨l, List.mem_cons_self, by simpa using h⟩
    | cons l' xs =>
      rw [List.intercalate_cons_cons, List.mem_append, List.mem_append] at h
      rcases h with (hl | hsep) | hrest
      · exact Or.inr ⟨l, List.mem_cons_self, hl⟩
      · exact Or.inl hsep
      · exact (ih hrest).imp_right fun ⟨m, hm, hx⟩ => ⟨m, List.mem_cons_of_mem l hm, hx⟩

namespace Source

/-! ### Lines inside a contract -/

/-- The line is empty, or it is one line that is not blank and stands one or two levels deep. -/
def Line.IsInner (l : Line) : Prop :=
  l = .empty ∨ (l.depth = 1 ∨ l.depth = 2) ∧ Text.isBlank l.content = false ∧ '\n' ∉ l.content

theorem Line.ofContent_eq_or (depth : Nat) (content : List Char) :
    Line.ofContent depth content = .empty ∨
      Line.ofContent depth content = ⟨depth, content⟩ ∧ Text.isBlank content = false := by
  unfold Line.ofContent
  split
  · exact Or.inl rfl
  · rename_i h
    exact Or.inr ⟨rfl, Bool.eq_false_iff.2 h⟩

theorem Line.isInner_ofContent {depth : Nat} (hd : depth = 1 ∨ depth = 2) {content : List Char}
    (hn : '\n' ∉ content) : (Line.ofContent depth content).IsInner := by
  rcases Line.ofContent_eq_or depth content with h | ⟨h, hb⟩
  · exact Or.inl h
  · rw [h]
    exact Or.inr ⟨hd, hb, hn⟩

end Source

namespace Fragment

/-- The lines of a header are empty or stand one level deep. -/
theorem depth_of_mem_headLines {header : String} {l : Source.Line} (h : l ∈ headLines header) :
    l = .empty ∨ l.depth = 1 := by
  obtain ⟨content, -, rfl⟩ := List.mem_map.1 h
  exact (Source.Line.ofContent_eq_or 1 content).imp_right fun h => by rw [h.1]

/-- The lines of a body are empty or stand two levels deep. -/
theorem depth_of_mem_insideLines {body : String} {l : Source.Line} (h : l ∈ insideLines body) :
    l = .empty ∨ l.depth = 2 := by
  obtain ⟨content, -, rfl⟩ := List.mem_map.1 h
  exact (Source.Line.ofContent_eq_or 2 (Text.dropReturn content)).imp_right fun h => by rw [h.1]

/-- **Every line of a fragment** belongs inside a contract. -/
theorem isInner_of_mem_lines {f : Fragment} {l : Source.Line} (h : l ∈ f.lines) : l.IsInner := by
  cases f with
  | statement t =>
    obtain ⟨content, hc, rfl⟩ := List.mem_map.1 h
    exact Source.Line.isInner_ofContent (.inl rfl) (Text.newline_not_mem_of_mem_lines hc)
  | braced header body =>
    rcases List.mem_append.1 h with h | h
    · rcases List.mem_append.1 h with h | h
      · obtain ⟨content, hc, rfl⟩ := List.mem_map.1 h
        exact Source.Line.isInner_ofContent (.inl rfl) (Text.newline_not_mem_of_mem_lines hc)
      · obtain ⟨content, hc, rfl⟩ := List.mem_map.1 h
        exact Source.Line.isInner_ofContent (.inr rfl) fun hn =>
          Source.newline_not_mem_of_mem_bodyLines hc (Text.mem_of_mem_dropReturn hn)
    · rw [List.mem_singleton.1 h]
      exact Or.inr ⟨.inl rfl, by decide, by decide⟩

end Fragment

namespace Source

theorem isInner_of_mem_innerLines {fragments : List Fragment} {l : Line}
    (h : l ∈ innerLines fragments) : l.IsInner := by
  rcases mem_or_exists_of_mem_intercalate h with h | ⟨ls, hls, hl⟩
  · exact Or.inl (List.mem_singleton.1 h)
  · obtain ⟨f, -, rfl⟩ := List.mem_map.1 hls
    exact Fragment.isInner_of_mem_lines hl

/-! ### The layout of a file -/

/-- The lines are those of a source file with the given header and fragments. -/
structure IsLayout (o : SourceOptions) (header : String) (fragments : List Fragment)
    (ls : List Line) : Prop where
  /-- The license, the pragma and an empty line, the header, the lines of the fragments with an empty
  line between them, and the closing brace. -/
  eq : ls = prelude o ++ [⟨0, header.toList⟩] ++ innerLines fragments ++ [⟨0, ['\x7d']⟩]
  depth_le : ∀ l ∈ ls, l.depth ≤ 2
  newline_notMem : ∀ l ∈ ls, '\n' ∉ l.content
  /-- Between the header and the closing brace only empty lines stand at the margin, and no other
  line is blank. -/
  inner : ∀ l ∈ innerLines fragments,
    l = .empty ∨ 1 ≤ l.depth ∧ Text.isBlank l.content = false
  /-- A block with a body, or with members, has its header one level deep, then the lines of the
  body two levels deep, and the closing brace. -/
  braced : ∀ head body, .braced head body ∈ fragments →
    (Fragment.braced head body).lines =
        Fragment.headLines head ++ Fragment.insideLines body ++ [⟨1, ['\x7d']⟩] ∧
      (∀ l ∈ Fragment.headLines head, l = .empty ∨ l.depth = 1) ∧
      ∀ l ∈ Fragment.insideLines body, l = .empty ∨ l.depth = 2

/-- No name with a line feed, no line feed in the header. -/
theorem newline_not_mem_header {name : String} {parents : List String} (hname : '\n' ∉ name.toList)
    (hparents : ∀ p ∈ parents, '\n' ∉ p.toList) : '\n' ∉ (header name parents).toList := by
  have hlist : '\n' ∉ ", ".toList.intercalate (parents.map String.toList) := fun h => by
    rcases mem_or_exists_of_mem_intercalate h with h | ⟨l, hl, hn⟩
    · exact absurd h (by decide)
    · obtain ⟨p, hp, rfl⟩ := List.mem_map.1 hl
      exact hparents p hp hn
  unfold header
  split
  · simp [hname]
  · simpa [hname] using hlist

section

variable {o : SourceOptions} (hpragma : '\n' ∉ o.pragma.toList)
  (hlicense : ∀ l ∈ o.license, '\n' ∉ l.toList)

include hpragma hlicense

theorem newline_not_mem_prelude {l : Line} (h : l ∈ prelude o) :
    l.depth = 0 ∧ '\n' ∉ l.content := by
  rcases List.mem_append.1 h with h | h
  · obtain ⟨license, hl, rfl⟩ := Option.map_eq_some_iff.1 (Option.mem_toList.1 h)
    have := hlicense license hl
    exact ⟨rfl, by simpa using this⟩
  · rcases List.mem_pair.1 h with rfl | rfl
    · exact ⟨rfl, hpragma⟩
    · exact ⟨rfl, by simp [Line.empty]⟩

theorem isLayout_fileLines {header : String} (hheader : '\n' ∉ header.toList)
    (fragments : List Fragment) : IsLayout o header fragments (fileLines o header fragments) := by
  have hline : ∀ l ∈ fileLines o header fragments, l.depth ≤ 2 ∧ '\n' ∉ l.content := by
    intro l hl
    simp only [fileLines, List.mem_append, List.mem_singleton] at hl
    rcases hl with ((hl | rfl) | hl) | rfl
    · obtain ⟨hd, hn⟩ := newline_not_mem_prelude hpragma hlicense hl
      exact ⟨by omega, hn⟩
    · exact ⟨Nat.zero_le 2, hheader⟩
    · rcases isInner_of_mem_innerLines hl with rfl | ⟨hd, -, hn⟩
      · exact ⟨Nat.zero_le 2, by simp [Line.empty]⟩
      · exact ⟨by omega, hn⟩
    · exact ⟨Nat.zero_le 2, by simp⟩
  constructor
  case eq => rfl
  case depth_le => exact fun l hl => (hline l hl).1
  case newline_notMem => exact fun l hl => (hline l hl).2
  case inner =>
    exact fun l hl => (isInner_of_mem_innerLines hl).imp_right fun h => ⟨by omega, h.2.1⟩
  case braced =>
    exact fun head body _ => ⟨rfl, fun l => Fragment.depth_of_mem_headLines,
      fun l => Fragment.depth_of_mem_insideLines⟩

/-- **The layout does not depend on the width.**  For a contract, and for blocks by themselves, with
any text in their blocks, there is one list of lines with a depth whose text is the source for every
width of a level. -/
theorem layout_uniform :
    (∀ (c : Contract) (registry : Registry), '\n' ∉ c.name.toList →
      (∀ d ∈ c.knownParents registry, '\n' ∉ d.name.toList) →
      ∃ ls, IsLayout o (header c.name ((c.knownParents registry).map Contract.name))
          (c.fragments registry) ls ∧
        ∀ n, c.source registry { o with indent := n } = String.ofList (textOf n ls)) ∧
    ∀ (name : String) (components : List Placed), '\n' ∉ name.toList →
      ∃ ls, IsLayout o (header name []) (fragments components) ls ∧
        ∀ n, ofComponents { o with indent := n } name components = String.ofList (textOf n ls) := by
  constructor
  · intro c registry hname hparents
    have hheader := newline_not_mem_header hname (List.forall_mem_map.2 hparents)
    refine ⟨_, isLayout_fileLines hpragma hlicense hheader _, fun n => ?_⟩
    exact fileText_eq_textOf { o with indent := n } _ fun _ => Contract.isSolid_of_mem_fragments
  · intro name components hname
    have hheader := newline_not_mem_header hname (List.forall_mem_nil _)
    refine ⟨_, isLayout_fileLines hpragma hlicense hheader _, fun n => ?_⟩
    exact fileText_eq_textOf { o with indent := n } _ fun _ => isSolid_of_mem_fragments

end

namespace House

/-- A function that may be overridden. -/
def base : Contract :=
  ⟨"b", "Base", [⟨⟨"pay", "pay", "", .basic, [],
    .function ⟨.pub, .payable, [], [], [], true, "", []⟩⟩, .origin⟩], []⟩

/-- Carriage returns, a blank line and a no-break space in a body, and a line feed in a member. -/
def blocks : List Placed :=
  [⟨⟨"o", "open", "", .basic, [], .function ⟨.external, .view, [], [], [], false,
      "if (x) \x7b\r\n  y;\n\u00a0\n\x7d\r", [⟨"pay", "\n z;", true, false⟩]⟩⟩, .origin⟩,
    ⟨⟨"s", "Door", "", .basic, [], .struct [⟨"height", "uint\n  8"⟩]⟩, .origin⟩]

def house : Contract := ⟨"h", "House", blocks, ["b"]⟩

def registry : Registry := fun id => if id = "b" then some base else none

def options : SourceOptions := ⟨"pragma solidity ^0.8.0;", some "MIT", 4⟩

/-- The lines of the house. -/
def lines : List Line :=
  [⟨0, "// SPDX-License-Identifier: MIT".toList⟩, ⟨0, "pragma solidity ^0.8.0;".toList⟩, .empty,
    ⟨0, "contract House is Base \x7b".toList⟩,
    ⟨1, "function open() external view \x7b".toList⟩, ⟨2, "if (x) \x7b".toList⟩, ⟨2, "  y;".toList⟩,
    .empty, ⟨2, "\x7d".toList⟩, ⟨1, "\x7d".toList⟩, .empty,
    ⟨1, "function pay() public payable override \x7b".toList⟩, ⟨2, "super.pay();".toList⟩, .empty,
    ⟨2, " z;".toList⟩, ⟨1, "\x7d".toList⟩, .empty,
    ⟨1, "struct Door \x7b".toList⟩, ⟨2, "uint".toList⟩, ⟨2, "  8 height;".toList⟩, ⟨1, "\x7d".toList⟩,
    ⟨0, "\x7d".toList⟩]

end House

open House in
theorem layout_uniform_house :
    '\n' ∉ options.pragma.toList ∧ (∀ l ∈ options.license, '\n' ∉ l.toList) ∧
      '\n' ∉ house.name.toList ∧ (∀ d ∈ house.knownParents registry, '\n' ∉ d.name.toList) ∧
      IsLayout options (header "House" ["Base"]) (house.fragments registry) lines ∧
      (∀ n, house.source registry { options with indent := n } = String.ofList (textOf n lines)) ∧
      ∃ ls, IsLayout options (header "House" []) (fragments blocks) ls ∧
        ∀ n, ofComponents { options with indent := n } "House" blocks =
          String.ofList (textOf n ls) := by
  have hpragma : '\n' ∉ options.pragma.toList := by decide
  have hlicense : ∀ l ∈ options.license, '\n' ∉ l.toList := by decide
  have hname : '\n' ∉ house.name.toList := by decide
  have hparents : ∀ d ∈ house.knownParents registry, '\n' ∉ d.name.toList := by decide
  obtain ⟨hcontract, hblocks⟩ := layout_uniform hpragma hlicense
  obtain ⟨ls, hlayout, htext⟩ := hcontract house registry hname hparents
  have hlines : ls = lines := hlayout.eq.trans (by decide +kernel)
  subst hlines
  exact ⟨hpragma, hlicense, hname, hparents, hlayout, htext, hblocks "House" blocks hname⟩

end Source
end ContractBlocks
