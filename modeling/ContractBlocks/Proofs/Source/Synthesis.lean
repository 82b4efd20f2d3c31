/-
# The function that an override becomes

Between the header and the closing brace of the function that an override becomes stand the call of
the inherited function, if it is wanted, and then the lines of the stored body as any function would
show them (`StoredOverride.ownLines`).  There is one exception.  The body is put behind the call,
and a blank one without a line end between the two, so it does not lose its lines there as it does
by itself: it shows behind the call, as blank characters on the same line and as empty lines, unless
it is one of the five texts that leave nothing (`StoredOverride.Trails`).

`Contract.synthesized_lines` says this of the source of a contract, and also when a blank body is
told from an empty one.
-/

import ContractBlocks.Contract.Project
import ContractBlocks.Proofs.Source.Bodies
import ContractBlocks.Proofs.Source.Overrides
import ContractBlocks.Proofs.Text.Joined

namespace ContractBlocks

/-! ### A call and a body behind it -/

/-- The header of the function that replaces an inherited one. -/
def OverridableFunction.overrideHeader (f : OverridableFunction) : String :=
  f.headerText ++ " override" ++ returnsText f.returns

theorem OverridableFunction.exists_superCall_eq (f : OverridableFunction) :
    ∃ start, f.superCall.toList = start ++ [';'] := by
  refine ⟨"super.".toList ++ f.name.toList ++ ['('] ++
    (String.intercalate ", " (f.parameters.map Parameter.name)).toList ++ [')'], ?_⟩
  simp [superCall]

namespace Fragment

theorem insideLines_of_isBlank {body : String} (h : Text.isBlank body.toList) :
    insideLines body = [] := by
  rw [insideLines, Source.bodyLines, if_pos h]
  rfl

/-- A line of a body inside a contract. -/
def insideLine (line : List Char) : Source.Line := .ofContent 2 (Text.dropReturn line)

theorem insideLines_of_not_isBlank {body : String} (h : Text.isBlank body.toList = false) :
    insideLines body = (Text.lines body.toList).map insideLine := by
  rw [insideLines, Source.bodyLines_of_not_isBlank h]
  rfl

theorem insideLine_of_isBlank {line : List Char} (h : Text.isBlank line) :
    insideLine line = .empty := by
  rw [insideLine, Source.Line.ofContent, Text.isBlank_dropReturn, if_pos h]

/-- A line keeps its text if what stands behind the text is dropped. -/
theorem insideLine_concat_append {c : Char} (h : Text.isBlankChar c = false) (a b : List Char) :
    insideLine (a ++ [c] ++ b) = ⟨2, a ++ [c] ++ Text.dropReturn b⟩ := by
  have hc : c ≠ '\r' := by
    rintro rfl
    exact absurd h (by decide)
  rw [insideLine, Text.dropReturn_concat_append hc, Source.Line.ofContent, if_neg]
  simp [Text.isBlank, h]

end Fragment

namespace StoredOverride

variable {s : StoredOverride} {target : OverridableFunction}

/-- What stands between the header and the closing brace of the synthesized function. -/
def innerLines (s : StoredOverride) (target : OverridableFunction) : List Source.Line :=
  Fragment.insideLines (s.bodyText target)

/-- What should stand there: the call, if it is wanted, and the lines of the body as they are shown
in any function. -/
def ownLines (s : StoredOverride) (target : OverridableFunction) : List Source.Line :=
  (if s.superCall then Fragment.insideLines target.superCall else []) ++ Fragment.insideLines s.body

/-- The body is blank, and it shows behind the call all the same. -/
def Trails (s : StoredOverride) : Prop :=
  s.superCall ∧ Text.isBlank s.body.toList ∧ ¬Text.LeavesNothing s.body.toList

/-- What a blank body shows on the line of the call. -/
def trail (s : StoredOverride) : List Char :=
  Text.dropReturn ((Text.lines s.body.toList).headD [])

/-- What a blank body shows below the call. -/
def trailLines (s : StoredOverride) : List Source.Line :=
  List.replicate (Text.lines s.body.toList).tail.length .empty

theorem lines_fragment (s : StoredOverride) (target : OverridableFunction) :
    (s.fragment target).lines =
      Fragment.headLines target.overrideHeader ++ s.innerLines target ++ [⟨1, ['\x7d']⟩] := rfl

theorem isBlank_superCall_append (target : OverridableFunction) (body : List Char) :
    Text.isBlank (target.superCall.toList ++ body) = false := by
  obtain ⟨start, hstart⟩ := target.exists_superCall_eq
  rw [hstart, Text.isBlank_append, Text.isBlank_append, show Text.isBlank [';'] = false by decide,
    Bool.and_false, Bool.false_and]

/-- **A body that is not blank** has its lines below the call. -/
theorem innerLines_of_not_isBlank (h : Text.isBlank s.body.toList = false) :
    s.innerLines target = s.ownLines target := by
  unfold innerLines ownLines bodyText
  split
  · obtain ⟨start, hstart⟩ := target.exists_superCall_eq
    have hcall : Text.lines target.superCall.toList =
        (Text.pieces target.superCall.toList).map Text.dropReturn := by
      rw [hstart]
      exact Text.lines_append_last (by decide) (by decide) start
    have htext : (target.superCall ++ "\n" ++ s.body).toList =
        target.superCall.toList ++ '\n' :: s.body.toList := by simp
    have hblank := isBlank_superCall_append target
    rw [if_neg (by simp [h]), Fragment.insideLines_of_not_isBlank (htext ▸ hblank _), htext,
      Text.lines_append_newline, ← hcall, List.map_append, Fragment.insideLines_of_not_isBlank h,
      Fragment.insideLines_of_not_isBlank (by simpa using hblank [])]
  · rfl

/-- **A blank body behind the call:** its first line is joined to the last one of the call, and its
other lines are empty. -/
theorem exists_innerLines_of_isBlank (target : OverridableFunction) (hs : s.superCall)
    (h : Text.isBlank s.body.toList) :
    ∃ front call, s.ownLines target = front ++ [⟨2, call⟩] ∧
      s.innerLines target = front ++ ⟨2, call ++ s.trail⟩ :: s.trailLines := by
  obtain ⟨start, hstart⟩ := target.exists_superCall_eq
  obtain ⟨front, l, hlines⟩ := Text.lines_concat_append (c := ';') (by decide) (by decide) start
  rw [← hstart] at hlines
  have hcall : Text.lines target.superCall.toList = front ++ [l ++ [';']] := by
    simpa using hlines []
  have hlast := Fragment.insideLine_concat_append (c := ';') (by decide) l
  have htail : (Text.lines s.body.toList).tail.map Fragment.insideLine = s.trailLines := by
    rw [trailLines, List.eq_replicate_iff]
    refine ⟨List.length_map _, fun x hx => ?_⟩
    obtain ⟨m, hm, rfl⟩ := List.mem_map.1 hx
    exact Fragment.insideLine_of_isBlank (Text.isBlank_of_mem_lines h (List.mem_of_mem_tail hm))
  refine ⟨front.map Fragment.insideLine, l ++ [';'], ?_, ?_⟩
  · have hblank := isBlank_superCall_append target []
    have hnil := hlast []
    rw [show Text.dropReturn [] = [] from rfl, List.append_nil] at hnil
    rw [ownLines, if_pos hs, Fragment.insideLines_of_isBlank h, List.append_nil,
      Fragment.insideLines_of_not_isBlank (by simpa using hblank), hcall, List.map_append]
    exact congrArg (fun x => front.map Fragment.insideLine ++ [x]) hnil
  · have htext : (s.bodyText target).toList = target.superCall.toList ++ s.body.toList := by
      simp [bodyText, hs, h]
    rw [innerLines, Fragment.insideLines_of_not_isBlank (htext ▸ isBlank_superCall_append target _),
      htext, hlines, List.map_append, List.map_cons, htail, hlast]
    rfl

/-- The call is one line, unless a name in it has a line feed. -/
theorem insideLines_superCall (h : '\n' ∉ target.superCall.toList) :
    Fragment.insideLines target.superCall = [⟨2, target.superCall.toList⟩] := by
  obtain ⟨start, hstart⟩ := target.exists_superCall_eq
  have hblank := isBlank_superCall_append target []
  have hline := Fragment.insideLine_concat_append (c := ';') (by decide) start []
  rw [show Text.dropReturn [] = [] from rfl, List.append_nil] at hline
  have hlines := Text.lines_append_last (c := ';') (by decide) (by decide) start
  rw [← hstart, Text.pieces_of_newline_not_mem h, List.map_singleton] at hlines
  rw [Fragment.insideLines_of_not_isBlank (by simpa using hblank), hlines, List.map_singleton,
    hstart, Text.dropReturn_concat (by decide), hline]

theorem trails_iff (hs : s.superCall) (h : Text.isBlank s.body.toList) :
    s.Trails ↔ ¬(s.trail = [] ∧ s.trailLines = []) := by
  have htail : s.trailLines = [] ↔ (Text.lines s.body.toList).tail = [] := by
    rw [trailLines, List.replicate_eq_nil_iff, List.length_eq_zero_iff]
  rw [Trails, Text.leavesNothing_iff, htail]
  exact ⟨fun ht => ht.2.2, fun ht => ⟨hs, h, ht⟩⟩

/-- **Every other body** has its own lines below the call. -/
theorem innerLines_of_not_trails (h : ¬s.Trails) : s.innerLines target = s.ownLines target := by
  by_cases hb : Text.isBlank s.body.toList
  · by_cases hs : s.superCall
    · obtain ⟨front, call, hown, hinner⟩ := exists_innerLines_of_isBlank target hs hb
      obtain ⟨htrail, hlines⟩ := not_not.1 (mt (trails_iff hs hb).2 h)
      rw [hown, hinner, htrail, hlines, List.append_nil]
    · rw [innerLines, ownLines, bodyText, if_neg hs, if_neg hs, List.nil_append]
  · exact innerLines_of_not_isBlank (Bool.eq_false_iff.2 hb)

/-- **A body that trails** shows in the text, whatever the width of a level. -/
theorem textOf_innerLines_ne (h : s.Trails) (width : Nat) :
    Source.textOf width (s.innerLines target) ≠ Source.textOf width (s.ownLines target) := by
  obtain ⟨front, call, hown, hinner⟩ := exists_innerLines_of_isBlank target h.1 h.2.1
  have hempty : ∀ n, (Source.textOf width (List.replicate n .empty)).length = n := by
    intro n
    simp [Source.textOf, Source.Line.text, Source.Line.empty, List.length_flatMap]
  intro heq
  have hlength := congrArg List.length heq
  rw [hown, hinner] at hlength
  simp only [trailLines, Source.textOf_append, List.length_append, Nat.add_left_cancel_iff,
    ← List.singleton_append (l := List.replicate _ _), hempty] at hlength
  simp only [Source.textOf, Source.Line.text, List.flatMap_cons, List.flatMap_nil, List.append_nil,
    List.length_append, List.length_cons, List.length_nil] at hlength
  refine (trails_iff h.1 h.2.1).1 h ⟨List.length_eq_zero_iff.1 (by omega), ?_⟩
  rw [trailLines, show (Text.lines s.body.toList).tail.length = 0 by omega]
  rfl

theorem innerLines_eq_ownLines_iff : s.innerLines target = s.ownLines target ↔ ¬s.Trails :=
  ⟨fun h ht => textOf_innerLines_ne ht 0 (congrArg (Source.textOf 0) h), innerLines_of_not_trails⟩

/-- With an empty body an override has the lines that it should have with any blank one. -/
theorem innerLines_emptied (h : Text.isBlank s.body.toList) :
    { s with body := "" }.innerLines target = s.ownLines target := by
  have hnot : ¬{ s with body := "" }.Trails := fun ht => ht.2.2 List.mem_cons_self
  rw [innerLines_of_not_trails hnot, ownLines, ownLines, Fragment.insideLines_of_isBlank h,
    Fragment.insideLines_of_isBlank (show Text.isBlank "".toList from rfl)]

end StoredOverride

/-! ### The place of an override in the source -/

namespace Source

/-- The source down to a fragment: what stands before the fragments, and those before it, each with
an empty line behind it. -/
def textAbove (o : SourceOptions) (header : String) (before : List Fragment) : String :=
  String.ofList <| textOf o.indent <|
    prelude o ++ [⟨0, header.toList⟩] ++ before.flatMap fun f => f.lines ++ [.empty]

/-- The source from a fragment on: those behind it, each with an empty line before it, and the
closing brace. -/
def textBelow (o : SourceOptions) (behind : List Fragment) : String :=
  String.ofList <| textOf o.indent <| (behind.flatMap fun f => .empty :: f.lines) ++ [⟨0, ['\x7d']⟩]

/-- **A fragment between others** stands between the source down to it and the source from it on. -/
theorem fileText_append_cons (o : SourceOptions) (header : String) {before behind : List Fragment}
    {f : Fragment} (h : ∀ g ∈ before ++ f :: behind, g.IsSolid) :
    fileText o header (before ++ f :: behind) =
      textAbove o header before ++ String.ofList (textOf o.indent f.lines) ++
        textBelow o behind := by
  rw [fileText_eq_textOf o header h, fileLines, innerLines, List.map_append, List.map_cons,
    intercalate_append_cons, textAbove, textBelow, List.flatMap_map, List.flatMap_map,
    ← String.toList_inj]
  simp only [textOf_append, List.append_assoc, String.toList_append, String.toList_ofList]
  rfl

end Source

namespace Block

variable {b : Block}

theorem fragment?_patch_ofOverrides (os : List StoredOverride) :
    (b.patch (.ofOverrides os)).fragment? = b.fragment? := by
  unfold fragment?
  cases hk : b.kind <;> simp [patch, Patch.ofOverrides, Patch.empty, Kind.update, hk] <;> rfl

/-- Overrides that are set are those that the block keeps, if it is one that keeps some. -/
theorem overrides_patch_ofOverrides (h : b.overrides ≠ []) (os : List StoredOverride) :
    (b.patch (.ofOverrides os)).overrides = os := by
  obtain ⟨f, hf⟩ : ∃ f, b.kind = .function f := by
    unfold overrides at h
    split at h
    · exact ⟨_, ‹_›⟩
    · exact absurd rfl h
  simp [overrides, patch, Patch.ofOverrides, Patch.empty, Kind.update, hf, Kind.setOverrides]

end Block

/-- The function that an override becomes, if it becomes one. -/
def StoredOverride.fragment? (s : StoredOverride) (overridable : List OverridableFunction) :
    Option Fragment :=
  (s.target? overridable).map s.fragment

/-- What is written for an override between others stands between what is written for those. -/
theorem Block.overrideFragments_eq {b : Block} {s : StoredOverride}
    {before behind : List StoredOverride} {overridable : List OverridableFunction}
    {target : OverridableFunction} (hb : b.overrides = before ++ s :: behind)
    (hs : s.Replaces overridable target) :
    b.overrideFragments overridable = before.filterMap (·.fragment? overridable) ++
      s.fragment target :: behind.filterMap (·.fragment? overridable) := by
  have hfragments : b.overrideFragments overridable =
      b.overrides.filterMap (·.fragment? overridable) := by
    refine List.filterMap_congr fun o _ => ?_
    rw [StoredOverride.fragment?]
    cases o.target? overridable <;> rfl
  have hs' : s.fragment? overridable = some (s.fragment target) := by
    rw [StoredOverride.fragment?, StoredOverride.target?_eq_some_iff.2 hs, Option.map_some]
  rw [hfragments, hb, List.filterMap_append,
    List.filterMap_cons_some (f := fun o : StoredOverride => o.fragment? overridable) hs']

namespace Contract

variable {c d : Contract} {s t : StoredOverride} {registry : Registry}
  {target : OverridableFunction}

/-- The second contract is the first one with one stored override in the place of another. -/
def Swaps (c : Contract) (s t : StoredOverride) (d : Contract) : Prop :=
  ∃ front p back before behind, c.components = front ++ p :: back ∧
    p.block.overrides = before ++ s :: behind ∧
    d = { c with components := front ++
      { p with block := p.block.patch (.ofOverrides (before ++ t :: behind)) } :: back }

/-- What is written for blocks: the source form of each, and the functions that its overrides
become. -/
def written (overridable : List OverridableFunction) (components : List Placed) : List Fragment :=
  components.flatMap fun p => p.block.fragment?.toList ++ p.block.overrideFragments overridable

theorem fragments_append_cons {front back : List Placed} {p : Placed}
    (hc : c.components = front ++ p :: back) (registry : Registry) :
    c.fragments registry = written (c.overridable registry) front ++
      (p.block.fragment?.toList ++ p.block.overrideFragments (c.overridable registry)) ++
        written (c.overridable registry) back := by
  simp only [fragments_eq, blocks, hc, List.flatMap_map, List.flatMap_append, List.flatMap_cons,
    written, List.append_assoc]

/-- **Two overrides of one function in one place** are written in one place, among the same other
fragments. -/
theorem Swaps.exists_fragments (h : c.Swaps s t d)
    (hs : s.Replaces (c.overridable registry) target)
    (ht : t.Replaces (c.overridable registry) target) :
    ∃ above below, c.fragments registry = above ++ s.fragment target :: below ∧
      d.fragments registry = above ++ t.fragment target :: below := by
  obtain ⟨front, p, back, before, behind, hc, hp, rfl⟩ := h
  let overridable := c.overridable registry
  have hne : p.block.overrides ≠ [] := by simp [hp]
  have hnew := Block.overrides_patch_ofOverrides hne (before ++ t :: behind)
  refine ⟨written overridable front ++ (p.block.fragment?.toList ++
      before.filterMap (·.fragment? overridable)),
    behind.filterMap (·.fragment? overridable) ++ written overridable back, ?_, ?_⟩
  · rw [fragments_append_cons hc, Block.overrideFragments_eq hp hs]
    simp [overridable]
  · -- what may be overridden does not depend on the components
    have hsame : ∀ components, Contract.overridable { c with components := components } registry =
        overridable := fun _ => rfl
    rw [fragments_append_cons rfl, hsame, Block.fragment?_patch_ofOverrides,
      Block.overrideFragments_eq hnew ht]
    simp [overridable]

/-- **Where the function of an override stands** in the source: its header, its lines and the
closing brace, between what is written before and what is written behind. -/
theorem source_of_fragments {above below : List Fragment} (o : SourceOptions)
    (h : c.fragments registry = above ++ s.fragment target :: below) :
    c.source registry o =
      Source.textAbove o (Source.header c.name ((c.knownParents registry).map Contract.name))
          above ++
        String.ofList (Source.textOf o.indent (Fragment.headLines target.overrideHeader ++
          s.innerLines target ++ [⟨1, ['\x7d']⟩])) ++
        Source.textBelow o below := by
  have hsolid : ∀ g ∈ above ++ s.fragment target :: below, g.IsSolid := by
    rw [← h]
    exact fun g hg => isSolid_of_mem_fragments hg
  rw [source, h, Source.fileText_append_cons o _ hsolid, StoredOverride.lines_fragment]

/-- **The lines of a synthesized function.**  For each stored override whose function may be
overridden, there are between the header and the closing brace the call of the inherited function,
if it is wanted, and the lines that any function with the body of the override has, unless the body
trails.  A body that trails shows behind the call and below it, and no other blank body is told from
an empty one. -/
theorem synthesized_lines (o : SourceOptions) (hd : c.Swaps s { s with body := "" } d)
    (hs : s.Replaces (c.overridable registry) target) :
    ∃ above below, c.fragments registry = above ++ s.fragment target :: below ∧
      c.source registry o =
        Source.textAbove o (Source.header c.name ((c.knownParents registry).map Contract.name))
            above ++
          String.ofList (Source.textOf o.indent (Fragment.headLines target.overrideHeader ++
            s.innerLines target ++ [⟨1, ['\x7d']⟩])) ++
          Source.textBelow o below ∧
      (s.innerLines target = s.ownLines target ↔ ¬s.Trails) ∧
      (s.Trails → ∃ front call, s.ownLines target = front ++ [⟨2, call⟩] ∧
        s.innerLines target = front ++ ⟨2, call ++ s.trail⟩ :: s.trailLines) ∧
      ('\n' ∉ target.superCall.toList →
        Fragment.insideLines target.superCall = [⟨2, target.superCall.toList⟩]) ∧
      (Text.isBlank s.body.toList → (c.source registry o = d.source registry o ↔ ¬s.Trails)) := by
  obtain ⟨above, below, hc, hd'⟩ := hd.exists_fragments hs (t := { s with body := "" }) hs
  have hheader : Source.header d.name ((d.knownParents registry).map Contract.name) =
      Source.header c.name ((c.knownParents registry).map Contract.name) := by
    obtain ⟨front, p, back, before, behind, -, -, rfl⟩ := hd
    rfl
  have hsource := source_of_fragments o hc
  refine ⟨above, below, hc, hsource, StoredOverride.innerLines_eq_ownLines_iff,
    fun ht => StoredOverride.exists_innerLines_of_isBlank target ht.1 ht.2.1,
    StoredOverride.insideLines_superCall, fun hb => ?_⟩
  have htext : c.source registry o = d.source registry o ↔
      Source.textOf o.indent (s.innerLines target) =
        Source.textOf o.indent (s.ownLines target) := by
    rw [hsource, source_of_fragments o hd', hheader, StoredOverride.innerLines_emptied hb,
      ← String.toList_inj]
    simp [Source.textOf_append]
  rw [htext]
  refine ⟨fun heq ht => StoredOverride.textOf_innerLines_ne ht o.indent heq, fun ht => ?_⟩
  rw [StoredOverride.innerLines_of_not_trails ht]

/-! ### A blank body that trails -/

namespace Pausable

def base : Contract :=
  ⟨"base", "Base", [⟨⟨"pause", "pause", "", .basic, [],
    .function ⟨.pub, .nonpayable, [], [], [], true, "", []⟩⟩, .origin⟩], []⟩

/-- The override of `pause`, with the call and the given body. -/
def override (body : String) : StoredOverride := ⟨"pause", body, true, false⟩

/-- A contract that keeps the override with a function of its own. -/
def token (body : String) : Contract :=
  ⟨"token", "Token", [⟨⟨"resume", "resume", "", .basic, [],
    .function ⟨.pub, .nonpayable, [], [], [], false, "", [override body]⟩⟩, .origin⟩], ["base"]⟩

def project (body : String) : Project := ⟨"p", "Pausable", [base, token body], none, .idle⟩

/-- The inherited function. -/
def pause : OverridableFunction := ⟨"pause", "pause", .pub, .nonpayable, [], [], true, "Base", ""⟩

end Pausable

open Pausable in
theorem synthesized_lines_pausable :
    (token "  \n\n").Swaps (override "  \n\n") (override "") (token "") ∧
      (override "  \n\n").Replaces
        ((token "  \n\n").overridable (project "  \n\n").contract?) pause ∧
      (override "  \n\n").Trails ∧
      (override "  \n\n").innerLines pause = [⟨2, "super.pause();  ".toList⟩, .empty] ∧
      (override "  \n\n").ownLines pause = [⟨2, "super.pause();".toList⟩] ∧
      (token "  \n\n").source (project "  \n\n").contract? .standard ≠
        (token "").source (project "  \n\n").contract? .standard := by
  have hswaps : (token "  \n\n").Swaps (override "  \n\n") (override "") (token "") :=
    ⟨[], _, [], [], [], rfl, rfl, rfl⟩
  have hreplaces : (override "  \n\n").Replaces
      ((token "  \n\n").overridable (project "  \n\n").contract?) pause :=
    ⟨rfl, [], [], rfl, List.forall_mem_nil _⟩
  have htrails : (override "  \n\n").Trails := ⟨rfl, by decide, by decide⟩
  obtain ⟨above, below, -, -, -, -, -, hblank⟩ := synthesized_lines .standard hswaps hreplaces
  exact ⟨hswaps, hreplaces, htrails, by decide +kernel, by decide +kernel,
    fun h => (hblank htrails.2.1).1 h htrails⟩

open Pausable in
/-- A blank body adds blank characters behind the call and an empty line below it, which an empty
body does not. -/
theorem blank_override_shown :
    Text.isBlank "  \n\n".toList ∧
      (token "").source (project "").contract? .standard =
        "pragma solidity ^0.8.0;\n\ncontract Token is Base \x7b\n"
          ++ "    function resume() public nonpayable \x7b\n    \x7d\n\n"
          ++ "    function pause() public nonpayable override \x7b\n"
          ++ "        super.pause();\n    \x7d\n\x7d\n" ∧
      (token "  \n\n").source (project "  \n\n").contract? .standard =
        "pragma solidity ^0.8.0;\n\ncontract Token is Base \x7b\n"
          ++ "    function resume() public nonpayable \x7b\n    \x7d\n\n"
          ++ "    function pause() public nonpayable override \x7b\n"
          ++ "        super.pause();  \n\n    \x7d\n\x7d\n" ∧
      (override "  \n\n").innerLines pause ≠ (override "  \n\n").ownLines pause := by
  refine ⟨by decide, by decide +kernel, by decide +kernel, by decide +kernel⟩

end Contract
end ContractBlocks
