/-
# Findings stay with their block

A finding is about the block that is checked (`Rule.component_of_mem_check`).  The rules look at that
block, and two of them at the contract besides: the one about overrides at the contracts that it
descends from, not at its own blocks, and the one about constants at the code of every block.  So of
what is found about a block, another one in the contract can take away no more than that it could be a
constant, by writing to its name (`Checker.check_insert`).

`Checker.checkContract_insert` says so for a whole contract and a block put in anywhere.  Read from the
longer contract to the shorter one, it says what taking a block out can add.
-/

import ContractBlocks.Proofs.Security.ConstantCandidate
import ContractBlocks.Proofs.Security.Hazard

namespace ContractBlocks

/-- A code line of the block writes to the name. -/
def Block.writes (b : Block) (name : String) : Bool :=
  b.codeLines.any fun l => Code.writesTo l name.toList

namespace Rule

/-- **A finding of a built-in rule is about the block that is checked.** -/
theorem component_of_mem_check {r : Rule} (hr : r ∈ builtin) (s : Surroundings) (b : Block) :
    ∀ f ∈ r.check s b, f.component = b.id := by
  simp only [builtin, List.mem_cons, List.not_mem_nil, or_false] at hr
  rcases hr with rfl | rfl | rfl | rfl | rfl | rfl | rfl | rfl | rfl
  · exact forall_mem_reentrancy fun _ => rfl
  · exact forall_mem_perLine fun _ => rfl
  · exact forall_mem_perLine fun _ => rfl
  · exact forall_mem_perLine fun _ => rfl
  · exact forall_mem_accessControl rfl
  · exact forall_mem_perLine fun _ => rfl
  · exact forall_mem_perLine fun _ => rfl
  · exact forall_mem_orphanedOverride fun _ => rfl
  · exact forall_mem_constantCandidate rfl

/-- The rule reports the same about a block, whatever blocks its contract has. -/
def IgnoresBlocks (r : Rule) : Prop :=
  ∀ (c : Contract) (registry : Registry) (ps : List Placed) (b : Block),
    r.check (.ofContract { c with components := ps } registry) b =
      r.check (.ofContract c registry) b

/-- **All rules but the one about constants ignore the other blocks.** -/
theorem ignoresBlocks {r : Rule} (hr : r ∈ builtin.take 8) : r.IgnoresBlocks := by
  intro c registry ps b
  simp only [builtin, List.take_succ_cons, List.take_zero, List.mem_cons, List.not_mem_nil,
    or_false] at hr
  rcases hr with rfl | rfl | rfl | rfl | rfl | rfl | rfl | rfl <;> rfl

variable {c d : Contract} {p : Placed} {before after : List Placed}

theorem isWritten_insert (hc : c.components = before ++ after)
    (hd : d = { c with components := before ++ p :: after }) (name : String) :
    isWritten d name = (p.block.writes name || isWritten c name) := by
  simp only [isWritten, Contract.blocks, hc, hd, List.map_append, List.map_cons, List.any_append,
    List.any_cons, Block.writes]
  rw [Bool.or_left_comm]

/-- **A variable is no longer reported as a constant if the block that is put in writes to its
name,** and otherwise it is reported as before. -/
theorem constantCandidate_check_insert (hc : c.components = before ++ after)
    (hd : d = { c with components := before ++ p :: after }) (registry : Registry) (b : Block) :
    constantCandidate.check (.ofContract d registry) b =
      if p.block.writes b.name then [] else constantCandidate.check (.ofContract c registry) b := by
  have hwritten := isWritten_insert hc hd b.name
  simp only [constantCandidate, Surroundings.ofContract]
  cases b.kind <;> cases hw : p.block.writes b.name <;> simp [hwritten, hw]

end Rule

namespace Checker

variable {c d : Contract} {p : Placed} {before after : List Placed}

/-- What is left of the findings about a block of the contract when another one has been put in: all
but that it could be a constant, if the code of the other one writes to its name. -/
def left (c : Contract) (registry : Registry) (p : Placed) (b : Block) : List Finding :=
  (builtin.check (.ofContract c registry) b).filter fun f =>
    f.hazard ≠ .constantCandidate || !p.block.writes b.name

theorem left_sublist (c : Contract) (registry : Registry) (p : Placed) (b : Block) :
    (left c registry p b).Sublist (builtin.check (.ofContract c registry) b) :=
  List.filter_sublist

/-- Only that a block could be a constant is not left. -/
theorem hazard_of_notMem_left {registry : Registry} {b : Block} {f : Finding}
    (hf : f ∈ builtin.check (.ofContract c registry) b) (hleft : f ∉ left c registry p b) :
    f.hazard = .constantCandidate := by
  by_contra hne
  exact hleft (List.mem_filter.2 ⟨hf, by simp [hne]⟩)

theorem component_of_mem_check {s : Surroundings} {b : Block} {f : Finding}
    (hf : f ∈ builtin.check s b) : f.component = b.id := by
  obtain ⟨r, hr, hf⟩ := List.mem_flatMap.1 hf
  exact Rule.component_of_mem_check hr s b f hf

/-- The rule about constants comes last. -/
theorem check_builtin (s : Surroundings) (b : Block) :
    builtin.check s b = check ⟨Rule.builtin.take 8⟩ s b ++ Rule.constantCandidate.check s b := by
  have hrules : Rule.builtin = Rule.builtin.take 8 ++ [Rule.constantCandidate] := rfl
  rw [check, builtin, hrules, List.flatMap_append, List.flatMap_singleton]
  rfl

/-- **One more block leaves the findings about a block as they are,** but for a constant that it
writes to. -/
theorem check_insert (hc : c.components = before ++ after)
    (hd : d = { c with components := before ++ p :: after }) (registry : Registry) (b : Block) :
    builtin.check (.ofContract d registry) b = left c registry p b := by
  have hothers : check ⟨Rule.builtin.take 8⟩ (.ofContract d registry) b =
      check ⟨Rule.builtin.take 8⟩ (.ofContract c registry) b := by
    rw [hd]
    exact List.flatMap_congr fun r hr => Rule.ignoresBlocks hr c registry _ b
  have hne : ∀ f ∈ check ⟨Rule.builtin.take 8⟩ (.ofContract c registry) b,
      f.hazard ≠ .constantCandidate := by
    intro f hf h
    have hmem := hazard_mem_of_mem_check (List.forall₂_take 8 Rule.builtin_isAbout) hf
    rw [h] at hmem
    exact absurd hmem (by decide)
  have hconstant : ∀ f ∈ Rule.constantCandidate.check (.ofContract c registry) b,
      f.hazard = .constantCandidate := Rule.constantCandidate_isAbout _ _
  rw [left, check_builtin, check_builtin, hothers, Rule.constantCandidate_check_insert hc hd,
    List.filter_append, List.filter_eq_self.2 fun f hf => by simp [hne f hf]]
  congr 1
  cases hwrites : p.block.writes b.name with
  | true => exact (List.filter_eq_nil_iff.2 fun f hf => by simp [hconstant f hf]).symm
  | false => exact (List.filter_eq_self.2 fun f _ => by simp).symm

/-- **Findings are local.**  When a block is put into a contract anywhere, the findings are, in the
order of the contract, what is left of those about each of the others, and in its place its own.
Every finding is about the block that it is made for.  Of the findings about a block in the shorter
contract, those in the longer one are a part, in the same order, and what is missing is only that it
could be a constant. -/
theorem checkContract_insert (hc : c.components = before ++ after)
    (hd : d = { c with components := before ++ p :: after }) (registry : Registry) :
    builtin.checkContract c registry =
        (before ++ after).flatMap (fun q => builtin.check (.ofContract c registry) q.block) ∧
      builtin.checkContract d registry =
        before.flatMap (fun q => left c registry p q.block) ++
          builtin.check (.ofContract d registry) p.block ++
          after.flatMap (fun q => left c registry p q.block) ∧
      (∀ s b, ∀ f ∈ builtin.check s b, f.component = b.id) ∧
      ∀ b, (builtin.check (.ofContract d registry) b).Sublist
          (builtin.check (.ofContract c registry) b) ∧
        ∀ f ∈ builtin.check (.ofContract c registry) b,
          f ∉ builtin.check (.ofContract d registry) b → f.hazard = .constantCandidate := by
  have hcheck := check_insert hc hd registry
  refine ⟨?_, ?_, fun _ _ _ => component_of_mem_check, fun b => ?_⟩
  · rw [checkContract, Contract.blocks, hc, List.flatMap_map]
  · have hblocks : d.blocks = before.map Placed.block ++ p.block :: after.map Placed.block := by
      simp [hd, Contract.blocks]
    rw [checkContract, hblocks, List.flatMap_append, List.flatMap_cons, List.flatMap_map,
      List.flatMap_map, ← List.append_assoc]
    simp only [hcheck]
  · rw [hcheck b]
    exact ⟨left_sublist c registry p b, fun _ => hazard_of_notMem_left⟩

/-- The flags by themselves. -/
def flagsAlone : Contract := ⟨"switches", "Switches", [⟨Rule.flags, .origin⟩], []⟩

/-- The statements of a function that sets them for the origin of a transaction. -/
def settingBody : String := "require(tx.origin == owner);\nflags = 2;"

/-- That function. -/
def setting : Placed :=
  ⟨⟨"toggle", "toggle", "", .basic, [],
    .function ⟨.pub, .nonpayable, [], [], [], false, settingBody, []⟩⟩, .origin⟩

/-- By themselves the flags could be constant.  With the function, all that is found is about the
function. -/
theorem checkContract_insert_setting :
    flagsAlone.components = [⟨Rule.flags, .origin⟩] ++ [] ∧
      Rule.switches settingBody =
        { flagsAlone with components := [⟨Rule.flags, .origin⟩] ++ setting :: [] } ∧
      builtin.checkContract flagsAlone (fun _ => none) =
        [Rule.constantCandidateFinding Rule.flags] ∧
      builtin.checkContract (Rule.switches settingBody) (fun _ => none) =
        [Rule.txOriginFinding setting.block "require(tx.origin == owner);"] := by
  have hd : Rule.switches settingBody =
      { flagsAlone with components := [⟨Rule.flags, .origin⟩] ++ setting :: [] } := rfl
  obtain ⟨hshort, hlong, -⟩ := checkContract_insert rfl hd fun _ => none
  refine ⟨rfl, hd, ?_, ?_⟩
  · rw [hshort]
    decide +kernel
  · rw [hlong]
    decide +kernel

end Checker

end ContractBlocks
