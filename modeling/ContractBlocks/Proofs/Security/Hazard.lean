/-
# One rule for each hazard

Every built-in rule reports one hazard, and no two of them the same (`Rule.builtin_isAbout`).  So
the findings about a hazard are those of its rule, whatever the other rules report
(`Checker.filter_check`).
-/

import Mathlib.Data.List.Basic
import Mathlib.Data.List.Forall2
import ContractBlocks.Security.Checker

namespace ContractBlocks

namespace Rule

/-! ### What each rule can report -/

section Reports

variable {s : Surroundings} {b : Block} {P : Finding → Prop}

theorem forall_mem_perLine {lines : List (List Char)} {finding : Option String → Finding}
    (h : ∀ code, P (finding code)) : ∀ f ∈ perLine lines finding, P f :=
  List.forall_mem_map.2 fun _ _ => h _

theorem forall_mem_reentrancy (h : ∀ code, P (reentrancyFinding b code)) :
    ∀ f ∈ reentrancy.check s b, P f := by
  simp only [reentrancy]
  split
  · exact List.forall_mem_nil P
  · split
    · exact List.forall_mem_nil P
    · exact forall_mem_perLine h

theorem forall_mem_accessControl (h : P (accessControlFinding b)) :
    ∀ f ∈ accessControl.check s b, P f := by
  simp only [accessControl]
  split
  · exact List.forall_mem_nil P
  · split
    · exact List.forall_mem_singleton.2 h
    · exact List.forall_mem_nil P

theorem forall_mem_orphanedOverride (h : ∀ conflict, P (orphanedOverrideFinding b conflict)) :
    ∀ f ∈ orphanedOverride.check s b, P f := by
  simp only [orphanedOverride]
  split
  · exact List.forall_mem_map.2 fun conflict _ => h conflict
  · exact List.forall_mem_nil P

theorem forall_mem_constantCandidate (h : P (constantCandidateFinding b)) :
    ∀ f ∈ constantCandidate.check s b, P f := by
  simp only [constantCandidate]
  split
  · split
    · exact List.forall_mem_singleton.2 h
    · exact List.forall_mem_nil P
  · exact List.forall_mem_nil P

end Reports

/-! ### The hazard of a rule -/

/-- Whatever the rule reports, it is that hazard. -/
def IsAbout (r : Rule) (h : Hazard) : Prop := ∀ s b, ∀ f ∈ r.check s b, f.hazard = h

/-- A rule that makes its finding for some of the lines is about the hazard of that finding. -/
theorem isAbout_perLine {name : String} {lines : Block → List (List Char)}
    (finding : Block → Option String → Finding) {h : Hazard}
    (hf : ∀ b code, (finding b code).hazard = h) :
    IsAbout ⟨name, fun _ b => perLine (lines b) (finding b)⟩ h := fun _ b =>
  forall_mem_perLine (hf b)

theorem reentrancy_isAbout : reentrancy.IsAbout .reentrancy := fun _ _ =>
  forall_mem_reentrancy fun _ => rfl

theorem accessControl_isAbout : accessControl.IsAbout .accessControl := fun _ _ =>
  forall_mem_accessControl rfl

theorem orphanedOverride_isAbout : orphanedOverride.IsAbout .orphanedOverride := fun _ _ =>
  forall_mem_orphanedOverride fun _ => rfl

theorem constantCandidate_isAbout : constantCandidate.IsAbout .constantCandidate := fun _ _ =>
  forall_mem_constantCandidate rfl

/-- **Each built-in rule reports its own hazard.** -/
theorem builtin_isAbout : List.Forall₂ IsAbout builtin Hazard.all :=
  .cons reentrancy_isAbout <|
  .cons (isAbout_perLine txOriginFinding fun _ _ => rfl) <|
  .cons (isAbout_perLine uncheckedCallFinding fun _ _ => rfl) <|
  .cons (isAbout_perLine selfdestructFinding fun _ _ => rfl) <|
  .cons accessControl_isAbout <|
  .cons (isAbout_perLine timestampFinding fun _ _ => rfl) <|
  .cons (isAbout_perLine unboundedLoopFinding fun _ _ => rfl) <|
  .cons orphanedOverride_isAbout <|
  .cons constantCandidate_isAbout .nil

end Rule

namespace Checker

variable {rules : List Rule} {hazards : List Hazard}

/-- A checker reports only what its rules are about. -/
theorem hazard_mem_of_mem_check (hr : List.Forall₂ Rule.IsAbout rules hazards) {s : Surroundings}
    {b : Block} {f : Finding} (hf : f ∈ check ⟨rules⟩ s b) : f.hazard ∈ hazards := by
  induction hr with
  | nil => cases hf
  | cons ha _ ih =>
    rcases List.mem_append.1 hf with hf | hf
    · exact List.mem_cons.2 (Or.inl (ha s b f hf))
    · exact List.mem_cons_of_mem _ (ih hf)

end Checker

end ContractBlocks
