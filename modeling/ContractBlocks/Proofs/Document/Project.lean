/-
# Contracts and projects are decoded faithfully

What a contract or a project leaves out when it is written, the parents of a contract without any and
the current contract of a project without one, is what a missing field stands for.
-/

import ContractBlocks.Document.Project
import ContractBlocks.Proofs.Document.Block

namespace ContractBlocks

theorem Contract.faithful_parent : decodeParent.Faithful encodeParent 1 :=
  .record (by decide) fun {_ _ _} _ hr h =>
    ⟨_, rfl, .last <| .required (hr.required .string h (by omega)) .nil⟩

theorem Contract.faithful : decode.Faithful encode 7 := by
  refine .record (by decide) fun {room r c} hroom hr h => ?_
  simp only [Option.bind_eq_bind, Option.bind_eq_some_iff, Option.pure_def,
    Option.some.injEq] at h
  obtain ⟨id, hid, name, hname, components, hcomponents, parents, hparents, rfl⟩ := h
  refine ⟨_, ?_, .required (hr.required .string hid (by omega)) <|
    .required (hr.required .string hname (by omega)) <|
    .withDefault (hr.withDefault Placed.faithful.list (Decoder.keeps_nil (by omega)) hcomponents
      (by omega)) <|
    .fieldIf (hr.withDefault faithful_parent.list (Decoder.keeps_nil (by omega)) hparents
      (by omega)) .nil⟩
  simp [encode]

theorem DeploymentStatus.faithful : decode.Faithful encode 0 := .oneOf _ _

/-- **A project is decoded faithfully.** -/
theorem Project.faithful : decode.Faithful encode 9 := by
  refine .record (by decide) fun {room r p} hroom hr h => ?_
  simp only [Option.bind_eq_bind, Option.bind_eq_some_iff, Option.pure_def,
    Option.some.injEq] at h
  obtain ⟨id, hid, name, hname, contracts, hcontracts, currentId, hcurrent, deployment,
    hdeployment, rfl⟩ := h
  refine ⟨_, ?_, .required (hr.required .string hid (by omega)) <|
    .required (hr.required .string hname (by omega)) <|
    .withDefault (hr.withDefault Contract.faithful.list (Decoder.keeps_nil (by omega)) hcontracts
      (by omega)) <|
    .fieldOf (hr.withDefault .text Decoder.keeps_none hcurrent (by omega)) <|
    .withDefault (hr.withDefault DeploymentStatus.faithful ⟨Json.fits_string _, fun _ _ => rfl⟩
      hdeployment (by omega)) .nil⟩
  simp [encode]

end ContractBlocks
