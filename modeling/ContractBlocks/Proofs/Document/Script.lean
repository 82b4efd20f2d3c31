/-
# Seeds, patches and operations are decoded faithfully

A seed or a patch is written with all its fields, `null` where it has nothing, so what is missing
from a document is `null` in the written one.  An operation is read by its tag, whether that is a
field among others or stands first in an array.
-/

import ContractBlocks.Document.Script
import ContractBlocks.Proofs.Document.Block

namespace ContractBlocks

theorem Seed.faithful : decode.Faithful encode 2 := by
  refine .record (by decide) fun {room r s} hroom hr h => ?_
  simp only [Option.bind_eq_bind, Option.bind_eq_some_iff, Option.pure_def,
    Option.some.injEq] at h
  obtain ⟨name, hname, description, hdescription, category, hcategory, visibility, hvisibility,
    stateMutability, hmutability, dataType, htype, defaults, hdefaults, rfl⟩ := h
  exact ⟨_, rfl, .optional (hr.optional .text hname (by omega)) <|
    .optional (hr.optional .text hdescription (by omega)) <|
    .optional (hr.optional (Category.faithful.nullable nofun) hcategory (by omega)) <|
    .optional (hr.optional (Visibility.faithful.nullable nofun) hvisibility (by omega)) <|
    .optional (hr.optional (StateMutability.faithful.nullable nofun) hmutability (by omega)) <|
    .optional (hr.optional .text htype (by omega)) <|
    .withDefault (hr.withDefault .anyMap (Decoder.keeps_anyMap_empty (by omega)) hdefaults
      (by omega)) .nil⟩

theorem Seed.encode_ne_null (s : Seed) : s.encode ≠ .null := by
  unfold encode
  nofun

theorem Patch.faithful : decode.Faithful encode 3 := by
  refine .record (by decide) fun {room r p} hroom hr h => ?_
  simp only [Option.bind_eq_bind, Option.bind_eq_some_iff, Option.pure_def,
    Option.some.injEq] at h
  obtain ⟨name, hname, description, hdescription, category, hcategory, visibility, hvisibility,
    parameters, hparameters, body, hbody, overrides, hoverrides, rfl⟩ := h
  exact ⟨_, rfl, .optional (hr.optional .text hname (by omega)) <|
    .optional (hr.optional .text hdescription (by omega)) <|
    .optional (hr.optional (Category.faithful.nullable nofun) hcategory (by omega)) <|
    .optional (hr.optional (Visibility.faithful.nullable nofun) hvisibility (by omega)) <|
    .optional (hr.optional (Parameter.faithful_list.nullable nofun) hparameters (by omega)) <|
    .optional (hr.optional .text hbody (by omega)) <|
    .optional (hr.optional (StoredOverride.faithful.list.nullable nofun) hoverrides (by omega))
      .nil⟩

/-- **An operation is decoded faithfully,** whichever it is. -/
theorem Operation.faithful : decode.Faithful encode 4 := by
  refine .tagged fun {room r operation tag c} hroom hc hr h => ?_
  unfold cases at hc
  split at hc
  case h_7 => cases hc
  all_goals
    obtain rfl := Option.some.inj hc
    refine ⟨by decide, by decide, ?_⟩
  case h_1 =>
    simp only [Option.bind_eq_bind, Option.bind_eq_some_iff, Option.pure_def,
      Option.some.injEq] at h
    obtain ⟨tagName, htag, id, hid, seed, hseed, position, hposition, rfl⟩ := h
    exact ⟨_, rfl, .required (hr.required .string htag (by omega)) <|
      .withDefault (hr.withDefault .text Decoder.keeps_none hid (by omega)) <|
      .withDefault (hr.withDefault (Seed.faithful.nullable Seed.encode_ne_null)
        Decoder.keeps_none hseed (by omega)) <|
      .withDefault (hr.withDefault Position.faithful (Position.keeps (by omega) _) hposition
        (by omega)) .nil⟩
  case h_2 =>
    simp only [Option.bind_eq_bind, Option.bind_eq_some_iff, Option.pure_def,
      Option.some.injEq] at h
    obtain ⟨id, hid, patch, hpatch, rfl⟩ := h
    exact ⟨_, rfl, .required (hr.required .string hid (by omega)) <|
      .required (hr.required Patch.faithful hpatch (by omega)) .nil⟩
  case h_3 =>
    simp only [Option.bind_eq_bind, Option.bind_eq_some_iff, Option.pure_def,
      Option.some.injEq] at h
    obtain ⟨id, hid, position, hposition, rfl⟩ := h
    exact ⟨_, rfl, .required (hr.required .string hid (by omega)) <|
      .required (hr.required Position.faithful hposition (by omega)) .nil⟩
  case h_4 =>
    obtain ⟨id, hid, rfl⟩ := Option.map_eq_some_iff.1 h
    exact ⟨_, rfl, .map _ <| .last <| .required (hr.required .string hid (by omega)) .nil⟩
  case h_5 =>
    obtain rfl := Option.some.inj h
    exact ⟨_, rfl, .nil⟩
  case h_6 =>
    obtain rfl := Option.some.inj h
    exact ⟨_, rfl, .nil⟩

end ContractBlocks
