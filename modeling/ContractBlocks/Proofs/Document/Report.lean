/-
# Reports are decoded faithfully

Violations and inheritance issues are read by their tag, and what each of them holds is written behind
it in the order in which it is read.  Findings, overridable functions and source options are records.
A finding is written in texts only, so any finding is read again, also with its fields in order of
their keys (`Finding.keeps_sorted`).
-/

import ContractBlocks.Document.Report
import ContractBlocks.Proofs.Document.Block

namespace ContractBlocks

open Record (Restores)

namespace Violation

section Cases

variable {room : Nat} {r : Record} {v : Violation} (hr : r.Sees room)

include hr

theorem restores_caseOfBlock {f : BlockId → Violation} (h : (caseOfBlock f).2 r = some v) :
    ∃ component, v = f component ∧
      Restores ["component"] (caseOfBlock f).2 [("component", .string component)] room v := by
  obtain ⟨component, hcomponent, rfl⟩ := Option.map_eq_some_iff.1 h
  exact ⟨component, rfl, .map _ <| .last <|
    .required (hr.required .string hcomponent (by omega)) .nil⟩

theorem restores_caseOfText {name : String} {f : BlockId → String → Violation}
    (h : (caseOfText name f).2 r = some v) :
    ∃ component text, v = f component text ∧
      Restores ["component", name] (caseOfText name f).2
        [("component", .string component), (name, .string text)] room v := by
  simp only [caseOfText, Option.bind_eq_bind, Option.bind_eq_some_iff, Option.pure_def,
    Option.some.injEq] at h
  obtain ⟨component, hcomponent, text, htext, rfl⟩ := h
  exact ⟨component, text, rfl, .required (hr.required .string hcomponent (by omega)) <|
    .required (hr.required .string htext (by omega)) .nil⟩

end Cases

/-- **A violation is decoded faithfully,** whichever it is. -/
theorem faithful : decode.Faithful encode 1 := by
  refine .tagged fun {room r v tag c} _ hc hr h => ?_
  unfold cases at hc
  split at hc
  case h_10 => cases hc
  all_goals
    obtain rfl := Option.some.inj hc
    refine ⟨by decide, by decide, ?_⟩
  case h_3 | h_8 | h_9 =>
    obtain ⟨component, rfl, hall⟩ := restores_caseOfBlock hr h
    exact ⟨_, rfl, hall⟩
  all_goals
    obtain ⟨component, text, rfl, hall⟩ := restores_caseOfText hr h
    exact ⟨_, rfl, hall⟩

end Violation

/-- **An inheritance issue is decoded faithfully,** whichever it is. -/
theorem InheritanceIssue.faithful : decode.Faithful encode 2 := by
  refine .tagged fun {room r i tag c} hroom hc hr h => ?_
  unfold cases at hc
  split at hc
  case h_5 => cases hc
  all_goals
    obtain rfl := Option.some.inj hc
    refine ⟨by decide, by decide, ?_⟩
  case h_2 =>
    obtain ⟨members, hmembers, rfl⟩ := Option.map_eq_some_iff.1 h
    exact ⟨_, rfl, .map _ <| .last <|
      .required (hr.required Decoder.Faithful.string.list hmembers (by omega)) .nil⟩
  all_goals simp only [Option.bind_eq_bind, Option.bind_eq_some_iff, Option.pure_def,
    Option.some.injEq] at h
  case h_1 =>
    obtain ⟨contract, hcontract, parent, hparent, rfl⟩ := h
    exact ⟨_, rfl, .required (hr.required .string hcontract (by omega)) <|
      .required (hr.required .string hparent (by omega)) .nil⟩
  case h_3 =>
    obtain ⟨contract, hcontract, ancestor, hancestor, rfl⟩ := h
    exact ⟨_, rfl, .required (hr.required .string hcontract (by omega)) <|
      .required (hr.required .string hancestor (by omega)) .nil⟩
  case h_4 =>
    obtain ⟨contract, hcontract, signature, hsignature, sources, hsources, rfl⟩ := h
    exact ⟨_, rfl, .required (hr.required .string hcontract (by omega)) <|
      .required (hr.required .string hsignature (by omega)) <|
      .required (hr.required Decoder.Faithful.string.list hsources (by omega)) .nil⟩

theorem Severity.faithful : decode.Faithful encode 0 := .oneOf _ _

theorem Hazard.faithful : decode.Faithful encode 0 := .oneOf _ _

theorem Finding.faithful : decode.Faithful encode 1 := by
  refine .record (by decide) fun {room r f} _ hr h => ?_
  simp only [Option.bind_eq_bind, Option.bind_eq_some_iff, Option.pure_def,
    Option.some.injEq] at h
  obtain ⟨hazard, hhazard, message, hmessage, severity, hseverity, component, hcomponent,
    suggestion, hsuggestion, code, hcode, rfl⟩ := h
  refine ⟨_, ?_, .required (hr.required Hazard.faithful hhazard (by omega)) <|
    .required (hr.required .string hmessage (by omega)) <|
    .required (hr.required Severity.faithful hseverity (by omega)) <|
    .required (hr.required .string hcomponent (by omega)) <|
    .optionalFieldOf (hr.optional .text hsuggestion (by omega)) <|
    .optionalFieldOf (hr.optional .text hcode (by omega)) .nil⟩
  simp [encode]

theorem Hazard.keeps (h : Hazard) {room : Nat} : decode.Keeps encode room h :=
  ⟨Json.fits_string _, fun _ _ => by cases h <;> rfl⟩

theorem Severity.keeps (s : Severity) {room : Nat} : decode.Keeps encode room s :=
  ⟨Json.fits_string _, fun _ _ => by cases s <;> rfl⟩

/-- An optional text is kept. -/
theorem keeps_optional_text (text : Option String) {room : Nat} :
    Decoder.string.nullable.Keeps (.ofOption .string) room text := by
  cases text with
  | none => exact Decoder.keeps_none
  | some s => exact ⟨Json.fits_string s, fun _ _ => rfl⟩

namespace Finding

/-- A finding is written in texts. -/
theorem exists_string_of_mem {f : Finding} {fields : List (String × Json)}
    (h : f.encode = .object fields) : ∀ g ∈ fields, ∃ s, g.2 = .string s := by
  obtain rfl := Json.object.inj h
  have hfieldOf : ∀ (name : String) (text : Option String),
      ∀ g ∈ Json.fieldOf name .string text, ∃ s, g.2 = .string s := by
    intro name text g hg
    cases text with
    | none => cases hg
    | some s => exact ⟨s, by rw [List.mem_singleton.1 hg]⟩
  refine List.forall_mem_append.2 ⟨List.forall_mem_append.2 ⟨?_, hfieldOf _ _⟩, hfieldOf _ _⟩
  simp [Hazard.encode, Severity.encode]

/-- A finding is written without numbers. -/
theorem fits_encode (f : Finding) {p : Number.Value → Prop} {room : Nat} :
    f.encode.Fits p (room + 1) := by
  refine Json.fits_object_iff.2 ⟨room, rfl, fun g hg => ?_⟩
  obtain ⟨s, hs⟩ := exists_string_of_mem rfl g hg
  rw [hs]
  exact Json.fits_string s

/-- **Any finding is read from what it is written as,** with its fields in order of their keys. -/
theorem keeps_sorted (f : Finding) {room : Nat} :
    decode.Keeps (fun f => f.encode.sorted) (room + 1) f := by
  have hencode : f.encode = .object (("type", f.hazard.encode) :: ("message", .string f.message) ::
      ("severity", f.severity.encode) :: ("component", .string f.component) ::
      (Json.fieldOf "suggestion" .string f.suggestion ++
        (Json.fieldOf "code" .string f.code ++ []))) := by
    simp [encode]
  refine Decoder.keeps_record_sorted (by decide) ?_ (fun g hg => ?_) hencode
  · exact .required f.hazard.keeps <| .required (Decoder.keeps_string f.message) <|
      .required f.severity.keeps <| .required (Decoder.keeps_string f.component) <|
      .optionalFieldOf (keeps_optional_text f.suggestion) <|
      .optionalFieldOf (keeps_optional_text f.code) .nil
  · obtain ⟨s, hs⟩ := exists_string_of_mem hencode g hg
    rw [hs]
    rfl

end Finding

theorem OverridableFunction.faithful : decode.Faithful encode 3 := by
  refine .record (by decide) fun {room r f} hroom hr h => ?_
  simp only [Option.bind_eq_bind, Option.bind_eq_some_iff, Option.pure_def,
    Option.some.injEq] at h
  obtain ⟨id, hid, name, hname, visibility, hvisibility, stateMutability, hmutability,
    parameters, hparameters, returns, hreturns, isVirtual, hvirtual, sourceContract, hsource,
    body, hbody, rfl⟩ := h
  exact ⟨_, rfl, .required (hr.required .string hid (by omega)) <|
    .required (hr.required .string hname (by omega)) <|
    .required (hr.required Visibility.faithful hvisibility (by omega)) <|
    .required (hr.required StateMutability.faithful hmutability (by omega)) <|
    .required (hr.required Parameter.faithful_list hparameters (by omega)) <|
    .required (hr.required Parameter.faithful_list hreturns (by omega)) <|
    .required (hr.required .bool hvirtual (by omega)) <|
    .required (hr.required .string hsource (by omega)) <|
    .required (hr.required .string hbody (by omega)) .nil⟩

theorem SourceOptions.faithful : decode.Faithful encode 1 := by
  refine .record (by decide) fun {room r o} _ hr h => ?_
  simp only [Option.bind_eq_bind, Option.bind_eq_some_iff, Option.pure_def,
    Option.some.injEq] at h
  obtain ⟨pragma, hpragma, license, hlicense, indent, hindent, rfl⟩ := h
  exact ⟨_, rfl, .withDefault (hr.withDefault .string (Decoder.keeps_string _) hpragma
      (by omega)) <|
    .withDefault (hr.withDefault .text Decoder.keeps_none hlicense (by omega)) <|
    .withDefault (hr.withDefault .natural
      ⟨Json.fits_number_iff.2 ⟨by decide, by decide⟩, fun _ _ => rfl⟩ hindent (by omega)) .nil⟩

end ContractBlocks
