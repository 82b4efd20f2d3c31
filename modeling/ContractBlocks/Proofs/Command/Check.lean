/-
# What a check reports and how it ends

A check goes through the chosen contracts and keeps two things: the report, in which the findings in
a contract stand under its name, and the most serious severity that it has come across.  The first
forgets, the second does not.  Contracts of one project may have one name, and then the findings in
the last of them take the place of those before (`Command.lookup_reported`), while the exit code is
about the findings in all of them (`Command.reaches_checkAll`).

`Command.run_check_reports` says what the printed text is read as and what the exit code is.  If the
names of the contracts are distinct, nothing is forgotten and the two agree;
`Command.fails_without_report` is a project where a check fails for a finding that it does not print.
-/

import ContractBlocks.Proofs.Command.Generate
import ContractBlocks.Proofs.Document.Report

namespace ContractBlocks

/-! ### Serious enough -/

namespace Severity

/-- There is a severity, and it is no less serious than the threshold. -/
def Reaches (threshold : Severity) (worst : Option Severity) : Prop :=
  ∃ s, worst = some s ∧ threshold.atMost s

variable {t : Severity}

theorem not_reaches_none : ¬t.Reaches none := nofun

theorem reaches_some {s : Severity} : t.Reaches (some s) ↔ t.atMost s := by
  constructor
  · rintro ⟨s', hs, h⟩
    rw [Option.some.inj hs]
    exact h
  · exact fun h => ⟨s, rfl, h⟩

theorem atMost_max {a b : Severity} : t.atMost (a.max b) ↔ t.atMost a ∨ t.atMost b := by
  simp only [max, atMost, decide_eq_true_eq]
  split <;> omega

/-- The more serious of two reaches a threshold exactly if one of them does. -/
theorem reaches_max? {a b : Option Severity} :
    t.Reaches (max? a b) ↔ t.Reaches a ∨ t.Reaches b := by
  cases a with
  | none => simp [max?, not_reaches_none]
  | some a =>
    cases b with
    | none => simp [max?, not_reaches_none]
    | some b => rw [max?, reaches_some, reaches_some, reaches_some, atMost_max]

end Severity

/-- **The most serious finding reaches a threshold** exactly if some finding does. -/
theorem Finding.reaches_highest? {t : Severity} {fs : List Finding} :
    t.Reaches (highest? fs) ↔ ∃ f ∈ fs, t.atMost f.severity := by
  have hgo : ∀ worst : Option Severity,
      t.Reaches (fs.foldl (fun worst f => Severity.max? worst (some f.severity)) worst) ↔
        t.Reaches worst ∨ ∃ f ∈ fs, t.atMost f.severity := by
    induction fs with
    | nil => simp
    | cons f fs ih =>
      intro worst
      rw [List.foldl_cons, ih, Severity.reaches_max?, Severity.reaches_some,
        List.exists_mem_cons_iff, or_assoc]
  rw [highest?, hgo, or_iff_right Severity.not_reaches_none]

/-! ### Going through the contracts -/

/-- The findings of the built-in rules in a contract of the project. -/
def Project.findings (p : Project) (c : Contract) : List Finding :=
  Checker.builtin.checkContract c p.contract?

namespace Command

variable {p : Project} {cs : List Contract}

/-- What a check of the contracts has come to. -/
def checkAll (p : Project) (cs : List Contract) : CheckResult := cs.foldl (CheckResult.add p) .empty

/-- One contract more raises what is kept to the most serious finding in it. -/
theorem CheckResult.reaches_add {t : Severity} (r : CheckResult) (c : Contract) :
    t.Reaches (r.add p c).worst ↔ t.Reaches r.worst ∨ ∃ f ∈ p.findings c, t.atMost f.severity := by
  rw [← Finding.reaches_highest?]
  exact Severity.reaches_max?

/-- The severity that is kept reaches a threshold exactly if a finding in some contract does. -/
theorem reaches_checkAll {t : Severity} :
    t.Reaches (checkAll p cs).worst ↔ ∃ c ∈ cs, ∃ f ∈ p.findings c, t.atMost f.severity := by
  have hgo : ∀ r : CheckResult, t.Reaches (cs.foldl (CheckResult.add p) r).worst ↔
      t.Reaches r.worst ∨ ∃ c ∈ cs, ∃ f ∈ p.findings c, t.atMost f.severity := by
    induction cs with
    | nil => simp
    | cons c cs ih =>
      intro r
      rw [List.foldl_cons, ih, r.reaches_add c, List.exists_mem_cons_iff, or_assoc]
  exact (hgo .empty).trans (or_iff_right Severity.not_reaches_none)

/-- The report has the findings in the contracts, sorted by name. -/
theorem report_checkAll : (checkAll p cs).report =
    Json.sortFields (cs.map fun c => (c.name, .ofList Finding.encode (p.findings c))) := by
  have hgo : ∀ r : CheckResult, (cs.foldl (CheckResult.add p) r).report =
      (cs.map fun c => (c.name, Json.ofList Finding.encode (p.findings c))).foldl
        (fun fs f => Json.insertSorted f.1 f.2 fs) r.report := by
    induction cs with
    | nil => exact fun r => rfl
    | cons c cs ih =>
      intro r
      rw [List.foldl_cons, ih]
      rfl
  exact hgo .empty

/-- Contracts by name are found as the values under their names. -/
theorem lookup_named {α : Type} (g : Contract → α) (name : String) (cs : List Contract) :
    (cs.map fun c => (c.name, g c)).lookup name = (cs.find? fun c => c.name == name).map g := by
  induction cs with
  | nil => rfl
  | cons c cs ih =>
    by_cases hc : c.name = name
    · rw [List.map_cons, List.find?_cons_of_pos (by simpa using hc), ← hc, List.lookup_cons_self,
        Option.map_some]
    · rw [List.map_cons, List.find?_cons_of_neg (by simpa using hc), List.lookup_cons,
        beq_false_of_ne (Ne.symm hc), ih]

/-- The last of the contracts that has the name. -/
def lastNamed? (cs : List Contract) (name : String) : Option Contract :=
  cs.reverse.find? fun c => c.name == name

/-- Where names are distinct, each contract is the last of its name. -/
theorem lastNamed?_of_nodup (hnames : (cs.map Contract.name).Nodup) {c : Contract} (hc : c ∈ cs) :
    lastNamed? cs c.name = some c := by
  have hnodup : ((cs.reverse.map fun c => (c.name, c)).map Prod.fst).Nodup := by
    rw [List.map_map, List.map_reverse]
    exact List.nodup_reverse.2 hnames
  have hlookup := lookup_named id c.name cs.reverse
  rw [Option.map_id_apply] at hlookup
  rw [lastNamed?, ← hlookup]
  exact (lookup_eq_some_iff_mem hnodup).2 (List.mem_map.2 ⟨c, List.mem_reverse.2 hc, rfl⟩)

theorem mem_of_lastNamed? {name : String} {c : Contract} (h : lastNamed? cs name = some c) :
    c ∈ cs :=
  List.mem_reverse.1 (List.mem_of_find?_eq_some h)

/-- In the report stands what is found in the last contract of the name. -/
theorem lookup_report (name : String) : (checkAll p cs).report.lookup name =
    (lastNamed? cs name).map fun c => .ofList Finding.encode (p.findings c) := by
  rw [report_checkAll, Json.lookup_sortFields, ← List.map_reverse, lookup_named, lastNamed?]

theorem ordered_report : Json.Ordered (checkAll p cs).report := by
  rw [report_checkAll]
  exact Json.ordered_sortFields _

theorem exists_of_mem_report {r : String × Json} (hr : r ∈ (checkAll p cs).report) :
    ∃ c, lastNamed? cs r.1 = some c ∧ r.2 = .ofList Finding.encode (p.findings c) := by
  have hlookup := (lookup_eq_some_iff_mem ordered_report.nodup).2 hr
  rw [lookup_report] at hlookup
  obtain ⟨c, hc, he⟩ := Option.map_eq_some_iff.1 hlookup
  exact ⟨c, hc, he.symm⟩

/-- What is reported under each name. -/
def reported (p : Project) (cs : List Contract) : List (String × List Finding) :=
  (checkAll p cs).report.map fun r => (r.1, ((lastNamed? cs r.1).map p.findings).getD [])

theorem ordered_reported : ((reported p cs).map Prod.fst).Pairwise (· < ·) := by
  rw [reported, List.map_map]
  exact List.pairwise_map.2 ordered_report

/-- The report is written from the findings under each name. -/
theorem report_eq_map_reported :
    (checkAll p cs).report = (reported p cs).map fun r => (r.1, .ofList Finding.encode r.2) := by
  rw [reported, List.map_map]
  refine ((List.map_congr_left fun r hr => ?_).trans (List.map_id _)).symm
  obtain ⟨c, hc, he⟩ := exists_of_mem_report hr
  simp [hc, ← he]

/-- **Under a name the findings in the last contract of the name are reported.** -/
theorem lookup_reported (name : String) :
    (reported p cs).lookup name = (lastNamed? cs name).map p.findings := by
  refine Option.ext fun fs => ?_
  rw [lookup_eq_some_iff_mem (ordered_reported.imp ne_of_lt)]
  constructor
  · intro h
    obtain ⟨r, hr, he⟩ := List.mem_map.1 h
    obtain ⟨rfl, rfl⟩ := Prod.mk.inj he
    obtain ⟨c, hc, -⟩ := exists_of_mem_report hr
    simp [hc]
  · intro h
    obtain ⟨c, hc, rfl⟩ := Option.map_eq_some_iff.1 h
    have hlookup : (checkAll p cs).report.lookup name = _ := lookup_report name
    rw [hc, Option.map_some, lookup_eq_some_iff_mem ordered_report.nodup] at hlookup
    exact List.mem_map.2 ⟨_, hlookup, by simp [hc]⟩

/-- Where names are distinct, what is reported is what is found. -/
theorem exists_reported_iff {P : Finding → Prop} (hnames : (cs.map Contract.name).Nodup) :
    (∃ r ∈ reported p cs, ∃ f ∈ r.2, P f) ↔ ∃ c ∈ cs, ∃ f ∈ p.findings c, P f := by
  have hkeys : ((reported p cs).map Prod.fst).Nodup := ordered_reported.imp ne_of_lt
  constructor
  · rintro ⟨r, hr, hf⟩
    have hfound := (lookup_eq_some_iff_mem hkeys).2 hr
    rw [lookup_reported] at hfound
    obtain ⟨c, hc, hfindings⟩ := Option.map_eq_some_iff.1 hfound
    exact ⟨c, mem_of_lastNamed? hc, hfindings ▸ hf⟩
  · rintro ⟨c, hc, hf⟩
    have hr : (reported p cs).lookup c.name = some (p.findings c) := by
      rw [lookup_reported, lastNamed?_of_nodup hnames hc, Option.map_some]
    exact ⟨_, (lookup_eq_some_iff_mem hkeys).1 hr, hf⟩

/-! ### What is printed -/

/-- How a printed report is read: as a map from names to findings. -/
def readReport : Decoder (List (String × List Finding)) := .map (.list Finding.decode)

/-- **The printed report is read as the map that it is.** -/
theorem read_printReport {report : List (String × List Finding)}
    (hordered : (report.map Prod.fst).Pairwise (· < ·)) :
    readReport.ofText? (printReport
      (.object (report.map fun r => (r.1, .ofList Finding.encode r.2)))) = some report := by
  have hlist : ∀ fs : List Finding, (Json.ofList Finding.encode fs).sorted =
      .ofList (fun f => f.encode.sorted) fs := by
    intro fs
    rw [Json.ofList, Json.sorted, Json.sortedItems_eq, List.map_map]
    rfl
  let written := Json.object (report.map fun r => (r.1, .ofList (fun f => f.encode.sorted) r.2))
  have hsorted : (Json.object (report.map fun r => (r.1, .ofList Finding.encode r.2))).sorted =
      written := by
    have hkeys : Json.Ordered (report.map fun r => (r.1, .ofList (fun f => f.encode.sorted) r.2)) :=
      List.pairwise_map.2 (List.pairwise_map.1 hordered)
    rw [Json.sorted, Json.sortedFields_eq, List.map_map]
    simp only [Function.comp_def, hlist]
    rw [Json.sortFields_of_ordered hkeys]
  have hfits : written.Fits Number.Value.ReadsBack 127 := by
    refine Json.fits_object_iff.2 ⟨126, rfl, fun g hg => ?_⟩
    obtain ⟨r, -, rfl⟩ := List.mem_map.1 hg
    refine Json.fits_array_iff.2 ⟨125, rfl, fun j hj => ?_⟩
    obtain ⟨f, -, rfl⟩ := List.mem_map.1 hj
    exact f.fits_encode.sorted
  have hkeeps : readReport.Keeps (fun m => .object (m.map fun r =>
      (r.1, .ofList (fun f => f.encode.sorted) r.2))) 127 report :=
    Decoder.keeps_map (hordered.imp ne_of_lt) fun r _ =>
      Decoder.keeps_list fun f _ => f.keeps_sorted
  have htext : (printDocument written).toList = Json.prettyText 0 written ++ ['\n'] := by
    rw [printDocument, String.toList_append, Json.pretty, String.toList_ofList]
    rfl
  rw [Decoder.ofText?, printReport, hsorted, htext, Json.read_prettyText_newline hfits]
  exact hkeeps.restores .start .direct

/-! ### How it ends -/

/-- **A check fails** if there is a threshold which the most serious severity reaches. -/
theorem code_exceeds {stdout : String} {failOn worst : Option Severity} :
    (Outcome.mk stdout none (exceeds failOn worst)).code = 2 ↔
      ∃ t, failOn = some t ∧ t.Reaches worst := by
  cases failOn with
  | none => simp [exceeds, Outcome.code]
  | some t =>
    cases worst with
    | none => simp [exceeds, Outcome.code, Severity.not_reaches_none]
    | some found =>
      have hreaches : (∃ t', some t = some t' ∧ t'.Reaches (some found)) ↔ t.atMost found := by
        simp [Severity.reaches_some]
      rw [hreaches]
      by_cases h : t.atMost found
      · simp [exceeds, h, Outcome.code, Complaint.code]
      · simp [exceeds, h, Outcome.code]

/-- A check that does not fail succeeds. -/
theorem code_exceeds_or (stdout : String) (failOn worst : Option Severity) :
    (Outcome.mk stdout none (exceeds failOn worst)).code = 2 ∨
      (Outcome.mk stdout none (exceeds failOn worst)).code = 0 := by
  unfold exceeds
  split
  · split
    · exact .inl rfl
    · exact .inr rfl
  · exact .inr rfl

variable {w : World} {project : String} {s : Selector} (failOn : Option Severity)

theorem run_check (hp : w.load project Project.decode = .ok p) (hs : checked p s = .ok cs) :
    (check project s failOn).run w =
      ⟨printReport (.object (checkAll p cs).report), none, exceeds failOn (checkAll p cs).worst⟩ := by
  refine run_of_attempt ?_
  rw [attempt, runCheck, hp]
  show (checked p s).bind _ = _
  rw [hs]
  rfl

/-- **What a check reports and how it ends,** once the project is loaded and the contracts are chosen.
What it prints is read as a map in which the findings in the last of the chosen contracts of a name
stand under the name.  The exit code is 2 if there is a threshold and a finding in some chosen
contract is at least as serious, and 0 if not.  So if the names of the chosen contracts are distinct,
every finding is reported under the name of its contract, and the exit code is 2 exactly if what is
reported is serious enough. -/
theorem run_check_reports
    (hp : w.load project Project.decode = .ok p) (hs : checked p s = .ok cs) :
    let o := (check project s failOn).run w
    ∃ report, readReport.ofText? o.stdout = some report ∧
      (∀ name, report.lookup name = (lastNamed? cs name).map p.findings) ∧
      (o.code = 2 ↔ ∃ t, failOn = some t ∧ ∃ c ∈ cs, ∃ f ∈ p.findings c, t.atMost f.severity) ∧
      (o.code = 2 ∨ o.code = 0) ∧
      ((cs.map Contract.name).Nodup →
        (∀ c ∈ cs, report.lookup c.name = some (p.findings c)) ∧
        (o.code = 2 ↔ ∃ t, failOn = some t ∧ ∃ r ∈ report, ∃ f ∈ r.2, t.atMost f.severity)) := by
  have hcode : ((check project s failOn).run w).code = 2 ↔
      ∃ t, failOn = some t ∧ ∃ c ∈ cs, ∃ f ∈ p.findings c, t.atMost f.severity := by
    rw [run_check failOn hp hs, code_exceeds]
    simp only [reaches_checkAll]
  refine ⟨reported p cs, ?_, lookup_reported, hcode, ?_, fun hnames => ⟨?_, ?_⟩⟩
  · rw [run_check failOn hp hs, report_eq_map_reported]
    exact read_printReport ordered_reported
  · rw [run_check failOn hp hs]
    exact code_exceeds_or _ failOn _
  · intro c hc
    rw [lookup_reported, lastNamed?_of_nodup hnames hc, Option.map_some]
  · rw [hcode]
    simp only [exists_reported_iff hnames]

/-! ### A finding that is not reported -/

/-- A contract with a function that destroys it. -/
def closable : Contract :=
  ⟨"a", "Token", [Block.place ⟨"f", "close", "", .basic, [],
    .function ⟨.pub, .nonpayable, [], [], [], false, "selfdestruct(owner);", []⟩⟩ .origin], []⟩

/-- A project with that contract and an empty one of the same name. -/
def twins : Project := ⟨"p", "P", [closable, .empty "b" "Token"], none, .idle⟩

/-- The project as a document. -/
def twinsText : List Char :=
  ["\x7b\"id\":\"p\",\"name\":\"P\",\"contracts\":[", "\x7b\"id\":\"a\",\"name\":\"Token\",",
    "\"components\":[\x7b\"data\":\x7b\"id\":\"f\",\"name\":\"close\",\"category\":\"basic\",",
    "\"type\":\"function\",\"visibility\":\"public\",\"stateMutability\":\"nonpayable\",",
    "\"body\":\"selfdestruct(owner);\"\x7d,\"position\":\x7b\"x\":0,\"y\":0\x7d\x7d]\x7d,",
    "\x7b\"id\":\"b\",\"name\":\"Token\"\x7d]\x7d"].flatMap String.toList

/-- A world where every file holds that document. -/
def twinsWorld : World := ⟨fun _ => .ok (.ofList twinsText), fun _ => ""⟩

theorem load_twins : twinsWorld.load "p.json" Project.decode = .ok twins := by
  have hread : Project.decode.ofText? (.ofList twinsText) = some twins := by
    rw [Decoder.ofText?, String.toList_ofList]
    decide +kernel
  exact World.load_eq_ok rfl hread

/-- The function of the first contract is a critical finding. -/
theorem findings_closable :
    ∃ f ∈ twins.findings closable, Severity.critical.atMost f.severity := by
  decide +kernel

theorem findings_second : twins.findings (.empty "b" "Token") = [] := by
  decide +kernel

theorem report_twins : (checkAll twins twins.contracts).report =
    [("Token", [])].map fun r => (r.1, .ofList Finding.encode r.2) := by
  decide +kernel

theorem run_check_reports_twins :
    (twinsWorld.load "p.json" Project.decode = .ok twins ∧
      checked twins none = .ok [closable, .empty "b" "Token"]) ∧
    ∃ report,
      readReport.ofText? ((check "p.json" none (some .critical)).run twinsWorld).stdout =
        some report ∧
      report.lookup "Token" = some [] ∧
      ((check "p.json" none (some .critical)).run twinsWorld).code = 2 := by
  have hs : checked twins none = .ok [closable, .empty "b" "Token"] := rfl
  obtain ⟨report, hreport, hlookup, hcode, -, -⟩ :=
    run_check_reports (some .critical) load_twins hs
  refine ⟨⟨load_twins, hs⟩, report, hreport, ?_, ?_⟩
  · have hlast : lastNamed? [closable, .empty "b" "Token"] "Token" = some (.empty "b" "Token") := by
      decide
    rw [hlookup, hlast, Option.map_some, findings_second]
  · exact hcode.2 ⟨.critical, rfl, closable, List.mem_cons_self, findings_closable⟩

/-- **A check may fail for a finding that it does not report:** of two contracts of one name it
reports only the findings in the second one. -/
theorem fails_without_report :
    ¬∀ (w : World) (project : String) (s : Selector) (failOn : Option Severity) (p : Project)
      (cs : List Contract) (report : List (String × List Finding)),
      w.load project Project.decode = .ok p → checked p s = .ok cs →
      readReport.ofText? ((check project s failOn).run w).stdout = some report →
      (∀ c ∈ cs, ∀ f ∈ p.findings c, ∃ r ∈ report, f ∈ r.2) ∧
      (((check project s failOn).run w).code = 2 ↔
        ∃ t, failOn = some t ∧ ∃ r ∈ report, ∃ f ∈ r.2, t.atMost f.severity) := by
  intro hall
  have hs : checked twins none = .ok twins.contracts := rfl
  have hrun := run_check (some .critical) load_twins hs
  have hread : readReport.ofText? ((check "p.json" none (some .critical)).run twinsWorld).stdout =
      some [("Token", [])] := by
    have hordered : ([("Token", ([] : List Finding))].map Prod.fst).Pairwise (· < ·) :=
      List.pairwise_singleton _ _
    rw [hrun, report_twins]
    exact read_printReport hordered
  obtain ⟨hfound, -⟩ := hall twinsWorld "p.json" none (some .critical) twins twins.contracts
    [("Token", [])] load_twins hs hread
  obtain ⟨f, hf, -⟩ := findings_closable
  obtain ⟨r, hr, hfr⟩ := hfound closable List.mem_cons_self f hf
  obtain rfl := List.mem_singleton.1 hr
  cases hfr

end Command

end ContractBlocks
