/-
# Which source a generation comes to

The contract that a generation validates is looked up a second time by its identity, and the source
is that of the first contract which has it.  A contract chosen by its identity, or because it is the
current one, is itself the first; one chosen by its name need not be, since a loaded project may
have contracts of one identity.  So the source may be that of another contract, which has not been
validated and has another name than the one asked for.

`Command.run_generate_iff` says what a generation that succeeds comes to.  It is the source of the
chosen contract if identities are distinct (`Command.run_generate_of_nodup`), and
`Command.delivers_unvalidated` shows a project where it is not.
-/

import ContractBlocks.Command.Run
import ContractBlocks.Proofs.Inheritance.Linearization

namespace ContractBlocks

/-! ### Chosen contracts -/

namespace Project

variable {p : Project} {s : Selector} {c d : Contract}

/-- The contract `d` stands before `c`, which is chosen by its name, and has its identity, but not
its name. -/
structure Hides (p : Project) (s : Selector) (d c : Contract) : Prop where
  byName : ∃ name, s = some name ∧ p.contract? name = none ∧ p.byName? name = some c
  id_eq : d.id = c.id
  name_ne : d.name ≠ c.name
  before : [d, c].Sublist p.contracts

theorem select_eq_ok : p.select s = .ok c ↔ p.select? s = some c := by
  unfold select
  cases p.select? s <;> simp

theorem name_of_byName? {name : String} (h : p.byName? name = some c) : c.name = name :=
  eq_of_beq (List.find?_some (p := fun x : Contract => x.name == name) h)

/-- The contract of an identity stands before every other contract of that identity. -/
theorem before_of_contract? (h : p.contract? c.id = some d) (hc : c ∈ p.contracts) (hne : d ≠ c) :
    [d, c].Sublist p.contracts := by
  obtain ⟨-, front, back, hp, hfront⟩ := List.find?_eq_some_iff_append.1 h
  have hback : c ∈ back := by
    rw [hp] at hc
    rcases List.mem_append.1 hc with hc | hc
    · simpa using hfront c hc
    · exact (List.mem_cons.1 hc).resolve_left hne.symm
  rw [hp]
  exact ((List.singleton_sublist.2 hback).cons_cons d).trans (List.sublist_append_right front _)

/-- If the first contract with the name of `d` has the identity of which `d` is the first contract, it
is `d` itself. -/
theorem eq_of_contract?_of_byName? (h : p.contract? c.id = some d)
    (hname : p.byName? d.name = some c) : d = c := by
  obtain ⟨-, front, back, hp, hfront⟩ := List.find?_eq_some_iff_append.1 h
  rw [byName?, hp, List.find?_append, List.find?_cons_of_pos (by simp)] at hname
  -- in front of `d` nothing has its identity, so nothing there can be the contract found
  cases hf : front.find? fun x => x.name == d.name with
  | none =>
    rw [hf] at hname
    exact Option.some.inj hname
  | some x =>
    rw [hf] at hname
    obtain rfl : x = c := Option.some.inj hname
    simpa using hfront x (List.mem_of_find?_eq_some hf)

/-- **The contract of the identity of a chosen contract** is the chosen one, or hides it. -/
theorem contract?_of_select? (h : p.select? s = some c) :
    ∃ d, p.contract? c.id = some d ∧ (d = c ∨ p.Hides s d c) := by
  cases s with
  | none =>
    obtain ⟨id, -, hid⟩ := Option.bind_eq_some_iff.1 h
    exact ⟨c, by rw [id_of_contract? hid, hid], .inl rfl⟩
  | some name =>
    rcases Option.or_eq_some_iff.1 h with hid | ⟨hnone, hname⟩
    · exact ⟨c, by rw [id_of_contract? hid, hid], .inl rfl⟩
    · have hc : c ∈ p.contracts := List.mem_of_find?_eq_some hname
      obtain ⟨d, hd⟩ := exists_contract?_iff.2 (List.mem_map_of_mem hc : c.id ∈ p.ids)
      by_cases hne : d = c
      · exact ⟨d, hd, .inl hne⟩
      · have hn : d.name ≠ c.name := fun hn =>
          hne (eq_of_contract?_of_byName? hd (by rw [hn, name_of_byName? hname, hname]))
        exact ⟨d, hd, .inr ⟨⟨name, rfl, hnone, hname⟩, id_of_contract? hd, hn,
          before_of_contract? hd hc hne⟩⟩

/-- No contract is hidden in a project whose contracts have distinct identities. -/
theorem not_hides_of_nodup (hp : p.ids.Nodup) : ¬p.Hides s d c := by
  intro h
  have hpair := hp.sublist (h.before.map Contract.id)
  simp [h.id_eq] at hpair

end Project

/-! ### What a generation comes to -/

namespace World

/-- The options of the file, or else the standard ones. -/
def baseOptions (w : World) : Option String → Except Complaint SourceOptions
  | some path => w.loadOptions path
  | none => .ok .standard

theorem load_eq_ok {α : Type} {w : World} {path text : String} {d : Decoder α} {a : α}
    (hread : w.read path = .ok text) (hd : d.ofText? text = some a) : w.load path d = .ok a := by
  simp only [load, hread, hd]

end World

namespace Outcome

/-- The source is printed with its digest, saved, or printed. -/
def delivered (source : GeneratedSource) (output : Option String) (json : Bool) : Outcome :=
  if json then printed (Command.printDocument source.encode)
  else match output with
    | some path => ⟨"", some (path, source.text), none⟩
    | none => printed source.text

theorem code_delivered (source : GeneratedSource) (output : Option String) (json : Bool) :
    (delivered source output json).code = 0 := by
  unfold delivered
  split
  · rfl
  · split <;> rfl

end Outcome

/-- A complaint is never reported as success. -/
theorem Complaint.code_ne_zero (c : Complaint) : c.code ≠ 0 := by
  cases c with
  | refused e | operationRefused _ e => cases e <;> simp [code, editCode]
  | _ => simp [code]

namespace Command

variable {w : World} {project : String} {s : Selector} {config : Option String}
  {changes : OptionChanges} {output : Option String} {json : Bool} {o : Outcome}

theorem bind_eq_ok {ε α β : Type} {x : Except ε α} {f : α → Except ε β} {b : β} :
    x.bind f = .ok b ↔ ∃ a, x = .ok a ∧ f a = .ok b := by
  cases x <;> simp [Except.bind]

/-- What is made of the chosen contract: the source of the contract of its identity, if it is valid
itself. -/
def deliver (p : Project) (s : Selector) (c : Contract) (options : SourceOptions)
    (output : Option String) (json : Bool) : Except Complaint Outcome :=
  if c.violations.isEmpty then
    match p.generate? c.id options with
    | none => .error (.noContract s)
    | some source => .ok (.delivered source output json)
  else .error (.invalid c.name c.violations)

theorem deliver_eq_ok_iff {p : Project} {c : Contract} {options : SourceOptions} :
    deliver p s c options output json = .ok o ↔
      c.violations = [] ∧ ∃ d, p.contract? c.id = some d ∧
        o = .delivered (.ofText (d.source p.contract? options)) output json := by
  unfold deliver Project.generate?
  by_cases hv : c.violations = []
  · cases hd : p.contract? c.id with
    | none => simp [hv]
    | some d => simpa [hv] using eq_comm
  · simp [hv]

/-- A generation reads the project and the options, chooses a contract, and makes the source. -/
theorem runGenerate_eq :
    runGenerate w project s config changes output json =
      (w.load project Project.decode).bind fun p => (w.baseOptions config).bind fun base =>
        (p.select s).bind fun c => deliver p s c (changes.apply base) output json := by
  cases config <;> cases json <;> cases output <;> rfl

theorem runGenerate_eq_ok_iff :
    runGenerate w project s config changes output json = .ok o ↔
      ∃ p base c d, w.load project Project.decode = .ok p ∧ w.baseOptions config = .ok base ∧
        p.select? s = some c ∧ c.violations = [] ∧ p.contract? c.id = some d ∧
        o = .delivered (.ofText (d.source p.contract? (changes.apply base))) output json := by
  simp only [runGenerate_eq, bind_eq_ok, Project.select_eq_ok, deliver_eq_ok_iff]
  constructor
  · rintro ⟨p, hp, base, hbase, c, hc, hv, d, hd, ho⟩
    exact ⟨p, base, c, d, hp, hbase, hc, hv, hd, ho⟩
  · rintro ⟨p, base, c, d, hp, hbase, hc, hv, hd, ho⟩
    exact ⟨p, hp, base, hbase, c, hc, hv, d, hd, ho⟩

theorem run_of_attempt {cmd : Command} (h : attempt w cmd = .ok o) : cmd.run w = o := by
  rw [run, h]

/-- A command succeeds exactly if its attempt leaves an outcome without a complaint. -/
theorem run_code_eq_zero_iff {cmd : Command} :
    cmd.run w = o ∧ o.code = 0 ↔ attempt w cmd = .ok o ∧ o.code = 0 := by
  unfold run
  cases attempt w cmd with
  | ok r => simp
  | error complaint =>
    refine iff_of_false ?_ (by simp)
    rintro ⟨rfl, hcode⟩
    exact complaint.code_ne_zero hcode

/-- **What a generation comes to.**  It succeeds exactly if the project and the options can be read
and a contract is chosen that is valid, and then it delivers the source of the contract which has the
identity of the chosen one: the chosen one, or one that hides it. -/
theorem run_generate_iff :
    (generate project s config changes output json).run w = o ∧ o.code = 0 ↔
      ∃ p base c d, w.load project Project.decode = .ok p ∧ w.baseOptions config = .ok base ∧
        p.select? s = some c ∧ c.violations = [] ∧
        p.contract? c.id = some d ∧ (d = c ∨ p.Hides s d c) ∧
        o = .delivered (.ofText (d.source p.contract? (changes.apply base))) output json := by
  rw [run_code_eq_zero_iff]
  simp only [attempt, runGenerate_eq_ok_iff]
  constructor
  · rintro ⟨⟨p, base, c, d, hp, hbase, hc, hv, hd, ho⟩, -⟩
    obtain ⟨e, he, hhides⟩ := Project.contract?_of_select? hc
    obtain rfl : e = d := Option.some.inj (he.symm.trans hd)
    exact ⟨p, base, c, e, hp, hbase, hc, hv, hd, hhides, ho⟩
  · rintro ⟨p, base, c, d, hp, hbase, hc, hv, hd, -, ho⟩
    exact ⟨⟨p, base, c, d, hp, hbase, hc, hv, hd, ho⟩, ho ▸ Outcome.code_delivered _ _ _⟩

/-- If the contracts of the project have distinct identities, a generation that succeeds delivers
the source of the chosen contract, which is valid. -/
theorem run_generate_of_nodup {p : Project} (hp : w.load project Project.decode = .ok p)
    (hids : p.ids.Nodup)
    (ho : (generate project s config changes output json).run w = o) (hcode : o.code = 0) :
    ∃ base c, w.baseOptions config = .ok base ∧ p.select? s = some c ∧ c.violations = [] ∧
      o = .delivered (.ofText (c.source p.contract? (changes.apply base))) output json := by
  obtain ⟨q, base, c, d, hq, hbase, hc, hv, hd, ho⟩ :=
    runGenerate_eq_ok_iff.1 (run_code_eq_zero_iff.1 ⟨ho, hcode⟩).1
  obtain rfl : q = p := Except.ok.inj (hq.symm.trans hp)
  obtain ⟨e, he, rfl | hhides⟩ := Project.contract?_of_select? hc
  · obtain rfl : d = e := Option.some.inj (hd.symm.trans he)
    exact ⟨base, d, hbase, hc, hv, ho⟩
  · exact absurd hhides (Project.not_hides_of_nodup hids)

/-- A contract with an event whose name is no identifier. -/
def firstToken : Contract :=
  ⟨"token", "First", [Block.place ⟨"e", "1st", "", .basic, [], .event []⟩ .origin], []⟩

/-- A contract without blocks that has the identity of the other one. -/
def secondToken : Contract := .empty "token" "Second"

/-- A project with both contracts. -/
def tokens : Project := ⟨"p", "P", [firstToken, secondToken], none, .idle⟩

/-- The project as a document. -/
def tokensText : List Char :=
  ["\x7b\"id\":\"p\",\"name\":\"P\",\"contracts\":[", "\x7b\"id\":\"token\",\"name\":\"First\",",
    "\"components\":[\x7b\"data\":\x7b\"id\":\"e\",\"name\":\"1st\",\"category\":\"basic\",",
    "\"type\":\"event\"\x7d,\"position\":\x7b\"x\":0,\"y\":0\x7d\x7d]\x7d,",
    "\x7b\"id\":\"token\",\"name\":\"Second\"\x7d]\x7d"].flatMap String.toList

/-- A world where every file holds that document. -/
def tokensWorld : World := ⟨fun _ => .ok (.ofList tokensText), fun _ => ""⟩

theorem load_tokens : tokensWorld.load "p.json" Project.decode = .ok tokens := by
  have hread : Project.decode.ofText? (.ofList tokensText) = some tokens := by
    rw [Decoder.ofText?, String.toList_ofList]
    decide +kernel
  exact World.load_eq_ok rfl hread

/-- **A generation may deliver a contract that it has not validated:** asked for the second
contract, it delivers the first one, which is not valid. -/
theorem delivers_unvalidated :
    ¬∀ (w : World) (project : String) (s : Selector) (config : Option String)
      (changes : OptionChanges) (output : Option String) (json : Bool) (o : Outcome) (p : Project)
      (base : SourceOptions) (c : Contract),
      (generate project s config changes output json).run w = o → o.code = 0 →
      w.load project Project.decode = .ok p → w.baseOptions config = .ok base →
      p.select? s = some c → c.violations = [] →
      o = .delivered (.ofText (c.source p.contract? (changes.apply base))) output json := by
  intro hall
  have hchosen : tokens.select? (some "Second") = some secondToken := by decide
  have hfirst : tokens.contract? secondToken.id = some firstToken := by decide
  have hmade : runGenerate tokensWorld "p.json" (some "Second") none ⟨none, none, none⟩ none false =
      .ok (.delivered (.ofText (firstToken.source tokens.contract? .standard)) none false) :=
    runGenerate_eq_ok_iff.2
      ⟨tokens, .standard, secondToken, firstToken, load_tokens, rfl, hchosen, rfl, hfirst, rfl⟩
  have hsecond := hall tokensWorld "p.json" (some "Second") none ⟨none, none, none⟩ none false _
    tokens .standard secondToken (run_of_attempt hmade) rfl load_tokens rfl hchosen rfl
  exact absurd (congrArg Outcome.stdout hsecond) (by decide +kernel)

end Command

end ContractBlocks
