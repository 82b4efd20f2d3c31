/-
# State writes that the reentrancy rule sees

A function without a guard should be reported if an external call is followed by a plain write: an
assignment on a line that begins neither with a parenthesis nor with the name of an elementary type,
which would declare local variables (`Rule.WritesPlainly`).  The rule tells declarations by the first
characters of the line alone, so it takes `interest = 0;` for one because of the `int`, and it sees no
assignment in a shift (`Rule.Misses`).  That is all that it misses: a line is a state write for the rule
exactly if it is a plain write that is not missed (`Rule.writesState_iff`).

`Rule.reentrancy_exact` says what is reported: the first external call, if some call is followed by
such a line, and otherwise nothing.  `Rule.interest_missed` is a write that goes unseen.
-/

import ContractBlocks.Security.Rule
import ContractBlocks.Text.Identifier
import ContractBlocks.Proofs.Security.Operator
import ContractBlocks.Proofs.Text.Search

namespace ContractBlocks

namespace Text

/-- A word that may begin an identifier stands at the start of a text exactly if it stands at the start
of the first characters that may. -/
theorem isPrefix_takeWhile_iff {p : Char → Bool} {word text : List Char} (h : ∀ c ∈ word, p c) :
    word <+: text.takeWhile p ↔ word <+: text := by
  refine ⟨fun hw => hw.trans (List.takeWhile_prefix p), ?_⟩
  rintro ⟨rest, rfl⟩
  rw [List.takeWhile_append_of_pos h]
  exact List.prefix_append _ _

end Text

namespace Code

/-- The first word of a line, as far as an identifier goes; it is empty if the line begins with
something else. -/
def firstWord (line : List Char) : List Char := line.takeWhile Text.isIdentifierPart

/-- The elementary type names without a width. -/
def plainTypes : List (List Char) :=
  ["uint", "int", "address", "bool", "bytes", "string"].map String.toList

/-- The elementary type names with a width: 8 to 256 bits in steps of 8, or 1 to 32 bytes. -/
def sizedTypes : List (List Char) :=
  (List.range 32).flatMap fun k => ["uint" ++ Nat.repr (8 * (k + 1)), "int" ++ Nat.repr (8 * (k + 1)),
    "bytes" ++ Nat.repr (k + 1)].map String.toList

/-- The names of elementary types. -/
def elementaryTypes : List (List Char) := plainTypes ++ sizedTypes

/-- The line begins like the name of an elementary type, whatever else its first word may hold. -/
def BeginsLikeType (line : List Char) : Prop := ∃ name ∈ plainTypes, name <+: firstWord line

theorem beginsLikeType_of_firstWord_mem {line : List Char} (h : firstWord line ∈ elementaryTypes) :
    BeginsLikeType line := by
  rcases List.mem_append.1 h with h | h
  · exact ⟨_, h, List.prefix_refl _⟩
  · obtain ⟨k, -, h⟩ := List.mem_flatMap.1 h
    obtain ⟨name, hname, hword⟩ := List.mem_map.1 h
    rw [BeginsLikeType, ← hword]
    simp only [List.mem_cons, List.not_mem_nil, or_false] at hname
    rcases hname with rfl | rfl | rfl <;> rw [String.toList_append]
    · exact ⟨"uint".toList, by decide, List.prefix_append _ _⟩
    · exact ⟨"int".toList, by decide, List.prefix_append _ _⟩
    · exact ⟨"bytes".toList, by decide, List.prefix_append _ _⟩

/-- **What is taken for a declaration of local variables:** a line that begins with a parenthesis or
like the name of an elementary type. -/
theorem isLocalDeclaration_iff (line : List Char) :
    isLocalDeclaration line ↔ ['('] <+: line ∨ BeginsLikeType line := by
  have hstarts : localStarts.map String.toList = plainTypes ++ [['(']] := by decide
  have hall : ∀ name ∈ plainTypes, name.all Text.isIdentifierPart := by decide
  have hword : ∀ name ∈ plainTypes, ∀ c ∈ name, Text.isIdentifierPart c := fun name hname =>
    List.all_eq_true.1 (hall name hname)
  have hany : isLocalDeclaration line ↔ ∃ t ∈ localStarts.map String.toList, t <+: line := by
    simp [isLocalDeclaration, Text.startsWith]
  rw [hany, hstarts]
  simp only [List.mem_append, List.mem_singleton, or_and_right, exists_or, exists_eq_left]
  rw [or_comm]
  refine or_congr_right (exists_congr fun name => and_congr_right fun hname => ?_)
  exact (Text.isPrefix_takeWhile_iff (hword name hname)).symm

end Code

namespace Rule

/-! ### Calls and writes -/

/-- The line has a call that hands control to another contract. -/
def CallsOut (line : List Char) : Prop := ∃ call ∈ externalCalls, call <:+: line

theorem containsAny_externalCalls_iff (line : List Char) :
    Text.containsAny externalCalls line ↔ CallsOut line := by
  simp only [Text.containsAny, List.any_eq_true, Text.contains_iff, CallsOut]

/-- The line plainly writes state: it assigns, and begins neither with a parenthesis nor with the name
of an elementary type. -/
structure WritesPlainly (line : List Char) : Prop where
  assigns : Code.Assigns line
  noTuple : ¬['('] <+: line
  noType : Code.firstWord line ∉ Code.elementaryTypes

/-- A plain write that the rule misses: it assigns by shifts only, or its first word begins like the
name of an elementary type. -/
def Misses (line : List Char) : Prop := ¬Code.AssignsPlainly line ∨ Code.BeginsLikeType line

/-- **The rule sees the plain writes that it does not miss,** and nothing else. -/
theorem writesState_iff (line : List Char) : writesState line ↔ WritesPlainly line ∧ ¬Misses line := by
  rw [writesState, Bool.and_eq_true, Bool.not_eq_true', ← Bool.not_eq_true, Code.isAssignment_iff,
    Code.isLocalDeclaration_iff, Misses, not_or, not_or, not_not]
  constructor
  · rintro ⟨hassigns, htuple, hbegins⟩
    exact ⟨⟨Or.inl hassigns, htuple, fun hword =>
      hbegins (Code.beginsLikeType_of_firstWord_mem hword)⟩, hassigns, hbegins⟩
  · rintro ⟨hwrites, hassigns, hbegins⟩
    exact ⟨hassigns, hwrites.noTuple, hbegins⟩

/-- Some external call is followed by a line of that kind. -/
def CallThen (write : List Char → Prop) (lines : List (List Char)) : Prop :=
  ∃ before call after, lines = before ++ call :: after ∧ CallsOut call ∧ ∃ line ∈ after, write line

/-- The line is the first one with an external call. -/
def IsFirstCall (lines : List (List Char)) (call : List Char) : Prop :=
  ∃ before after, lines = before ++ call :: after ∧ CallsOut call ∧ ∀ line ∈ before, ¬CallsOut line

section Lines

variable {write : List Char → Prop} {line call : List Char} {lines : List (List Char)}

/-- A line that follows a call follows the first call, too. -/
theorem callThen_cons (h : CallsOut line) :
    CallThen write (line :: lines) ↔ ∃ later ∈ lines, write later := by
  constructor
  · rintro ⟨before, call, after, hlines, -, later, hlater, hwrite⟩
    refine ⟨later, ?_, hwrite⟩
    cases before with
    | nil => exact (List.cons.inj hlines).2 ▸ hlater
    | cons first before =>
      rw [(List.cons.inj hlines).2]
      exact List.mem_append_right _ (List.mem_cons_of_mem _ hlater)
  · rintro ⟨later, hlater, hwrite⟩
    exact ⟨[], line, lines, rfl, h, later, hlater, hwrite⟩

/-- Lines before the first call make no difference. -/
theorem callThen_cons_of_not (h : ¬CallsOut line) :
    CallThen write (line :: lines) ↔ CallThen write lines := by
  constructor
  · rintro ⟨before, call, after, hlines, hcall, hlater⟩
    cases before with
    | nil => exact absurd ((List.cons.inj hlines).1 ▸ hcall) h
    | cons first before => exact ⟨before, call, after, (List.cons.inj hlines).2, hcall, hlater⟩
  · rintro ⟨before, call, after, rfl, hcall, hlater⟩
    exact ⟨line :: before, call, after, rfl, hcall, hlater⟩

theorem IsFirstCall.cons (h : ¬CallsOut line) (hcall : IsFirstCall lines call) :
    IsFirstCall (line :: lines) call := by
  obtain ⟨before, after, rfl, hout, hbefore⟩ := hcall
  exact ⟨line :: before, after, rfl, hout, List.forall_mem_cons.2 ⟨h, hbefore⟩⟩

/-- **The call that is reported** is the first one, if some call is followed by a state write. -/
theorem callBeforeWrite?_spec (lines : List (List Char)) :
    (CallThen (writesState ·) lines →
        ∃ call, IsFirstCall lines call ∧ callBeforeWrite? lines = some call) ∧
      (¬CallThen (writesState ·) lines → callBeforeWrite? lines = none) := by
  induction lines with
  | nil => exact ⟨fun ⟨before, _, _, h, _⟩ => absurd h (by simp), fun _ => rfl⟩
  | cons line lines ih =>
    by_cases hcall : CallsOut line
    · have hstops : callBeforeWrite? (line :: lines) =
          if lines.any writesState then some line else none := by
        have hline := (containsAny_externalCalls_iff line).2 hcall
        simp [callBeforeWrite?, hline]
      rw [callThen_cons hcall, hstops, ← List.any_eq_true]
      refine ⟨fun hwrite => ⟨line, ⟨[], lines, rfl, hcall, by simp⟩, if_pos hwrite⟩, fun hwrite =>
        if_neg hwrite⟩
    · have hskips : callBeforeWrite? (line :: lines) = callBeforeWrite? lines := by
        have hline := mt (containsAny_externalCalls_iff line).1 hcall
        simp [callBeforeWrite?, hline]
      rw [callThen_cons_of_not hcall, hskips]
      refine ⟨fun hwrite => ?_, ih.2⟩
      obtain ⟨call, hfirst, hreported⟩ := ih.1 hwrite
      exact ⟨call, hfirst.cons hcall, hreported⟩

end Lines

/-! ### What is reported -/

theorem isGuarded_eq_false_iff (f : FunctionBlock) :
    isGuarded f = false ↔ ∀ m ∈ f.modifiers, m.name ∉ guardModifiers := by
  simp [isGuarded]

/-- **What the reentrancy rule reports** for a function without a guard: if some external call is
followed by a plain write that is not missed, one finding with the first call, and otherwise
nothing. -/
theorem reentrancy_exact (s : Surroundings) {b : Block} {f : FunctionBlock}
    (hf : b.function? = some f) (hguard : ∀ m ∈ f.modifiers, m.name ∉ guardModifiers) :
    (CallThen (fun line => WritesPlainly line ∧ ¬Misses line) b.codeLines →
        ∃ call, IsFirstCall b.codeLines call ∧
          reentrancy.check s b = [reentrancyFinding b (some (String.ofList call))]) ∧
      (¬CallThen (fun line => WritesPlainly line ∧ ¬Misses line) b.codeLines →
        reentrancy.check s b = []) := by
  have hcheck : reentrancy.check s b =
      perLine (callBeforeWrite? b.codeLines).toList (reentrancyFinding b) := by
    simp [reentrancy, hf, (isGuarded_eq_false_iff f).2 hguard]
  have hwrite : (fun line => WritesPlainly line ∧ ¬Misses line) = fun line => writesState line = true :=
    funext fun line => propext (writesState_iff line).symm
  obtain ⟨hreported, hsilent⟩ := callBeforeWrite?_spec b.codeLines
  rw [hwrite, hcheck]
  refine ⟨fun h => ?_, fun h => by rw [hsilent h]; rfl⟩
  obtain ⟨call, hfirst, hcall⟩ := hreported h
  exact ⟨call, hfirst, by rw [hcall]; rfl⟩

/-- A function that anyone may call, with the given statements. -/
def payout (body : String) : Block :=
  ⟨"payout", "payout", "", .basic, [], .function ⟨.pub, .nonpayable, [], [], [], false, body, []⟩⟩

/-- What is owed is cleared behind the call that pays it. -/
def clearedLate : String :=
  "uint256 due = owed[to];\n(bool ok, ) = to.call\x7bvalue: due\x7d(\"\"); // pays\nrequire(ok);\nowed[to] = 0;"

theorem reentrancy_exact_clearedLate :
    CallThen (fun line => WritesPlainly line ∧ ¬Misses line) (payout clearedLate).codeLines ∧
      ∃ call, IsFirstCall (payout clearedLate).codeLines call ∧
        reentrancy.check .none (payout clearedLate) =
          [reentrancyFinding (payout clearedLate) (some (String.ofList call))] := by
  have hlines : (payout clearedLate).codeLines = ["uint256 due = owed[to];".toList] ++
      "(bool ok, ) = to.call\x7bvalue: due\x7d(\"\");".toList ::
        ["require(ok);".toList, "owed[to] = 0;".toList] := by decide +kernel
  have hassigns : Code.AssignsPlainly "owed[to] = 0;".toList :=
    (Code.isAssignment_iff _).1 (by decide)
  have hbegins : ¬Code.BeginsLikeType "owed[to] = 0;".toList := by
    unfold Code.BeginsLikeType
    decide
  have hwrites : WritesPlainly "owed[to] = 0;".toList := ⟨Or.inl hassigns, by decide, by decide +kernel⟩
  have hthen : CallThen (fun line => WritesPlainly line ∧ ¬Misses line)
      (payout clearedLate).codeLines :=
    ⟨_, _, _, hlines, ⟨".call\x7b".toList, by decide, by decide⟩, "owed[to] = 0;".toList, by simp,
      hwrites, fun hmisses => hmisses.elim (fun h => h hassigns) hbegins⟩
  exact ⟨hthen, (reentrancy_exact .none rfl (by simp)).1 hthen⟩

/-- **A write to a variable whose name begins like a type goes unseen,** so not every plain write behind
an external call is reported. -/
theorem interest_missed :
    ¬∀ (s : Surroundings) (b : Block) (f : FunctionBlock), b.function? = some f →
      (∀ m ∈ f.modifiers, m.name ∉ guardModifiers) → CallThen WritesPlainly b.codeLines →
        ∃ call, IsFirstCall b.codeLines call ∧
          reentrancy.check s b = [reentrancyFinding b (some (String.ofList call))] := by
  intro hall
  have hlines : (payout "to.transfer(due);\ninterest = 0;").codeLines =
      [] ++ "to.transfer(due);".toList :: ["interest = 0;".toList] := by decide +kernel
  have hassigns : Code.Assigns "interest = 0;".toList :=
    Or.inl ((Code.isAssignment_iff _).1 (by decide))
  have hwrites : WritesPlainly "interest = 0;".toList := ⟨hassigns, by decide, by decide +kernel⟩
  have hsilent : reentrancy.check .none (payout "to.transfer(due);\ninterest = 0;") = [] := by
    decide +kernel
  obtain ⟨call, -, hreported⟩ := hall .none (payout "to.transfer(due);\ninterest = 0;") _ rfl (by simp)
    ⟨_, _, _, hlines, ⟨".transfer(".toList, by decide, by decide⟩, _, List.mem_singleton_self _,
      hwrites⟩
  rw [hsilent] at hreported
  cases hreported

end Rule

end ContractBlocks
