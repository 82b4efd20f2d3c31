/-
# Keywords at the start of a code line

The rules about ignored results and about loops tell statements by how a line begins.  A keyword there
should be a whole word: the first identifier of the line (`Code.firstIdentifier`).  Behind `require` and
`assert` the rules ask for the parenthesis of a call, but behind `if`, `return`, `for` and `while` they
do not look where the word ends.  So a longer identifier that begins like one of these four is taken
for it (`Code.OpensPast`): a call whose result is ignored goes unreported, or a line without a loop is
reported.

`Rule.keywords_exact` says which lines are reported, and that the keywords are read as whole words
exactly where no such identifier opens the line; `Rule.iface_let_off` is a line where one does.
-/

import ContractBlocks.Proofs.Security.Reentrancy

namespace ContractBlocks

namespace Code

/-! ### How a line begins -/

/-- The first identifier of a line: its first run of characters that may stand in one. -/
def firstIdentifier (line : List Char) : List Char :=
  firstWord (line.dropWhile fun c => !Text.isIdentifierPart c)

/-- The line begins with the word, which ends there. -/
def OpensWith (word line : List Char) : Prop :=
  ∃ rest, line = word ++ rest ∧ ∀ c ∈ rest.head?, ¬Text.isIdentifierPart c

/-- The line begins with the word, but an identifier goes on there. -/
def OpensPast (word line : List Char) : Prop :=
  ∃ c rest, line = word ++ c :: rest ∧ Text.isIdentifierPart c

variable {word line : List Char}

/-- **A word at the start of a line ends there or goes on.** -/
theorem isPrefix_iff_opens : word <+: line ↔ OpensWith word line ∨ OpensPast word line := by
  constructor
  · rintro ⟨rest, rfl⟩
    cases rest with
    | nil => exact Or.inl ⟨[], rfl, fun c hc => absurd hc (by simp)⟩
    | cons c rest =>
      by_cases hc : Text.isIdentifierPart c
      · exact Or.inr ⟨c, rest, rfl, hc⟩
      · refine Or.inl ⟨c :: rest, rfl, fun d hd => ?_⟩
        obtain rfl : c = d := Option.some.inj hd
        exact hc
  · rintro (⟨rest, rfl, -⟩ | ⟨c, rest, rfl, -⟩) <;> exact List.prefix_append _ _

section Word

variable (hne : word ≠ []) (hword : ∀ c ∈ word, Text.isIdentifierPart c)

include hne hword

/-- If a line begins with a word, the first identifier is the one that it begins with. -/
theorem firstIdentifier_append (rest : List Char) :
    firstIdentifier (word ++ rest) = word ++ firstWord rest := by
  obtain ⟨c, cs, rfl⟩ := List.exists_cons_of_ne_nil hne
  have hc : Text.isIdentifierPart c := hword c List.mem_cons_self
  rw [firstIdentifier, List.cons_append, List.dropWhile_cons_of_neg (by simp [hc]),
    ← List.cons_append, firstWord, List.takeWhile_append_of_pos hword, firstWord]

theorem OpensWith.firstIdentifier_eq (h : OpensWith word line) : firstIdentifier line = word := by
  obtain ⟨rest, rfl, hrest⟩ := h
  have hends : firstWord rest = [] := by
    cases rest with
    | nil => rfl
    | cons c cs => exact List.takeWhile_cons_of_neg (hrest c rfl)
  rw [firstIdentifier_append hne hword, hends, List.append_nil]

/-- An identifier that goes on behind the word is a longer one. -/
theorem OpensPast.length_lt (h : OpensPast word line) :
    word <+: firstIdentifier line ∧ word.length < (firstIdentifier line).length := by
  obtain ⟨c, rest, rfl, hc⟩ := h
  rw [firstIdentifier_append hne hword, firstWord, List.takeWhile_cons_of_pos hc]
  exact ⟨List.prefix_append _ _, by simp⟩

/-- So it is none of some words that do not go on behind the word themselves. -/
theorem OpensPast.firstIdentifier_notMem (h : OpensPast word line) {words : List (List Char)}
    (hwords : ∀ w ∈ words, word <+: w → w = word) : firstIdentifier line ∉ words := by
  intro hmem
  obtain ⟨hopens, hlength⟩ := h.length_lt hne hword
  rw [hwords _ hmem hopens] at hlength
  exact lt_irrefl _ hlength

end Word

end Code

namespace Rule

/-! ### Lines that are reported -/

/-- A rule that makes its finding for some lines reports exactly those. -/
theorem mem_perLine_iff {lines : List (List Char)} {finding : Option String → Finding}
    (h : ∀ code, (finding code).code = code) (line : List Char) :
    finding (some (String.ofList line)) ∈ perLine lines finding ↔ line ∈ lines := by
  rw [perLine, List.mem_map]
  constructor
  · rintro ⟨other, hother, hsame⟩
    have hcode := congrArg Finding.code hsame
    rw [h, h, Option.some.injEq] at hcode
    exact String.ofList_injective hcode ▸ hother
  · exact fun hline => ⟨line, hline, rfl⟩

/-- The line has a call that reports failure by its result only. -/
def CallsLow (line : List Char) : Prop := ∃ call ∈ lowLevelCalls, call <:+: line

/-- The rule about ignored results reports the line. -/
def ReportsCall (s : Surroundings) (b : Block) (line : List Char) : Prop :=
  uncheckedCallFinding b (some (String.ofList line)) ∈ uncheckedCall.check s b

/-- The rule about loops reports the line. -/
def ReportsLoop (s : Surroundings) (b : Block) (line : List Char) : Prop :=
  unboundedLoopFinding b (some (String.ofList line)) ∈ unboundedLoop.check s b

/-- The functions that stop unless a condition holds. -/
def conditionChecks : List (List Char) := ["require", "assert"].map String.toList

/-- The keywords of the statements that use a value. -/
def valueKeywords : List (List Char) := ["if", "return"].map String.toList

/-- The keywords of loops. -/
def loopKeywords : List (List Char) := ["for", "while"].map String.toList

/-- Keywords are identifiers. -/
theorem isIdentifier_of_mem {k : List Char} (hk : k ∈ conditionChecks ++ valueKeywords ++ loopKeywords) :
    Text.isIdentifier k := by
  have hall : ∀ k ∈ conditionChecks ++ valueKeywords ++ loopKeywords, Text.isIdentifier k := by decide
  exact hall k hk

/-- The line is taken for one that uses the result of a call: it begins with a call of `require` or
`assert`, or with `if` or `return`, or with an identifier that goes on behind one of the last two. -/
def LetOff (line : List Char) : Prop :=
  (∃ k ∈ conditionChecks, k ++ ['('] <+: line) ∨
    ∃ k ∈ valueKeywords, Code.OpensWith k line ∨ Code.OpensPast k line

/-- The line is taken for a loop without a bound: it begins with `while`, or with `for` and holds a
length, or with an identifier that goes on behind the one or the other. -/
def LooksUnbounded (line : List Char) : Prop :=
  ∃ k ∈ loopKeywords, (k = "for".toList → ".length".toList <:+: line) ∧
    (Code.OpensWith k line ∨ Code.OpensPast k line)

theorem resultUses_any_iff (line : List Char) :
    (resultUses.any fun w => Text.startsWith w line) ↔ LetOff line := by
  have hperm : resultUses.Perm (conditionChecks.map (· ++ ['(']) ++ valueKeywords) := by decide
  simp only [List.any_eq_true, Text.startsWith, List.isPrefixOf_iff_prefix, hperm.mem_iff,
    List.mem_append, List.mem_map, or_and_right, exists_or, exists_exists_and_eq_and, LetOff,
    Code.isPrefix_iff_opens]

theorem loopsUnbounded_iff (line : List Char) : loopsUnbounded line ↔ LooksUnbounded line := by
  have hwhile : "while".toList ≠ "for".toList := by decide
  have hkeywords : loopKeywords = ["for".toList, "while".toList] := rfl
  simp only [LooksUnbounded, ← Code.isPrefix_iff_opens, hkeywords, List.mem_cons, List.not_mem_nil,
    or_false, exists_eq_or_imp, exists_eq_left, hwhile, false_imp_iff, true_imp_iff, true_and]
  rw [loopsUnbounded, Bool.or_eq_true, Bool.and_eq_true, Text.contains_iff, Text.startsWith,
    Text.startsWith, List.isPrefixOf_iff_prefix, List.isPrefixOf_iff_prefix, and_comm]

variable {s : Surroundings} {b : Block} {line : List Char}

theorem reportsCall_iff :
    ReportsCall s b line ↔
      line ∈ b.codeLines ∧ CallsLow line ∧ ¬Code.AssignsPlainly line ∧ ¬LetOff line := by
  have hcalls : Text.containsAny lowLevelCalls line ↔ CallsLow line := by
    simp only [Text.containsAny, List.any_eq_true, Text.contains_iff, CallsLow]
  rw [ReportsCall, uncheckedCall, mem_perLine_iff fun _ => rfl, List.mem_filter, ignoresResult,
    Bool.and_eq_true, Bool.and_eq_true, Bool.not_eq_true', Bool.not_eq_true', ← Bool.not_eq_true,
    ← Bool.not_eq_true, hcalls, resultUses_any_iff, Code.isAssignment_iff, and_assoc]

theorem reportsLoop_iff : ReportsLoop s b line ↔ line ∈ b.codeLines ∧ LooksUnbounded line := by
  rw [ReportsLoop, unboundedLoop, mem_perLine_iff fun _ => rfl, List.mem_filter, loopsUnbounded_iff]

/-! ### Whole words -/

theorem firstIdentifier_eq_of_opensWith {k : List Char}
    (hk : k ∈ conditionChecks ++ valueKeywords ++ loopKeywords) (h : Code.OpensWith k line) :
    Code.firstIdentifier line = k :=
  h.firstIdentifier_eq (Text.ne_nil_of_isIdentifier (isIdentifier_of_mem hk)) fun _ =>
    Text.isIdentifierPart_of_mem (isIdentifier_of_mem hk)

/-- A line that is let off begins with a keyword as a whole word, or goes on behind `if` or `return`. -/
theorem LetOff.firstIdentifier_mem (h : LetOff line) :
    Code.firstIdentifier line ∈ conditionChecks ++ valueKeywords ∨
      ∃ k ∈ valueKeywords, Code.OpensPast k line := by
  have hwhole : ∀ k ∈ conditionChecks ++ valueKeywords, Code.OpensWith k line →
      Code.firstIdentifier line ∈ conditionChecks ++ valueKeywords := fun k hk hopens =>
    (firstIdentifier_eq_of_opensWith (List.mem_append_left _ hk) hopens).symm ▸ hk
  rcases h with ⟨k, hk, rest, rfl⟩ | ⟨k, hk, hopens | hpast⟩
  · refine Or.inl (hwhole k (List.mem_append_left _ hk) ⟨'(' :: rest, by simp, ?_⟩)
    intro c hc
    obtain rfl : '(' = c := Option.some.inj hc
    decide
  · exact Or.inl (hwhole k (List.mem_append_right _ hk) hopens)
  · exact Or.inr ⟨k, hk, hpast⟩

/-- An identifier that goes on behind a keyword is none of the keywords of that kind. -/
theorem notMem_of_opensPast {k : List Char} (hpast : Code.OpensPast k line) :
    (k ∈ valueKeywords → Code.firstIdentifier line ∉ conditionChecks ++ valueKeywords) ∧
      (k ∈ loopKeywords → Code.firstIdentifier line ∉ loopKeywords) := by
  have hvalues : ∀ k ∈ valueKeywords, ∀ w ∈ conditionChecks ++ valueKeywords, k <+: w → w = k := by
    decide
  have hloops : ∀ k ∈ loopKeywords, ∀ w ∈ loopKeywords, k <+: w → w = k := by decide
  have hnone : ∀ ws, k ∈ conditionChecks ++ valueKeywords ++ loopKeywords →
      (∀ w ∈ ws, k <+: w → w = k) → Code.firstIdentifier line ∉ ws := fun ws hk hws =>
    hpast.firstIdentifier_notMem (Text.ne_nil_of_isIdentifier (isIdentifier_of_mem hk))
      (fun _ => Text.isIdentifierPart_of_mem (isIdentifier_of_mem hk)) hws
  exact ⟨fun hk => hnone _ (by simp [hk]) (hvalues k hk), fun hk => hnone _ (by simp [hk]) (hloops k hk)⟩

/-- How the keywords at the start of a code line are read. -/
structure KeywordsRead (s : Surroundings) (b : Block) (line : List Char) : Prop where
  /-- A line is reported for its call exactly if the call is a low-level one, its result is not
  assigned, and the line is not let off. -/
  call_iff : ReportsCall s b line ↔ CallsLow line ∧ ¬Code.AssignsPlainly line ∧ ¬LetOff line
  /-- Only a whole keyword lets a line off, unless an identifier goes on behind `if` or `return`. -/
  call_whole_iff : CallsLow line → ¬Code.AssignsPlainly line →
    ((¬ReportsCall s b line → Code.firstIdentifier line ∈ conditionChecks ++ valueKeywords) ↔
      ¬∃ k ∈ valueKeywords, Code.OpensPast k line)
  /-- A line is reported as a loop exactly if it looks like one without a bound. -/
  loop_iff : ReportsLoop s b line ↔ LooksUnbounded line
  /-- Only a line with a whole keyword is, unless an identifier goes on behind `for` or `while`. -/
  loop_whole_iff : (ReportsLoop s b line → Code.firstIdentifier line ∈ loopKeywords) ↔
    ¬(LooksUnbounded line ∧ ∃ k ∈ loopKeywords, Code.OpensPast k line)

/-- **How keywords are read:** for each code line of a block, which low-level calls go unreported, which
lines are reported as loops, and that whole keywords decide on it exactly where no identifier goes on
behind `if`, `return`, `for` or `while`. -/
theorem keywords_exact (s : Surroundings) {b : Block} {line : List Char} (hline : line ∈ b.codeLines) :
    KeywordsRead s b line where
  call_iff := by rw [reportsCall_iff, and_iff_right hline]
  call_whole_iff hcalls hassigns := by
    rw [reportsCall_iff, and_iff_right hline, and_iff_right hcalls, and_iff_right hassigns, not_not]
    constructor
    · rintro hwhole ⟨k, hk, hpast⟩
      exact (notMem_of_opensPast hpast).1 hk (hwhole (Or.inr ⟨k, hk, Or.inr hpast⟩))
    · exact fun hnone hoff => hoff.firstIdentifier_mem.resolve_right hnone
  loop_iff := by rw [reportsLoop_iff, and_iff_right hline]
  loop_whole_iff := by
    rw [reportsLoop_iff, and_iff_right hline]
    constructor
    · rintro hwhole ⟨hlooks, k, hk, hpast⟩
      exact (notMem_of_opensPast hpast).2 hk (hwhole hlooks)
    · intro hnone hlooks
      obtain ⟨k, hk, hlength, hbegins⟩ := hlooks
      rcases hbegins with hopens | hpast
      · exact (firstIdentifier_eq_of_opensWith (List.mem_append_right _ hk) hopens).symm ▸ hk
      · exact absurd ⟨⟨k, hk, hlength, Or.inr hpast⟩, k, hk, hpast⟩ hnone

/-- A call on an interface and a call that takes a length, on lines that begin like an `if` and like a
`for`. -/
def lookalikes : Block := payout "iface.send(1);\nforwarder.notify(holders.length);"

theorem mem_codeLines_lookalikes {line : List Char}
    (h : line ∈ ["iface.send(1);", "forwarder.notify(holders.length);"].map String.toList) :
    line ∈ lookalikes.codeLines := by
  have hlines : lookalikes.codeLines =
      ["iface.send(1);", "forwarder.notify(holders.length);"].map String.toList := by decide +kernel
  exact hlines ▸ h

theorem iface_ignores :
    CallsLow "iface.send(1);".toList ∧ ¬Code.AssignsPlainly "iface.send(1);".toList := by
  rw [← Code.isAssignment_iff]
  exact ⟨⟨".send(".toList, by decide, by decide⟩, by decide⟩

/-- The call on the interface is not reported, and its line is no loop. -/
theorem keywords_exact_iface :
    "iface.send(1);".toList ∈ lookalikes.codeLines ∧ CallsLow "iface.send(1);".toList ∧
      ¬Code.AssignsPlainly "iface.send(1);".toList ∧
      ¬ReportsCall .none lookalikes "iface.send(1);".toList ∧
      ¬ReportsLoop .none lookalikes "iface.send(1);".toList := by
  have hline : "iface.send(1);".toList ∈ lookalikes.codeLines := mem_codeLines_lookalikes (by decide)
  obtain ⟨hcalls, hassigns⟩ := iface_ignores
  have hread := keywords_exact .none hline
  refine ⟨hline, hcalls, hassigns, ?_, ?_⟩
  · rw [hread.call_iff, ← resultUses_any_iff]
    exact fun h => h.2.2 (by decide)
  · rw [hread.loop_iff, ← loopsUnbounded_iff]
    decide

/-- **An identifier that goes on behind a keyword is taken for it,** so not every low-level call that
goes unreported and not every line that is reported as a loop begins with a whole keyword. -/
theorem iface_let_off :
    (¬∀ (s : Surroundings) (b : Block) (line : List Char), line ∈ b.codeLines → CallsLow line →
        ¬Code.AssignsPlainly line → ¬ReportsCall s b line →
          Code.firstIdentifier line ∈ conditionChecks ++ valueKeywords) ∧
      ¬∀ (s : Surroundings) (b : Block) (line : List Char), line ∈ b.codeLines →
        ReportsLoop s b line → Code.firstIdentifier line ∈ loopKeywords := by
  have hsend : "iface.send(1);".toList ∈ lookalikes.codeLines := mem_codeLines_lookalikes (by decide)
  have hnotify : "forwarder.notify(holders.length);".toList ∈ lookalikes.codeLines :=
    mem_codeLines_lookalikes (by decide)
  constructor
  · intro hall
    obtain ⟨hcalls, hassigns⟩ := iface_ignores
    have hsilent : ¬ReportsCall .none lookalikes "iface.send(1);".toList := by
      rw [reportsCall_iff, ← resultUses_any_iff]
      exact fun h => h.2.2.2 (by decide)
    exact absurd (hall .none lookalikes _ hsend hcalls hassigns hsilent) (by decide)
  · intro hall
    have hreported : ReportsLoop .none lookalikes "forwarder.notify(holders.length);".toList := by
      rw [reportsLoop_iff, ← loopsUnbounded_iff]
      exact ⟨hnotify, by decide⟩
    exact absurd (hall .none lookalikes _ hnotify hreported) (by decide)

end Rule

end ContractBlocks
