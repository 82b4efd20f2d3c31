/-
# Writes that the rule about constants notes

A variable with an initial value should be reported as a constant only if nothing writes to it.  The
rule looks for the name in every code line of the contract, and for one of seven operators or for an
index with an assignment behind it (`Code.IsWriteBehind`).  It goes from one occurrence of the name to
the next, and an occurrence that stands apart from what is before it is never passed over
(`Code.writesAt_of_apart`).  What it does not know are the six operators `%=`, `|=`, `&=`, `^=`, `<<=`
and `>>=`, the operators in front of a name, and a `delete` with other than one space behind it.

`Rule.constantCandidate_exact` says when nothing is reported, and when the variable is;
`Rule.masked_candidate` is a variable that is reported although a line writes to it.
-/

import ContractBlocks.Security.Rule
import ContractBlocks.Validation.Block
import ContractBlocks.Proofs.Security.Operator
import ContractBlocks.Proofs.Text.Search

namespace ContractBlocks

/-- The code lines of a contract, block by block. -/
def Contract.codeLines (c : Contract) : List (List Char) := c.blocks.flatMap Block.codeLines

namespace Code

variable {name line before rest : List Char}

/-! ### What follows a name -/

/-- The operators that write to the name before them. -/
def writers : List (List Char) :=
  ["=", "+=", "-=", "*=", "/=", "%=", "|=", "&=", "^=", "<<=", ">>=", "++", "--"].map String.toList

/-- The operators among them that the rule knows. -/
def knownWriters : List (List Char) :=
  ["=", "+=", "-=", "*=", "/=", "++", "--"].map String.toList

/-- An equals sign is an operator by itself if it does not go on as a comparison or an arrow; all other
operators that write are as long as they can be. -/
def EndsBefore (op rest : List Char) : Prop := op = ['='] → ∀ c ∈ rest.head?, c ∉ ['=', '>']

/-- Behind a name, the text counts as a write to it: after blank characters there is an equals sign that
does not begin a comparison, another operator that is known, or an index with an assignment behind
it. -/
def IsWriteBehind (rest : List Char) : Prop :=
  ∃ gap tail, rest = gap ++ tail ∧ Text.isBlank gap ∧
    (['='] <+: tail ∧ ¬['=', '='] <+: tail ∨ (∃ op ∈ knownWriters, op ≠ ['='] ∧ op <+: tail) ∨
      ['['] <+: tail ∧ AssignsPlainly tail)

theorem isWrite_iff (tail : List Char) :
    isWrite tail ↔ ['='] <+: tail ∧ ¬['=', '='] <+: tail ∨
      (∃ op ∈ knownWriters, op ≠ ['='] ∧ op <+: tail) ∨ ['['] <+: tail ∧ AssignsPlainly tail := by
  have hknown : ∀ p : List Char → Prop, (∃ op ∈ knownWriters, op ≠ ['='] ∧ p op) ↔
      ∃ op ∈ writeOperators, p op.toList := by
    intro p
    simp [knownWriters, writeOperators]
  have hcompares : ['=', '='].isPrefixOf tail = false ↔ ¬['=', '='] <+: tail := by
    rw [← Bool.not_eq_true, List.isPrefixOf_iff_prefix]
  rw [hknown (· <+: tail), ← isAssignment_iff]
  simp [isWrite, Text.startsWith, or_assoc, hcompares]

/-- What counts as a write begins with the first character of an operator or with a bracket. -/
theorem head_of_isWrite {c : Char} {cs : List Char} (h : isWrite (c :: cs)) :
    c ∈ ['=', '+', '-', '*', '/', '['] := by
  have hsame : ∀ {word : List Char} {d : Char}, d :: word <+: c :: cs → c = d := fun hw =>
    (List.cons_prefix_cons.1 hw).1.symm
  rcases (isWrite_iff _).1 h with ⟨h, -⟩ | ⟨op, hop, -, h⟩ | ⟨h, -⟩
  · rw [hsame h]
    decide
  · simp only [knownWriters, List.map_cons, List.map_nil, List.mem_cons, List.not_mem_nil,
      or_false] at hop
    rcases hop with rfl | rfl | rfl | rfl | rfl | rfl | rfl <;> rw [hsame h] <;> decide
  · rw [hsame h]
    decide

theorem trimStart_of_isWrite {tail : List Char} (h : isWrite tail) : Text.trimStart tail = tail := by
  cases tail with
  | nil => rfl
  | cons c cs =>
    have hall : ['=', '+', '-', '*', '/', '['].all fun d => !Text.isBlankChar d := by decide
    have hc : (!Text.isBlankChar c) = true := List.all_eq_true.1 hall c (head_of_isWrite h)
    exact List.dropWhile_cons_of_neg (by simpa using hc)

theorem isWrite_trimStart_iff (rest : List Char) :
    isWrite (Text.trimStart rest) ↔ IsWriteBehind rest := by
  constructor
  · intro h
    obtain ⟨gap, hgap, hrest⟩ := Text.exists_eq_append_trimStart rest
    exact ⟨gap, _, hrest, hgap, (isWrite_iff _).1 h⟩
  · rintro ⟨gap, tail, rfl, hgap, htail⟩
    have hwrite := (isWrite_iff tail).2 htail
    rwa [Text.trimStart_append_of_isBlank hgap, trimStart_of_isWrite hwrite]

/-- **Which of the operators are known:** a name with one of the operators behind it counts as written
exactly if that is an equals sign, a step, or an operation of elementary arithmetic. -/
theorem isWriteBehind_iff_mem {gap op : List Char} (hgap : Text.isBlank gap) (hop : op ∈ writers)
    (hends : EndsBefore op rest) : IsWriteBehind (gap ++ op ++ rest) ↔ op ∈ knownWriters := by
  have hstart : Text.trimStart (op ++ rest) = op ++ rest := by
    have hblank : ∀ op ∈ writers, op.head?.all fun c => !Text.isBlankChar c := by decide
    have hne : ∀ op ∈ writers, op ≠ [] := by decide
    obtain ⟨c, cs, rfl⟩ := List.exists_cons_of_ne_nil (hne op hop)
    exact List.dropWhile_cons_of_neg (by simpa using hblank _ hop)
  rw [← isWrite_trimStart_iff, List.append_assoc, Text.trimStart_append_of_isBlank hgap, hstart,
    isWrite_iff]
  simp only [writers, List.map_cons, List.map_nil, List.mem_cons, List.not_mem_nil, or_false] at hop
  rcases hop with rfl | hop
  · have hequals : ¬['=', '='] <+: ['='] ++ rest := by
      rintro ⟨text, htext⟩
      obtain rfl : '=' :: text = rest := (List.cons.inj htext).2
      exact hends rfl '=' rfl (by decide)
    exact iff_of_true (Or.inl ⟨List.prefix_append _ _, hequals⟩) (by decide)
  · rcases hop with rfl | rfl | rfl | rfl | rfl | rfl | rfl | rfl | rfl | rfl | rfl | rfl
    all_goals simp [knownWriters]

/-! ### The occurrences of a name -/

/-- An occurrence that is a write, if it is the first one or a later one. -/
theorem exists_of_writesAt (h : writesAt name line) :
    ∃ before rest, line = before ++ name ++ rest ∧ IsWriteBehind rest := by
  fun_induction writesAt name line with
  | case1 => cases h
  | case2 => cases h
  | case3 line hne before after hcut ih =>
    have hline := Text.eq_of_cut? hcut
    rw [Bool.or_eq_true, Bool.and_eq_true, isWrite_trimStart_iff] at h
    rcases h with ⟨-, hwrite⟩ | h
    · exact ⟨before, after, hline, hwrite⟩
    · obtain ⟨between, rest, rfl, hwrite⟩ := ih h
      exact ⟨before ++ name ++ between, rest, by simp [hline], hwrite⟩

/-- **An occurrence that stands apart is not passed over.**  The occurrences before it end before the
character that it stands apart by. -/
theorem writesAt_of_apart (hne : name ≠ []) (hapart : ∀ c ∈ before.getLast?, isBoundary c ∧ c ∉ name)
    (hwrite : IsWriteBehind rest) : writesAt name (before ++ name ++ rest) := by
  generalize hline : before ++ name ++ rest = line
  fun_induction writesAt name line generalizing before with
  | case1 => contradiction
  | case2 line _ hcut =>
    have hholds := (Text.contains_iff name line).2 (hline ▸ List.infix_append before name rest)
    rw [Text.contains, hcut] at hholds
    cases hholds
  | case3 line _ start after hcut ih =>
    have hsame : before ++ (name ++ rest) = start ++ (name ++ after) := by
      rw [← List.append_assoc, ← List.append_assoc, hline, Text.eq_of_cut? hcut]
    have hfirst : start.length ≤ before.length := Text.length_le_of_cut? hcut hline.symm
    obtain ⟨between, rfl⟩ : start <+: before :=
      List.prefix_of_prefix_length_le (List.prefix_append _ _)
        (hsame ▸ List.prefix_append before _) hfirst
    rw [List.append_assoc] at hsame
    have hrest := List.append_cancel_left hsame
    rw [Bool.or_eq_true, Bool.and_eq_true, isWrite_trimStart_iff]
    rcases List.append_eq_append_iff.1 hrest with ⟨m, hname, hm⟩ | ⟨m, rfl, hafter⟩
    · cases between using List.reverseRecOn with
      | nil =>
        obtain rfl : rest = after := List.append_cancel_left hrest
        rw [List.append_nil] at hapart
        exact Or.inl ⟨(Option.all_eq_true _ _).2 fun c hc => (hapart c hc).1, hwrite⟩
      | append_singleton between c _ =>
        -- the character that the occurrence stands apart by would be in the name
        have hc := hapart c (by simp)
        exact absurd (hname ▸ by simp) hc.2
    · right
      have hagain : m ++ name ++ rest = after := by rw [hafter, List.append_assoc]
      refine ih (fun c hc => hapart c ?_) hagain
      simp [List.getLast?_append, Option.mem_def.1 hc]

/-- Before an occurrence stands nothing, or a character that is no letter, digit, underscore, dollar sign
or dot. -/
def StandsApart (before : List Char) : Prop :=
  ∀ c ∈ before.getLast?, ¬Text.isAlphanumeric c ∧ c ∉ ['_', '$', '.']

/-- The line begins with a `delete` of the name, or holds an occurrence with what is asked for before it
and a write behind it. -/
def Writes (ok : List Char → Prop) (name line : List Char) : Prop :=
  "delete ".toList ++ name <+: line ∨
    ∃ before rest, line = before ++ name ++ rest ∧ ok before ∧ IsWriteBehind rest

/-- A write to a name that stands apart is noted. -/
theorem writesTo_of_writes (hname : Text.isIdentifier name) (h : Writes StandsApart name line) :
    writesTo line name := by
  have hne := Text.ne_nil_of_isIdentifier hname
  rw [writesTo, Bool.and_eq_true, Bool.or_eq_true, Text.startsWith, List.isPrefixOf_iff_prefix]
  refine ⟨by simp [hne], h.imp_right ?_⟩
  rintro ⟨before, rest, rfl, hapart, hwrite⟩
  refine writesAt_of_apart hne (fun c hc => ?_) hwrite
  obtain ⟨hletter, hother⟩ := hapart c hc
  simp only [List.mem_cons, List.not_mem_nil, or_false, not_or] at hother
  refine ⟨by simp [isBoundary, hletter, hother], fun hmem => ?_⟩
  have hpart := Text.isIdentifierPart_of_mem hname hmem
  have hascii : ¬c.isAlphanum := mt Text.isAlphanumeric_of_isAlphanum hletter
  simp [Text.isIdentifierPart, hascii, hother] at hpart

/-- What is noted is a write to the name, or to a longer name that ends in it. -/
theorem writes_of_writesTo (h : writesTo line name) : Writes (fun _ => True) name line := by
  rw [writesTo, Bool.and_eq_true, Bool.or_eq_true, Text.startsWith, List.isPrefixOf_iff_prefix] at h
  refine h.2.imp_right fun hwrites => ?_
  obtain ⟨before, rest, hline, hwrite⟩ := exists_of_writesAt hwrites
  exact ⟨before, rest, hline, trivial, hwrite⟩

/-- The line begins with a write to the name: with the name and an operator behind it, with a step in
front of the name, or with a `delete` of the name. -/
inductive BeginsWrite (name : List Char) : List Char → Prop
  | operator {gap op rest : List Char} (hgap : Text.isBlank gap) (hop : op ∈ writers)
      (hends : EndsBefore op rest) : BeginsWrite name (name ++ gap ++ op ++ rest)
  | step {op gap rest : List Char} (hop : op ∈ ["++".toList, "--".toList])
      (hgap : Text.isBlank gap) (hends : ∀ c ∈ rest.head?, ¬Text.isIdentifierPart c) :
      BeginsWrite name (op ++ gap ++ name ++ rest)
  | delete {gap rest : List Char} (hne : gap ≠ []) (hgap : Text.isBlank gap)
      (hends : ∀ c ∈ rest.head?, ¬Text.isIdentifierPart c) :
      BeginsWrite name ("delete".toList ++ gap ++ name ++ rest)

end Code

namespace Rule

theorem isWritten_iff {c : Contract} {name : String} :
    isWritten c name ↔ ∃ line ∈ c.codeLines, Code.writesTo line name.toList := by
  simp only [isWritten, List.any_eq_true, Contract.codeLines, List.mem_flatMap]
  constructor
  · rintro ⟨b, hb, line, hline, hwrites⟩
    exact ⟨line, ⟨b, hb, hline⟩, hwrites⟩
  · rintro ⟨line, ⟨b, hb, hline⟩, hwrites⟩
    exact ⟨b, hb, line, hline, hwrites⟩

/-- **When a variable is reported as a constant.**  For a mutable variable with an initial value and an
identifier as its name, nothing is reported if some code line of the contract writes to the name where
it stands apart, and the variable is reported if no code line writes to the name or to a longer one
that ends in it.  Behind a name, seven of the thirteen operators that write to it count as a
write. -/
theorem constantCandidate_exact {s : Surroundings} {c : Contract} {b : Block} {v : VariableBlock}
    (hs : s.contract = some c) (hkind : b.kind = .stateVariable v) (hmutable : v.mutability = .mutable)
    (hvalue : v.initialValue.isSome) (hname : isIdentifierName b.name) :
    ((∃ line ∈ c.codeLines, Code.Writes Code.StandsApart b.name.toList line) →
        constantCandidate.check s b = []) ∧
      ((∀ line ∈ c.codeLines, ¬Code.Writes (fun _ => True) b.name.toList line) →
        constantCandidate.check s b = [constantCandidateFinding b]) ∧
      ∀ gap op rest, Text.isBlank gap → op ∈ Code.writers → Code.EndsBefore op rest →
        (Code.IsWriteBehind (gap ++ op ++ rest) ↔ op ∈ Code.knownWriters) := by
  have hne : b.name ≠ "" := by simpa using Text.ne_nil_of_isIdentifier hname
  have hcheck : constantCandidate.check s b =
      if isWritten c b.name then [] else [constantCandidateFinding b] := by
    cases hw : isWritten c b.name <;> simp [constantCandidate, hs, hkind, hmutable, hvalue, hne, hw]
  refine ⟨?_, fun h => ?_, fun gap op rest => Code.isWriteBehind_iff_mem⟩
  · rintro ⟨line, hline, hwrites⟩
    rw [hcheck, if_pos (isWritten_iff.2 ⟨line, hline, Code.writesTo_of_writes hname hwrites⟩)]
  · rw [hcheck, if_neg]
    rw [isWritten_iff]
    rintro ⟨line, hline, hwrites⟩
    exact h line hline (Code.writes_of_writesTo hwrites)

/-- A variable of flags, with an initial value. -/
def flags : Block :=
  ⟨"flags", "flags", "", .basic, [], .stateVariable ⟨"uint256", .pub, .mutable, some "1"⟩⟩

/-- A contract with the flags and a function of the given statements. -/
def switches (body : String) : Contract :=
  ⟨"switches", "Switches", [⟨flags, .origin⟩, ⟨⟨"toggle", "toggle", "", .basic, [],
    .function ⟨.pub, .nonpayable, [], [], [], false, body, []⟩⟩, .origin⟩], []⟩

theorem constantCandidate_exact_flags :
    (∃ line ∈ (switches "if (open) flags += 2;").codeLines,
        Code.Writes Code.StandsApart flags.name.toList line) ∧
      constantCandidate.check ⟨some (switches "if (open) flags += 2;"), none⟩ flags = [] := by
  have hlines : (switches "if (open) flags += 2;").codeLines = ["if (open) flags += 2;".toList] := by
    decide +kernel
  have hgap : Text.isBlank [' '] := by decide
  have hends : Code.EndsBefore ['+', '='] " 2;".toList := fun h => absurd h (by decide)
  have hbehind : Code.IsWriteBehind ([' '] ++ ['+', '='] ++ " 2;".toList) :=
    (Code.isWriteBehind_iff_mem hgap (by decide) hends).2 (by decide)
  have hwrites : ∃ line ∈ (switches "if (open) flags += 2;").codeLines,
      Code.Writes Code.StandsApart flags.name.toList line := by
    rw [hlines]
    refine ⟨_, List.mem_singleton_self _, Or.inr ⟨"if (open) ".toList, _, rfl, ?_, hbehind⟩⟩
    have hlast : "if (open) ".toList.getLast? = some ' ' := by decide
    intro c hc
    obtain rfl : ' ' = c := Option.some.inj (hlast.symm.trans hc)
    decide
  exact ⟨hwrites, (constantCandidate_exact rfl rfl rfl rfl (by decide)).1 hwrites⟩

/-- **A variable that is masked in place is reported as a constant,** so not every line that begins with
a write to a variable keeps the rule from reporting it. -/
theorem masked_candidate :
    ¬∀ (s : Surroundings) (c : Contract) (b : Block) (v : VariableBlock), s.contract = some c →
      b ∈ c.blocks → b.kind = .stateVariable v → v.mutability = .mutable → v.initialValue.isSome →
      isIdentifierName b.name → (∃ line ∈ c.codeLines, Code.BeginsWrite b.name.toList line) →
        constantCandidate.check s b = [] := by
  intro hall
  have hlines : (switches "flags |= 2;").codeLines = ["flags |= 2;".toList] := by decide +kernel
  have hbegins : Code.BeginsWrite flags.name.toList
      (flags.name.toList ++ [' '] ++ ['|', '='] ++ " 2;".toList) :=
    .operator (by decide) (by decide) fun h => absurd h (by decide)
  have hreported : constantCandidate.check ⟨some (switches "flags |= 2;"), none⟩ flags =
      [constantCandidateFinding flags] := by decide +kernel
  have hsilent := hall ⟨some (switches "flags |= 2;"), none⟩ (switches "flags |= 2;") flags _ rfl
    (by decide) rfl rfl rfl (by decide) ⟨_, hlines ▸ List.mem_singleton_self _, hbegins⟩
  rw [hreported] at hsilent
  cases hsilent

end Rule

end ContractBlocks
