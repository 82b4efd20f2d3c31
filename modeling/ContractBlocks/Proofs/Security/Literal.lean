/-
# Comments and string literals

A `//` in a double-quoted string literal begins no comment, so the code of a line ends at the first
`//` that is outside of them all (`Code.uncommented`, `Code.uncommented_spec`).  The rules cut a line at
its first `//`, wherever that stands.  What they inspect of a line is its code unless the first `//` is in
such a literal, and then it is less (`Code.trim_beforeComment_eq_iff`).

`Rule.inspected_exact` says what the rules see of the statements of a block, and which calls that
destroy the contract are reported; `Rule.literal_hides_code` is one that is not.
-/

import ContractBlocks.Proofs.Security.Comment

namespace ContractBlocks

namespace Code

/-! ### The code of a line -/

/-- Where a scan of a line stands: outside of all string literals, or in one with the given quotation
marks, perhaps just behind a backslash there. -/
inductive Quoting where
  | outside
  | inside (mark : Char)
  | escaped (mark : Char)
deriving DecidableEq, Repr

namespace Quoting

/-- The characters that a string literal begins and ends with. -/
def marks : List Char := "\"'".toList

/-- The scan goes on by one character.  A literal ends at its own mark, unless a backslash is before
it. -/
def step : Quoting → Char → Quoting
  | .outside, c => if c ∈ marks then .inside c else .outside
  | .inside mark, c =>
    if c = mark then .outside else if c = '\\' then .escaped mark else .inside mark
  | .escaped mark, _ => .inside mark

/-- The scan stands in a double-quoted literal. -/
def isDouble : Quoting → Bool
  | .outside => false
  | .inside mark | .escaped mark => mark = '"'

/-- A slash neither begins nor ends a literal. -/
theorem isDouble_step_slash (q : Quoting) : (q.step '/').isDouble = q.isDouble := by
  cases q with
  | outside => rfl
  | escaped mark => rfl
  | inside mark =>
    by_cases h : '/' = mark
    · subst h
      rfl
    · have hstep : (inside mark).step '/' = .inside mark := by simp [step, h]
      rw [hstep]

end Quoting

/-- Where a scan stands behind a text. -/
def quoting (text : List Char) : Quoting := text.foldl Quoting.step .outside

/-- The code in the rest of a line, from where a scan stands. -/
def uncommentedFrom : Quoting → List Char → List Char
  | _, [] => []
  | q, c :: cs =>
    if Text.startsWith ['/', '/'] (c :: cs) && !q.isDouble then []
    else c :: uncommentedFrom (q.step c) cs

/-- The code of a line: what stands before the first `//` that is not in a double-quoted literal, and
the whole line if there is none. -/
def uncommented (line : List Char) : List Char := uncommentedFrom .outside line

/-- The first `//` of the line is in a double-quoted literal. -/
def firstMarkQuoted (line : List Char) : Bool :=
  (Text.cut? ['/', '/'] line).any fun r => (quoting r.1).isDouble

/-- The code of the lines of a text, without blank characters around it; lines without code are left
out. -/
def statements (text : List Char) : List (List Char) :=
  ((Text.lines text).map fun l => Text.trim (uncommented l)).filter fun l => !l.isEmpty

section Line

variable {line before after : List Char}

theorem uncommentedFrom_of_cut?_eq_none (h : Text.cut? ['/', '/'] line = none) (q : Quoting) :
    uncommentedFrom q line = line := by
  induction line generalizing q with
  | nil => rfl
  | cons c cs ih =>
    by_cases hs : Text.startsWith ['/', '/'] (c :: cs)
    · simp [Text.cut?, hs] at h
    · have hcs : Text.cut? ['/', '/'] cs = none := by simpa [Text.cut?, hs] using h
      rw [uncommentedFrom, if_neg (by simp [hs]), ih hcs]

/-- In a double-quoted literal the scan passes over a `//`. -/
theorem uncommentedFrom_mark_of_isDouble {q : Quoting} (h : q.isDouble) (after : List Char) :
    uncommentedFrom q ('/' :: '/' :: after) =
      '/' :: '/' :: uncommentedFrom ((q.step '/').step '/') after := by
  have hnext : (q.step '/').isDouble := by rw [q.isDouble_step_slash, h]
  rw [uncommentedFrom, if_neg (by simp [h]), uncommentedFrom, if_neg (by simp [hnext])]

/-- The scan goes on to the first `//`, and it stops there unless it is in a double-quoted literal. -/
theorem uncommentedFrom_of_cut? (h : Text.cut? ['/', '/'] line = some (before, after))
    (q : Quoting) :
    uncommentedFrom q line =
      before ++ uncommentedFrom (before.foldl Quoting.step q) ('/' :: '/' :: after) := by
  induction line generalizing before q with
  | nil => cases h
  | cons c cs ih =>
    have hline := Text.eq_of_cut? h
    by_cases hs : Text.startsWith ['/', '/'] (c :: cs)
    · obtain rfl : [] = before := by
        simp only [Text.cut?, hs, if_true, Option.some.injEq, Prod.mk.injEq] at h
        exact h.1
      rw [hline]
      rfl
    · rw [Text.cut?, if_neg hs] at h
      obtain ⟨⟨b, a⟩, hcut, he⟩ := Option.map_eq_some_iff.1 h
      obtain ⟨rfl, rfl⟩ := Prod.mk.inj he
      rw [uncommentedFrom, if_neg (by simp [hs]), ih hcut]
      rfl

/-- **Where the code of a line ends:** the line is code, or a `//` stands behind the code and not in a
double-quoted literal, and no such `//` stands further in front. -/
theorem uncommented_spec (line : List Char) :
    (line = uncommented line ∨ ∃ comment, line = uncommented line ++ '/' :: '/' :: comment ∧
        ¬(quoting (uncommented line)).isDouble) ∧
      ∀ before comment, line = before ++ '/' :: '/' :: comment → ¬(quoting before).isDouble →
        (uncommented line).length ≤ before.length := by
  unfold uncommented quoting
  generalize Quoting.outside = q
  induction line generalizing q with
  | nil => simp [uncommentedFrom]
  | cons c cs ih =>
    rw [uncommentedFrom]
    split
    · next hcut =>
      obtain ⟨hs, hq⟩ := Bool.and_eq_true_iff.1 hcut
      obtain ⟨comment, hline⟩ := List.isPrefixOf_iff_prefix.1 hs
      exact ⟨Or.inr ⟨comment, hline.symm, by simpa using hq⟩, fun _ _ _ _ => Nat.zero_le _⟩
    · next hcut =>
      obtain ⟨hends, hfirst⟩ := ih (q.step c)
      refine ⟨?_, fun before comment hline hq => ?_⟩
      · refine hends.imp (congrArg _) ?_
        rintro ⟨comment, hcs, hq⟩
        exact ⟨comment, congrArg _ hcs, hq⟩
      · cases before with
        | nil => simp_all [Text.startsWith]
        | cons d before =>
          obtain ⟨rfl, hcs⟩ := List.cons.inj hline
          exact Nat.succ_le_succ (hfirst before comment hcs hq)

/-! ### What the rules take for code -/

theorem firstMarkQuoted_of_cut? (h : Text.cut? ['/', '/'] line = some (before, after)) :
    firstMarkQuoted line = (quoting before).isDouble := by
  rw [firstMarkQuoted, h]
  rfl

theorem beforeComment_of_cut? (h : Text.cut? ['/', '/'] line = some (before, after)) :
    beforeComment line = before := by
  rw [beforeComment, h]

theorem beforeComment_of_cut?_eq_none (h : Text.cut? ['/', '/'] line = none) :
    beforeComment line = line := by
  rw [beforeComment, h]

/-- There is no `//` in what the rules take for code. -/
theorem mark_not_infix_beforeComment (line : List Char) : ¬['/', '/'] <:+: beforeComment line := by
  cases hcut : Text.cut? ['/', '/'] line with
  | none =>
    rw [beforeComment_of_cut?_eq_none hcut, ← Text.contains_iff, Text.contains, hcut]
    exact Bool.false_ne_true
  | some r =>
    obtain ⟨before, after⟩ := r
    rw [beforeComment_of_cut? hcut]
    rintro ⟨x, y, rfl⟩
    -- the mark in front would have been found first
    have hline : line = x ++ ['/', '/'] ++ (y ++ ['/', '/'] ++ after) := by
      simp [Text.eq_of_cut? hcut]
    have hlen := Text.length_le_of_cut? hcut hline
    simp only [List.length_append, List.length_cons] at hlen
    omega

/-- The rules see the code of a line unless its first `//` is in a double-quoted literal. -/
theorem uncommented_eq_beforeComment (h : firstMarkQuoted line = false) :
    uncommented line = beforeComment line := by
  cases hcut : Text.cut? ['/', '/'] line with
  | none =>
    rw [beforeComment_of_cut?_eq_none hcut]
    exact uncommentedFrom_of_cut?_eq_none hcut _
  | some r =>
    obtain ⟨before, after⟩ := r
    have hq : (quoting before).isDouble = false := by rw [← firstMarkQuoted_of_cut? hcut, h]
    have hstop : uncommentedFrom (quoting before) ('/' :: '/' :: after) = [] := by
      simp [uncommentedFrom, Text.startsWith, hq]
    rw [beforeComment_of_cut? hcut, uncommented, uncommentedFrom_of_cut? hcut, ← quoting, hstop,
      List.append_nil]

/-- If it is, there is a `//` in the code. -/
theorem mark_infix_uncommented (h : firstMarkQuoted line) : ['/', '/'] <:+: uncommented line := by
  cases hcut : Text.cut? ['/', '/'] line with
  | none =>
    rw [firstMarkQuoted, hcut] at h
    cases h
  | some r =>
    obtain ⟨before, after⟩ := r
    have hq : (quoting before).isDouble := by rw [← firstMarkQuoted_of_cut? hcut, h]
    rw [uncommented, uncommentedFrom_of_cut? hcut, ← quoting, uncommentedFrom_mark_of_isDouble hq]
    exact (List.prefix_append ['/', '/'] _).isInfix.trans (List.suffix_append before _).isInfix

/-- Trimming takes nothing off a mark. -/
theorem not_isBlankChar_of_mem_mark : ∀ c ∈ ['/', '/'], ¬Text.isBlankChar c :=
  List.forall_mem_cons.2 ⟨by decide, List.forall_mem_singleton.2 (by decide)⟩

/-- **What the rules see of a line is its code exactly if the first `//` of the line is not in a
double-quoted literal.** -/
theorem trim_beforeComment_eq_iff (line : List Char) :
    Text.trim (beforeComment line) = Text.trim (uncommented line) ↔ firstMarkQuoted line = false := by
  refine ⟨fun hsame => ?_, fun h => by rw [uncommented_eq_beforeComment h]⟩
  rw [← Bool.not_eq_true]
  intro hquoted
  have hmark := (Text.infix_trim_iff not_isBlankChar_of_mem_mark _).2 (mark_infix_uncommented hquoted)
  rw [← hsame, Text.infix_trim_iff not_isBlankChar_of_mem_mark] at hmark
  exact mark_not_infix_beforeComment line hmark

/-- **The code lines of a text are the code of its lines exactly if the first `//` of no line is in a
double-quoted literal.** -/
theorem lines_eq_statements_iff (text : List Char) :
    lines text = statements text ↔ ∀ line ∈ Text.lines text, firstMarkQuoted line = false := by
  constructor
  · intro hsame line hline
    rw [← Bool.not_eq_true]
    intro hquoted
    -- the line shows a mark in its code, and no code line holds one
    have hblank := not_isBlankChar_of_mem_mark
    have hmark := (Text.infix_trim_iff hblank _).2 (mark_infix_uncommented hquoted)
    have hne : Text.trim (uncommented line) ≠ [] := by
      intro hempty
      rw [hempty] at hmark
      exact absurd (List.infix_nil.1 hmark) (by decide)
    have hmem : Text.trim (uncommented line) ∈ lines text := by
      rw [hsame]
      exact List.mem_filter.2 ⟨List.mem_map_of_mem hline, by simpa using hne⟩
    obtain ⟨other, -, hother⟩ := (infix_lines_iff (by decide) hblank text).1 ⟨_, hmem, hmark⟩
    exact mark_not_infix_beforeComment other hother
  · intro h
    refine congrArg _ (List.map_congr_left fun line hline => ?_)
    rw [uncommented_eq_beforeComment (h line hline)]

/-- **A word without slashes is seen where no `//` stands before it** on its line, be that in a literal
or not. -/
theorem infix_beforeComment_iff {word : List Char} (hne : word ≠ []) (h : '/' ∉ word)
    (line : List Char) :
    word <:+: beforeComment line ↔
      ∃ before after, line = before ++ word ++ after ∧ ¬['/', '/'] <:+: before := by
  constructor
  · rintro ⟨x, y, hcode⟩
    obtain ⟨rest, hline⟩ : beforeComment line <+: line := by
      cases hcut : Text.cut? ['/', '/'] line with
      | none => rw [beforeComment_of_cut?_eq_none hcut]
      | some r =>
        rw [beforeComment_of_cut? hcut, Text.eq_of_cut? hcut, List.append_assoc]
        exact List.prefix_append _ _
    refine ⟨x, y ++ rest, by rw [← List.append_assoc, hcode, hline], fun hx => ?_⟩
    refine mark_not_infix_beforeComment line (hx.trans ?_)
    rw [← hcode, List.append_assoc]
    exact (List.prefix_append x _).isInfix
  · rintro ⟨x, y, hline, hx⟩
    obtain ⟨c, cs, rfl⟩ := List.exists_cons_of_ne_nil hne
    obtain ⟨hc, hcs⟩ := not_or.1 (List.mem_cons.not.1 h)
    have hmark : ¬['/', '/'] <:+: x ++ c :: cs := by
      have hcmark : c ∉ ['/', '/'] := by simpa using Ne.symm hc
      rw [Text.infix_append_cons_iff hcmark]
      exact fun hin => hin.elim hx fun hin => hcs (hin.subset (by decide))
    cases hcut : Text.cut? ['/', '/'] line with
    | none =>
      rw [beforeComment_of_cut?_eq_none hcut, hline]
      exact List.infix_append x _ y
    | some r =>
      obtain ⟨before, after⟩ := r
      rw [beforeComment_of_cut? hcut]
      have hword : x ++ c :: cs <+: line := ⟨y, hline.symm⟩
      have hcode : before ++ ['/'] ++ ['/'] <+: line := ⟨after, by simp [Text.eq_of_cut? hcut]⟩
      rcases List.prefix_or_prefix_of_prefix hword hcode with hin | hin
      · rw [← Text.infix_concat_iff_of_not_mem h, ← Text.infix_concat_iff_of_not_mem h]
        exact (List.suffix_append x _).isInfix.trans hin.isInfix
      · refine absurd (List.IsInfix.trans ?_ hin.isInfix) hmark
        exact ⟨before, [], by simp⟩

end Line

end Code

namespace Rule

theorem selfdestruct_check_eq_nil_iff (s : Surroundings) (b : Block) :
    selfdestruct.check s b = [] ↔
      ∀ call ∈ destructions, ∀ line ∈ b.codeLines, ¬call <:+: line := by
  simp only [selfdestruct, perLine, List.map_eq_nil_iff, List.filter_eq_nil_iff, Text.containsAny,
    List.any_eq_true, Text.contains_iff, not_exists, not_and]
  exact ⟨fun h call hcall line hline => h line hline call hcall, fun h line hline call hcall =>
    h call hcall line hline⟩

/-- **What the rules inspect of the statements of a block.**  Of a line it is the code without blank
characters around it exactly if the first `//` of the line is not in a double-quoted literal, and so
the code lines are the code of all lines exactly if that is so for each of them.  A call that destroys
the contract goes unreported exactly if a `//`, be it in a literal or not, stands before each such call
on its line. -/
theorem inspected_exact (s : Surroundings) {b : Block} {body : String} (hb : b.body? = some body) :
    (∀ line, Text.trim (Code.beforeComment line) = Text.trim (Code.uncommented line) ↔
        Code.firstMarkQuoted line = false) ∧
      (b.codeLines = Code.statements body.toList ↔
        ∀ line ∈ Text.lines body.toList, Code.firstMarkQuoted line = false) ∧
      (selfdestruct.check s b = [] ↔
        ∀ line ∈ Text.lines body.toList, ∀ before call after, call ∈ destructions →
          line = before ++ call ++ after → ['/', '/'] <:+: before) := by
  have hlines : b.codeLines = Code.lines body.toList := by rw [Block.codeLines, hb]
  refine ⟨Code.trim_beforeComment_eq_iff, ?_, ?_⟩
  · rw [hlines, Code.lines_eq_statements_iff]
  · have hall : ∀ call ∈ destructions,
        call ≠ [] ∧ '/' ∉ call ∧ call.all fun c => !Text.isBlankChar c := by decide
    have hplain : ∀ call ∈ destructions,
        call ≠ [] ∧ '/' ∉ call ∧ ∀ c ∈ call, ¬Text.isBlankChar c := by simpa using hall
    rw [selfdestruct_check_eq_nil_iff, hlines]
    constructor
    · intro h line hline before call after hcall hsplit
      obtain ⟨hne, hslash, hblank⟩ := hplain call hcall
      by_contra hfree
      have hin := (Code.infix_beforeComment_iff hne hslash line).2 ⟨before, after, hsplit, hfree⟩
      obtain ⟨code, hcode, hseen⟩ :=
        (Code.infix_lines_iff hne hblank body.toList).2 ⟨line, hline, hin⟩
      exact h call hcall code hcode hseen
    · intro h call hcall code hcode hseen
      obtain ⟨hne, hslash, hblank⟩ := hplain call hcall
      obtain ⟨line, hline, hin⟩ :=
        (Code.infix_lines_iff hne hblank body.toList).1 ⟨code, hcode, hseen⟩
      obtain ⟨before, after, hsplit, hfree⟩ := (Code.infix_beforeComment_iff hne hslash line).1 hin
      exact hfree (h line hline before call after hcall hsplit)

/-- A function that closes the contract, with the given statements. -/
def farewell (body : String) : Block :=
  ⟨"close", "close", "", .basic, [], .function ⟨.pub, .nonpayable, [], [], [], false, body, []⟩⟩

/-- A literal that holds a quotation mark, a call behind it, and a comment with a mark between two more
quotation marks. -/
def spoken : String :=
  "emit Note(\"so \\\" long\"); selfdestruct(owner); // \"bye // bye\"\n  closed = true;"

theorem inspected_exact_spoken :
    (farewell spoken).body? = some spoken ∧
      (farewell spoken).codeLines = Code.statements spoken.toList ∧
      selfdestruct.check .none (farewell spoken) ≠ [] := by
  have hbody : (farewell spoken).body? = some spoken := rfl
  obtain ⟨-, hlines, hsilent⟩ := inspected_exact .none hbody
  refine ⟨hbody, hlines.2 (by decide +kernel), fun hnil => ?_⟩
  have hmark : ['/', '/'] <:+: "emit Note(\"so \\\" long\"); ".toList :=
    hsilent.1 hnil "emit Note(\"so \\\" long\"); selfdestruct(owner); // \"bye // bye\"".toList
      (by decide +kernel) _ "selfdestruct(".toList "owner); // \"bye // bye\"".toList (by decide)
      (by decide)
  exact absurd hmark (by decide)

/-- A call behind a literal that holds `//`. -/
def hushed : String := "emit Note(\"//\"); selfdestruct(owner);"

/-- **A call behind a literal that holds `//` goes unseen,** so the code lines of a text without block
comments are not always the code of its lines, and not every call that destroys the contract is
reported. -/
theorem literal_hides_code :
    (¬∀ (b : Block) (body : String), b.body? = some body → ¬['/', '*'] <:+: body.toList →
        b.codeLines = Code.statements body.toList) ∧
      ¬∀ (s : Surroundings) (b : Block) (body : String), b.body? = some body →
        ¬['/', '*'] <:+: body.toList →
        (∃ line ∈ Code.statements body.toList, ∃ call ∈ destructions, call <:+: line) →
          selfdestruct.check s b ≠ [] := by
  have hbody : (farewell hushed).body? = some hushed := rfl
  have hplain : ¬['/', '*'] <:+: hushed.toList := by decide
  have hstatements : Code.statements hushed.toList = [hushed.toList] := by decide +kernel
  have hseen : (farewell hushed).codeLines = ["emit Note(\"".toList] := by decide +kernel
  have hsilent : selfdestruct.check .none (farewell hushed) = [] := by decide +kernel
  constructor
  · intro hall
    have hsame := hall (farewell hushed) hushed hbody hplain
    rw [hseen, hstatements] at hsame
    exact absurd hsame (by decide)
  · intro hall
    refine hall .none (farewell hushed) hushed hbody hplain ?_ hsilent
    rw [hstatements]
    exact ⟨_, List.mem_singleton_self _, "selfdestruct(".toList, by decide, by decide⟩

end Rule
end ContractBlocks
