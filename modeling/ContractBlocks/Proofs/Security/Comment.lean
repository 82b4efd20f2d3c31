/-
# What comments may hide from the rules

Eight of the nine rules see the statements of a block through its code lines only, so they report the
same for any two texts with the same code lines, whatever blank space and comments these have
(`Rule.readsCode`).  The rule about access searches the text as it stands for the sender of the
call, comments and all.

A word that is neither blank nor a slash anywhere stands in a text exactly if it stands in a code
line or in a comment (`Code.infix_iff`).  So blank space makes no difference to that rule either, but
a comment does: it silences the rule if it names the sender and the code does not.
`Checker.check_withBody_iff` says so, and `Checker.silenced_by_comment` shows it.
-/

import ContractBlocks.Security.Checker
import ContractBlocks.Proofs.Block.Patch
import ContractBlocks.Proofs.Text.Search

namespace ContractBlocks

/-! ### Code and comments -/

namespace Code

/-- What stands behind the first `//` of a line. -/
def comment (line : List Char) : List Char :=
  match Text.cut? ['/', '/'] line with
  | some (_, rest) => rest
  | none => []

variable {word : List Char}

/-- A word without slashes stands in a line exactly if it stands in the code or in the comment. -/
theorem infix_line_iff (h : '/' ∉ word) (line : List Char) :
    word <:+: line ↔ word <:+: beforeComment line ∨ word <:+: comment line := by
  unfold beforeComment comment
  cases hc : Text.cut? ['/', '/'] line with
  | none =>
    refine ⟨Or.inl, fun hw => hw.elim id fun hw => ?_⟩
    rw [List.infix_nil.1 hw]
    exact List.nil_infix
  | some r =>
    obtain ⟨code, rest⟩ := r
    have hline : line = code ++ '/' :: '/' :: rest := by simpa using Text.eq_of_cut? hc
    rw [hline, Text.infix_append_cons_iff h, Text.infix_cons_iff_of_not_mem h]

/-- A word that is not empty and holds nothing blank stands in a code line exactly if it stands in the
code of a line. -/
theorem infix_lines_iff (hne : word ≠ []) (hblank : ∀ c ∈ word, ¬Text.isBlankChar c)
    (text : List Char) :
    (∃ l ∈ lines text, word <:+: l) ↔ ∃ l ∈ Text.lines text, word <:+: beforeComment l := by
  unfold lines
  constructor
  · rintro ⟨l, hl, hw⟩
    obtain ⟨line, hline, rfl⟩ := List.mem_map.1 (List.mem_of_mem_filter hl)
    exact ⟨line, hline, (Text.infix_trim_iff hblank _).1 hw⟩
  · rintro ⟨line, hline, hw⟩
    have htrim := (Text.infix_trim_iff hblank (beforeComment line)).2 hw
    refine ⟨_, List.mem_filter.2 ⟨List.mem_map_of_mem hline, ?_⟩, htrim⟩
    rw [Bool.not_eq_true', List.isEmpty_eq_false_iff]
    rintro hempty
    rw [hempty] at htrim
    exact hne (List.infix_nil.1 htrim)

/-- **A word stands in the code or in a comment.**  A word that is not empty and holds neither a slash
nor anything blank stands in a text exactly if it stands in a code line or in the comment of a
line. -/
theorem infix_iff (hne : word ≠ []) (hblank : ∀ c ∈ word, ¬Text.isBlankChar c) (h : '/' ∉ word)
    (text : List Char) :
    word <:+: text ↔
      (∃ l ∈ lines text, word <:+: l) ∨ ∃ l ∈ Text.lines text, word <:+: comment l := by
  have hn : '\n' ∉ word := fun hm => hblank _ hm (by decide)
  have hr : '\r' ∉ word := fun hm => hblank _ hm (by decide)
  rw [← Text.infix_lines_iff hne hn hr, infix_lines_iff hne hblank, ← exists_or]
  refine exists_congr fun l => ?_
  rw [infix_line_iff h, and_or_left]

end Code

/-! ### A block with other statements -/

namespace Block

/-- Texts with the same code lines give the block the same code lines. -/
theorem codeLines_withBody (b : Block) {x y : String}
    (h : Code.lines x.toList = Code.lines y.toList) :
    (b.withBody x).codeLines = (b.withBody y).codeLines := by
  unfold withBody codeLines body?
  cases b.kind with
  | function | constructor | modifier => exact h
  | _ => rfl

end Block

namespace Rule

/-- **The rule sees the statements through the code lines only.** -/
def ReadsCode (r : Rule) : Prop :=
  ∀ s (b : Block) (x y : String), Code.lines x.toList = Code.lines y.toList →
    r.check s (b.withBody x) = r.check s (b.withBody y)

/-- A rule that makes its finding for some of the code lines sees nothing else of the statements. -/
theorem readsCode_perLine {name : String} (select : List (List Char) → List (List Char))
    (finding : Block → Option String → Finding)
    (hf : ∀ (b : Block) x y, finding (b.withBody x) = finding (b.withBody y)) :
    ReadsCode ⟨name, fun _ b => perLine (select b.codeLines) (finding b)⟩ := by
  intro s b x y h
  show perLine _ _ = perLine _ _
  rw [b.codeLines_withBody h, hf b x y]

theorem reentrancy_readsCode : reentrancy.ReadsCode := by
  intro s b x y h
  simp only [reentrancy, Block.function?_withBody, b.codeLines_withBody h]
  cases b.function? <;> rfl

theorem orphanedOverride_readsCode : orphanedOverride.ReadsCode := by
  intro s b x y _
  simp only [orphanedOverride, Block.conflicts, Block.overrides_withBody]
  rfl

theorem constantCandidate_readsCode : constantCandidate.ReadsCode := by
  intro s b x y _
  simp only [constantCandidate, Block.withBody]
  cases s.contract <;> cases b.kind <;> rfl

/-- **All rules but the one about access read code only.** -/
theorem readsCode {r : Rule} (hr : r ∈ builtin) (hn : r.name ≠ accessControl.name) :
    r.ReadsCode := by
  simp only [builtin, List.mem_cons, List.not_mem_nil, or_false] at hr
  rcases hr with rfl | rfl | rfl | rfl | rfl | rfl | rfl | rfl | rfl
  · exact reentrancy_readsCode
  · exact readsCode_perLine (List.filter _) txOriginFinding fun _ _ _ => rfl
  · exact readsCode_perLine (List.filter _) uncheckedCallFinding fun _ _ _ => rfl
  · exact readsCode_perLine (List.filter _) selfdestructFinding fun _ _ _ => rfl
  · exact absurd rfl hn
  · exact readsCode_perLine (fun ls => (ls.find? _).toList) timestampFinding fun _ _ _ => rfl
  · exact readsCode_perLine (List.filter _) unboundedLoopFinding fun _ _ _ => rfl
  · exact orphanedOverride_readsCode
  · exact constantCandidate_readsCode

/-- The name of the account that calls a function. -/
def sender : List Char := "msg.sender".toList

/-- Anyone may call the function, it may change state, and its name is that of a privileged one; its
statements may still ask who calls. -/
def isExposed (b : Block) : Bool :=
  b.function?.any fun f => (f.visibility = .pub || f.visibility = .external) &&
    !f.stateMutability.isReadOnly && f.modifiers.isEmpty && isPrivilegedName b.name

/-- The rule about access reports an exposed function unless its text names the sender somewhere. -/
theorem accessControl_withBody (s : Surroundings) (b : Block) (body : String) :
    accessControl.check s (b.withBody body) =
      if isExposed b && !Text.contains sender body.toList then [accessControlFinding b] else [] := by
  have hbody := b.function?_withBody body
  cases hf : b.function? with
  | none =>
    rw [hf] at hbody
    simp [accessControl, isExposed, hbody, hf]
  | some f =>
    rw [hf] at hbody
    have hopen : (isOpen { f with body := body } && isPrivilegedName b.name) =
        (isExposed b && !Text.contains sender body.toList) := by
      rw [isExposed, hf, isOpen, Bool.and_right_comm]
      rfl
    rw [← hopen]
    simp only [accessControl, hbody]
    rfl

/-- A comment in the text names the sender. -/
def NamesSenderInComment (body : String) : Prop :=
  ∃ l ∈ Text.lines body.toList, Text.contains sender (Code.comment l)

instance (body : String) : Decidable (NamesSenderInComment body) :=
  inferInstanceAs (Decidable (∃ l ∈ Text.lines body.toList, Text.contains sender (Code.comment l)))

/-- A text names the sender in a code line or in a comment. -/
theorem contains_sender_iff (body : String) :
    Text.contains sender body.toList ↔
      (∃ l ∈ Code.lines body.toList, Text.contains sender l) ∨ NamesSenderInComment body := by
  have hall : sender.all fun c => !Text.isBlankChar c := by decide
  have hblank : ∀ c ∈ sender, ¬Text.isBlankChar c := by simpa using hall
  unfold NamesSenderInComment
  simp only [Text.contains_iff]
  exact Code.infix_iff (by decide) hblank (by decide) _

/-- **When comments make a difference to the rule about access:** for an exposed function, if its code
does not name the sender, but the comments of one of the texts do and those of the other do not. -/
theorem accessControl_withBody_iff (s : Surroundings) (b : Block) {x y : String}
    (h : Code.lines x.toList = Code.lines y.toList) :
    accessControl.check s (b.withBody x) = accessControl.check s (b.withBody y) ↔
      (isExposed b → (∀ l ∈ Code.lines x.toList, ¬Text.contains sender l) →
        (NamesSenderInComment x ↔ NamesSenderInComment y)) := by
  have hx := contains_sender_iff x
  have hy := contains_sender_iff y
  rw [← h] at hy
  rw [accessControl_withBody, accessControl_withBody]
  by_cases he : isExposed b
  · by_cases hc : ∃ l ∈ Code.lines x.toList, Text.contains sender l
    · have hcode : ¬∀ l ∈ Code.lines x.toList, ¬Text.contains sender l := fun hall =>
        hc.elim fun l hl => hall l hl.1 hl.2
      rw [hx.2 (Or.inl hc), hy.2 (Or.inl hc)]
      exact iff_of_true rfl fun _ hall => absurd hall hcode
    · have hcode : ∀ l ∈ Code.lines x.toList, ¬Text.contains sender l := fun l hl hw =>
        hc ⟨l, hl, hw⟩
      rw [or_iff_right hc] at hx hy
      rw [← hx, ← hy, he, imp_iff_right rfl, imp_iff_right hcode]
      cases Text.contains sender x.toList <;> cases Text.contains sender y.toList <;> simp
  · simp [he]

end Rule

namespace Checker

/-- **What comments and blank space do to the findings.**  For a block with one text or another as its
statements, with the same code lines, every built-in rule but the one about access reports the same,
and so does the checker, unless the block is an exposed function whose code does not name the sender
while the comments of one text do and those of the other do not. -/
theorem check_withBody_iff (s : Surroundings) (b : Block) {x y : String}
    (h : Code.lines x.toList = Code.lines y.toList) :
    (∀ r ∈ Rule.builtin, r.name ≠ Rule.accessControl.name →
        r.check s (b.withBody x) = r.check s (b.withBody y)) ∧
      (builtin.check s (b.withBody x) = builtin.check s (b.withBody y) ↔
        (Rule.isExposed b → (∀ l ∈ Code.lines x.toList, ¬Text.contains Rule.sender l) →
          (Rule.NamesSenderInComment x ↔ Rule.NamesSenderInComment y))) := by
  have hread : ∀ r ∈ Rule.builtin, r.name ≠ Rule.accessControl.name →
      r.check s (b.withBody x) = r.check s (b.withBody y) :=
    fun r hr hn => Rule.readsCode hr hn s b x y h
  refine ⟨hread, ?_⟩
  rw [← Rule.accessControl_withBody_iff s b h]
  -- the rules before the one about access report the same, and so do those behind it
  obtain ⟨before, after, hrules, hother⟩ : ∃ before after,
      Rule.builtin = before ++ Rule.accessControl :: after ∧
        ∀ r ∈ before ++ after, r.name ≠ Rule.accessControl.name :=
    ⟨Rule.builtin.take 4, Rule.builtin.drop 5, rfl, by decide⟩
  have hmem : ∀ r ∈ before ++ after, r ∈ Rule.builtin := by
    intro r hr
    rw [hrules]
    rcases List.mem_append.1 hr with hr | hr
    · exact List.mem_append_left _ hr
    · exact List.mem_append_right _ (List.mem_cons_of_mem _ hr)
  have hsame : ∀ rules ⊆ before ++ after,
      rules.flatMap (·.check s (b.withBody x)) = rules.flatMap (·.check s (b.withBody y)) :=
    fun rules hin => List.flatMap_congr fun r hr => hread r (hmem r (hin hr)) (hother r (hin hr))
  simp only [check, builtin, hrules, List.flatMap_append, List.flatMap_cons,
    hsame before (List.subset_append_left before after),
    hsame after (List.subset_append_right before after),
    List.append_cancel_left_eq, List.append_cancel_right_eq]

/-- A function that anyone may call to set a fee. -/
def setFee : Block :=
  ⟨"fee", "setFee", "", .basic, [], .function ⟨.pub, .nonpayable, [], [], [], false, "", []⟩⟩

/-- A comment that does not name the sender makes no difference, and neither does blank space. -/
theorem check_withBody_iff_remark :
    Code.lines "fee = newFee;".toList = Code.lines "\n  fee = newFee; // in wei\n\n".toList ∧
      builtin.check .none (setFee.withBody "fee = newFee;") =
        builtin.check .none (setFee.withBody "\n  fee = newFee; // in wei\n\n") := by
  have h : Code.lines "fee = newFee;".toList =
      Code.lines "\n  fee = newFee; // in wei\n\n".toList := by decide +kernel
  exact ⟨h, (check_withBody_iff .none setFee h).2.2 fun _ _ => by decide +kernel⟩

/-- **A comment that names the sender silences the rule about access,** so the findings are not the
same for all texts with the same code lines. -/
theorem silenced_by_comment :
    ¬∀ (s : Surroundings) (b : Block) (x y : String), Code.lines x.toList = Code.lines y.toList →
      builtin.check s (b.withBody x) = builtin.check s (b.withBody y) := by
  intro hall
  have hlines : Code.lines "fee = newFee;".toList =
      Code.lines "fee = newFee; // msg.sender".toList := by decide +kernel
  have hreported : builtin.check .none (setFee.withBody "fee = newFee;") =
      [Rule.accessControlFinding setFee] := by decide +kernel
  have hsilent : builtin.check .none (setFee.withBody "fee = newFee; // msg.sender") = [] := by
    decide +kernel
  have hsame := hall .none setFee _ _ hlines
  rw [hreported, hsilent] at hsame
  cases hsame

end Checker

end ContractBlocks
