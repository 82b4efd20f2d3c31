/-
# Where a word stands in a text

A word stands in a text if it is an infix of it (`Text.contains_iff`).  A character that the word does
not hold parts the text: the word stands on one side of it or on the other
(`Text.infix_append_cons_iff`).  So a word without line feeds and carriage returns stands in a text
exactly if it stands in one of its lines (`Text.infix_lines_iff`), and a word without blank
characters stands in a trimmed text exactly if it stands in the whole (`Text.infix_trim_iff`).
-/

import ContractBlocks.Text.Search
import ContractBlocks.Proofs.Text.Lines
import Mathlib.Data.List.Infix
import Mathlib.Data.List.TakeWhile

namespace ContractBlocks
namespace Text

variable {word : List Char}

/-- **A text holds a word exactly if the word is an infix of it.** -/
theorem contains_iff (word text : List Char) : contains word text ↔ word <:+: text := by
  unfold contains
  induction text with
  | nil =>
    rw [cut?, List.infix_nil]
    cases word <;> simp
  | cons c cs ih =>
    rw [cut?, List.infix_cons_iff, ← ih, ← List.isPrefixOf_iff_prefix]
    by_cases hs : startsWith word (c :: cs)
    · rw [if_pos hs]
      exact iff_of_true rfl (Or.inl hs)
    · rw [if_neg hs, Option.isSome_map]
      exact ⟨Or.inr, fun h => h.resolve_left hs⟩

/-- **A character that is not in the word parts the text.** -/
theorem infix_append_cons_iff {x : Char} (hx : x ∉ word) (a b : List Char) :
    word <:+: a ++ x :: b ↔ word <:+: a ∨ word <:+: b := by
  have hnil : ∀ {l : List Char}, l ⊆ word → l <+: x :: b → l = [] := by
    intro l hl h
    rcases List.prefix_cons_iff.1 h with rfl | ⟨t, rfl, -⟩
    · rfl
    · exact absurd (hl List.mem_cons_self) hx
  constructor
  · intro h
    rcases List.infix_append_iff.1 h with h | h | ⟨l, r, rfl, hl, hr⟩
    · exact Or.inl h
    · rcases List.infix_cons_iff.1 h with h | h
      · rw [hnil (List.Subset.refl _) h]
        exact Or.inl (List.nil_infix)
      · exact Or.inr h
    · rw [hnil (List.subset_append_right l r) hr, List.append_nil]
      exact Or.inl hl.isInfix
  · rintro (h | h)
    · exact h.trans (List.prefix_append _ _).isInfix
    · exact h.trans ((List.suffix_cons x b).trans (List.suffix_append _ _)).isInfix

/-- A character that is not in the word makes no difference in front of the text. -/
theorem infix_cons_iff_of_not_mem {x : Char} (hx : x ∉ word) (b : List Char) :
    word <:+: x :: b ↔ word <:+: b := by
  have h := infix_append_cons_iff hx [] b
  rw [List.nil_append] at h
  rw [h]
  refine ⟨fun h => h.elim (fun hw => ?_) id, Or.inr⟩
  rw [List.infix_nil.1 hw]
  exact List.nil_infix

/-- Nor does it behind the text. -/
theorem infix_concat_iff_of_not_mem {x : Char} (hx : x ∉ word) (a : List Char) :
    word <:+: a ++ [x] ↔ word <:+: a := by
  rw [infix_append_cons_iff hx]
  refine ⟨fun h => h.elim id fun hw => ?_, Or.inl⟩
  rw [List.infix_nil.1 hw]
  exact List.nil_infix

/-! ### The first occurrence -/

/-- In a text that begins with the word, that is the first occurrence. -/
theorem cut?_append_self (word rest : List Char) : cut? word (word ++ rest) = some ([], rest) := by
  cases word with
  | nil => cases rest <;> simp [cut?, startsWith]
  | cons c cs => simp [cut?, startsWith]

/-- **No occurrence stands before the one that is found.** -/
theorem length_le_of_cut? {text before after a b : List Char}
    (h : cut? word text = some (before, after)) (htext : text = a ++ word ++ b) :
    before.length ≤ a.length := by
  induction text generalizing before after a with
  | nil =>
    simp only [cut?] at h
    split at h <;> simp_all
  | cons c cs ih =>
    simp only [cut?] at h
    split at h
    · simp_all
    · next hs =>
      obtain ⟨⟨x, y⟩, hr, he⟩ := Option.map_eq_some_iff.1 h
      obtain ⟨rfl, rfl⟩ := Prod.mk.inj he
      cases a with
      | nil =>
        rw [htext] at hs
        exact absurd (List.isPrefixOf_iff_prefix.2 (List.prefix_append _ _)) hs
      | cons d a => exact Nat.succ_le_succ (ih hr (List.cons.inj htext).2)

/-- A character that is not in the word changes nothing about the first occurrence before it. -/
theorem cut?_concat {word : List Char} {x : Char} (hne : word ≠ []) (hx : x ∉ word)
    (text : List Char) :
    cut? word (text ++ [x]) = (cut? word text).map fun r => (r.1, r.2 ++ [x]) := by
  induction text with
  | nil =>
    obtain ⟨c, cs, rfl⟩ := List.exists_cons_of_ne_nil hne
    have hc : c ≠ x := fun h => hx (h ▸ List.mem_cons_self)
    simp [cut?, startsWith, hc]
  | cons c cs ih =>
    have hstarts : startsWith word (c :: (cs ++ [x])) = startsWith word (c :: cs) := by
      rw [Bool.eq_iff_iff, startsWith, startsWith, List.isPrefixOf_iff_prefix,
        List.isPrefixOf_iff_prefix, ← List.cons_append, List.prefix_concat_iff]
      refine ⟨fun h => h.resolve_left fun heq => hx ?_, Or.inr⟩
      simp [heq]
    rw [List.cons_append, cut?, cut?, hstarts]
    split
    · next hs =>
      have hlen := (List.isPrefixOf_iff_prefix.1 hs).length_le
      rw [Option.map_some, ← List.cons_append, List.drop_append_of_le_length hlen]
    · rw [ih, Option.map_map, Option.map_map]
      rfl

/-! ### Trimming -/

/-- Blank characters at the start of a text are taken off, whatever follows them. -/
theorem trimStart_append_of_isBlank {gap : List Char} (h : isBlank gap) (text : List Char) :
    trimStart (gap ++ text) = trimStart text :=
  List.dropWhile_append_of_pos (List.all_eq_true.1 h)

/-- Blank characters at the end of a text are taken off, whatever is before them. -/
theorem trim_append_of_isBlank {gap : List Char} (h : isBlank gap) (text : List Char) :
    trim (text ++ gap) = trim text := by
  have hend : ∀ start, trimEnd (start ++ gap) = trimEnd start := by
    intro start
    have hrev : ∀ c ∈ gap.reverse, isBlankChar c := fun c hc =>
      List.all_eq_true.1 h c (List.mem_reverse.1 hc)
    rw [trimEnd, trimEnd, List.reverse_append, List.dropWhile_append_of_pos hrev]
  rw [trim, trim, trimStart, List.dropWhile_append]
  split
  · next hempty =>
    have hgap : gap.dropWhile isBlankChar = [] :=
      List.dropWhile_eq_nil_iff.2 (List.all_eq_true.1 h)
    rw [hgap, trimStart, List.isEmpty_iff.1 hempty]
  · exact hend _

/-- A text is a blank one in front of what trimming leaves. -/
theorem exists_eq_append_trimStart (text : List Char) :
    ∃ gap, isBlank gap ∧ text = gap ++ trimStart text :=
  ⟨text.takeWhile isBlankChar, List.all_takeWhile, List.takeWhile_append_dropWhile.symm⟩

theorem infix_trimStart_iff (h : ∀ c ∈ word, ¬isBlankChar c) (text : List Char) :
    word <:+: trimStart text ↔ word <:+: text := by
  unfold trimStart
  induction text with
  | nil => rfl
  | cons c cs ih =>
    by_cases hc : isBlankChar c
    · have hw : c ∉ word := fun hm => h c hm hc
      rw [List.dropWhile_cons_of_pos hc, ih, infix_cons_iff_of_not_mem hw]
    · rw [List.dropWhile_cons_of_neg hc]

theorem infix_trimEnd_iff (h : ∀ c ∈ word, ¬isBlankChar c) (text : List Char) :
    word <:+: trimEnd text ↔ word <:+: text := by
  have hword : ∀ c ∈ word.reverse, ¬isBlankChar c := fun c hc => h c (List.mem_reverse.1 hc)
  have hr := infix_trimStart_iff hword text.reverse
  rw [List.reverse_infix] at hr
  rw [← hr, ← List.reverse_infix, trimEnd, List.reverse_reverse]
  rfl

/-- **A word without blank characters stands in the trimmed text exactly if it stands in the text.** -/
theorem infix_trim_iff (h : ∀ c ∈ word, ¬isBlankChar c) (text : List Char) :
    word <:+: trim text ↔ word <:+: text := by
  rw [trim, infix_trimEnd_iff h, infix_trimStart_iff h]

/-! ### Lines -/

/-- A word without line feeds stands in a text exactly if it stands in one of the pieces. -/
theorem infix_pieces_iff (h : '\n' ∉ word) (text : List Char) :
    (∃ p ∈ pieces text, word <:+: p) ↔ word <:+: text := by
  induction hn : text.length using Nat.strong_induction_on generalizing text with
  | h n ih =>
    by_cases hm : '\n' ∈ text
    · obtain ⟨a, b, rfl⟩ := List.append_of_mem hm
      have hlen : a.length < n ∧ b.length < n := by
        rw [List.length_append, List.length_cons] at hn
        omega
      rw [pieces_append_newline, infix_append_cons_iff h, ← ih _ hlen.1 a rfl,
        ← ih _ hlen.2 b rfl]
      simp only [List.mem_append, or_and_right, exists_or]
    · rw [pieces_of_newline_not_mem hm]
      simp

theorem infix_dropReturn_iff (h : '\r' ∉ word) (line : List Char) :
    word <:+: dropReturn line ↔ word <:+: line := by
  unfold dropReturn
  split
  · next hl =>
    obtain ⟨start, rfl⟩ := List.getLast?_eq_some_iff.1 hl
    rw [List.dropLast_concat, infix_concat_iff_of_not_mem h]
  · rfl

theorem infix_closePieces_iff (hne : word ≠ []) (h : '\r' ∉ word) (ps : List (List Char)) :
    (∃ l ∈ closePieces ps, word <:+: l) ↔ ∃ p ∈ ps, word <:+: p := by
  induction ps with
  | nil => rfl
  | cons p ps ih =>
    cases ps with
    | nil =>
      rw [closePieces]
      split
      · next hp =>
        have hempty : ¬word <:+: p := by
          rw [List.isEmpty_iff.1 hp]
          exact fun hw => hne (List.infix_nil.1 hw)
        simp [hempty]
      · rfl
    | cons q qs =>
      simp only [closePieces, List.mem_cons, exists_eq_or_imp] at ih ⊢
      rw [ih, infix_dropReturn_iff h]

/-- **A word without line feeds and carriage returns stands in a text exactly if it stands in one of
the lines.** -/
theorem infix_lines_iff (hne : word ≠ []) (hn : '\n' ∉ word) (hr : '\r' ∉ word) (text : List Char) :
    (∃ l ∈ lines text, word <:+: l) ↔ word <:+: text := by
  rw [lines, infix_closePieces_iff hne hr, infix_pieces_iff hn]

end Text
end ContractBlocks
