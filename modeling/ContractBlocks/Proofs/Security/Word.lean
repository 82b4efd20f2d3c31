/-
# Names that run on

A line that writes to a name should hold it as a whole identifier, with no character beside it that may
stand in one (`Code.StandsWhole`).  The rule about constants looks at the character before an
occurrence in what is left of the line behind the occurrence found last, it takes a dollar sign for the
end of a name, and behind `delete` it does not look where the name ends.  So it also notes writes to
longer names (`Code.RunsOn`), and those are all that it notes besides (`Code.writesTo_exact`);
`Code.other_deleted` is one of them.
-/

import ContractBlocks.Proofs.Security.ConstantCandidate

namespace ContractBlocks

namespace Text

/-- No blank character may stand in an identifier. -/
theorem not_isIdentifierPart_of_isBlankChar {c : Char} (h : isBlankChar c) :
    ¬isIdentifierPart c := by
  intro hpart
  have hrange : 33 ≤ c.toNat ∧ c.toNat ≤ 122 := by
    simp only [isIdentifierPart, Bool.or_eq_true, beq_iff_eq] at hpart
    rcases hpart with (hpart | rfl) | rfl
    · have hascii := toNat_of_isAlphanum hpart
      omega
    · decide
    · decide
  simp only [isBlankChar, blankRanges, List.any_cons, List.any_nil, Bool.or_eq_true,
    Bool.and_eq_true, decide_eq_true_eq, Bool.or_false] at h
  omega

end Text

namespace Code

variable {name line before rest : List Char}

/-! ### Whole identifiers -/

/-- The name stands in the line as a whole identifier: it is a run of its characters, and no character
beside it may stand in an identifier. -/
def StandsWhole (name line : List Char) : Prop :=
  ∃ before rest, line = before ++ name ++ rest ∧
    (∀ c ∈ before.getLast?, ¬Text.isIdentifierPart c) ∧ ∀ c ∈ rest.head?, ¬Text.isIdentifierPart c

/-- The words of a line: its maximal runs of characters that may stand in an identifier, with an empty
one between two characters that may not. -/
def words (line : List Char) : List (List Char) := line.splitOnP fun c => !Text.isIdentifierPart c

theorem words_of_forall (h : ∀ c ∈ name, Text.isIdentifierPart c) : words name = [name] :=
  List.splitOnP_eq_singleton fun c hc => by simpa using h c hc

theorem words_append_cons {c : Char} (hc : ¬Text.isIdentifierPart c) (xs ys : List Char) :
    words (xs ++ c :: ys) = words xs ++ words ys :=
  List.splitOnP_append_cons xs ys (by simpa using hc)

/-- **A whole identifier is a word of the line.** -/
theorem StandsWhole.mem_words (h : StandsWhole name line) (hname : Text.isIdentifier name) :
    name ∈ words line := by
  obtain ⟨before, rest, rfl, hbefore, hrest⟩ := h
  have hword : words name = [name] :=
    words_of_forall fun c hc => Text.isIdentifierPart_of_mem hname hc
  have hend : name ∈ words (name ++ rest) := by
    cases rest with
    | nil => simp [hword]
    | cons c cs => simp [words_append_cons (hrest c rfl), hword]
  cases before using List.reverseRecOn with
  | nil => exact hend
  | append_singleton before c _ =>
    have hline : before ++ [c] ++ name ++ rest = before ++ c :: (name ++ rest) := by simp
    rw [hline, words_append_cons (hbefore c (by simp))]
    exact List.mem_append_right _ hend

/-! ### What stands beside a name that is noted -/

/-- Behind a name that is written to, an identifier does not go on. -/
theorem head?_of_isWriteBehind (h : IsWriteBehind rest) :
    ∀ c ∈ rest.head?, ¬Text.isIdentifierPart c := by
  intro c hc
  obtain ⟨gap, tail, rfl, hgap, hwrite⟩ := h
  have hwrite := (isWrite_iff tail).2 hwrite
  cases gap with
  | cons d gap =>
    obtain rfl : d = c := Option.some.inj hc
    exact Text.not_isIdentifierPart_of_isBlankChar (List.all_eq_true.1 hgap d List.mem_cons_self)
  | nil =>
    cases tail with
    | nil => cases hc
    | cons d tail =>
      obtain rfl : d = c := Option.some.inj hc
      have hall : ['=', '+', '-', '*', '/', '['].all fun d => !Text.isIdentifierPart d := by decide
      simpa using List.all_eq_true.1 hall d (head_of_isWrite hwrite)

/-- Of the characters that are taken for the end of a name, the dollar sign alone may stand in one. -/
theorem eq_dollar_of_isBoundary {c : Char} (h : isBoundary c) (hpart : Text.isIdentifierPart c) :
    c = '$' := by
  simp only [isBoundary, Bool.not_eq_true', Bool.or_eq_false_iff, beq_eq_false_iff_ne] at h
  simp only [Text.isIdentifierPart, Bool.or_eq_true, beq_iff_eq] at hpart
  rcases hpart with (hletter | rfl) | rfl
  · exact absurd (Text.isAlphanumeric_of_isAlphanum hletter) (by simp [h.1.1])
  · exact absurd rfl h.1.2
  · rfl

/-- Before an occurrence that is noted stands nothing, a character that is taken for the end of a name,
or the name itself, where the search has just found it. -/
theorem exists_parted_of_writesAt (h : writesAt name line) :
    ∃ before rest, line = before ++ name ++ rest ∧ IsWriteBehind rest ∧
      ((∀ c ∈ before.getLast?, isBoundary c) ∨ name <:+ before) := by
  fun_induction writesAt name line with
  | case1 => cases h
  | case2 => cases h
  | case3 line hne before after hcut ih =>
    have hline := Text.eq_of_cut? hcut
    rw [Bool.or_eq_true, Bool.and_eq_true, isWrite_trimStart_iff] at h
    rcases h with ⟨hbefore, hwrite⟩ | h
    · exact ⟨before, after, hline, hwrite, Or.inl ((Option.all_eq_true _ _).1 hbefore)⟩
    · obtain ⟨between, rest, rfl, hwrite, hbetween⟩ := ih h
      refine ⟨before ++ name ++ between, rest, by simp [hline], hwrite, ?_⟩
      cases between with
      | nil => exact Or.inr (by rw [List.append_nil]; exact List.suffix_append before name)
      | cons c cs =>
        refine hbetween.imp (fun hlast => ?_) fun hname => ?_
        · rwa [List.getLast?_append_of_ne_nil _ (List.cons_ne_nil c cs)]
        · exact hname.trans (List.suffix_append _ _)

/-- A line that writes to a longer name and is noted all the same: a `delete` of a name that goes on, a
name that goes on behind a dollar sign, or the name twice with nothing between. -/
inductive RunsOn (name : List Char) : List Char → Prop
  | delete {c : Char} {rest : List Char} (hc : Text.isIdentifierPart c) :
      RunsOn name ("delete ".toList ++ name ++ c :: rest)
  | dollar {before rest : List Char} (hwrite : IsWriteBehind rest) :
      RunsOn name (before ++ '$' :: name ++ rest)
  | twice {before rest : List Char} (hwrite : IsWriteBehind rest) :
      RunsOn name (before ++ name ++ name ++ rest)

/-- In what is noted the name stands as a whole identifier, or the line runs on. -/
theorem standsWhole_or_runsOn (h : writesTo line name) : StandsWhole name line ∨ RunsOn name line := by
  rw [writesTo, Bool.and_eq_true, Bool.or_eq_true, Text.startsWith, List.isPrefixOf_iff_prefix] at h
  rcases h.2 with ⟨rest, rfl⟩ | hwrites
  · have hlast : "delete ".toList.getLast? = some ' ' := by decide
    have hspace : ∀ c ∈ "delete ".toList.getLast?, ¬Text.isIdentifierPart c := by
      intro c hc
      obtain rfl : ' ' = c := Option.some.inj (hlast.symm.trans hc)
      decide
    cases rest with
    | nil => exact Or.inl ⟨_, [], rfl, hspace, fun c hc => absurd hc (by simp)⟩
    | cons c cs =>
      by_cases hc : Text.isIdentifierPart c
      · exact Or.inr (.delete hc)
      · refine Or.inl ⟨_, c :: cs, rfl, hspace, fun d hd => ?_⟩
        obtain rfl : c = d := Option.some.inj hd
        exact hc
  · obtain ⟨before, rest, rfl, hwrite, hbefore | ⟨start, rfl⟩⟩ := exists_parted_of_writesAt hwrites
    · by_cases hlast : ∀ c ∈ before.getLast?, ¬Text.isIdentifierPart c
      · exact Or.inl ⟨before, rest, rfl, hlast, head?_of_isWriteBehind hwrite⟩
      · push Not at hlast
        obtain ⟨c, hc, hpart⟩ := hlast
        obtain rfl := eq_dollar_of_isBoundary (hbefore c hc) hpart
        obtain ⟨start, rfl⟩ := List.getLast?_eq_some_iff.1 hc
        have hline : start ++ ['$'] ++ name ++ rest = start ++ '$' :: name ++ rest := by simp
        exact Or.inr (hline ▸ .dollar hwrite)
    · exact Or.inr (.twice hwrite)

/-- A line that begins with a `delete` of the name, whatever goes on behind it, is noted. -/
theorem writesTo_delete (hne : name ≠ []) (rest : List Char) :
    writesTo ("delete ".toList ++ name ++ rest) name := by
  have hstarts : Text.startsWith ("delete ".toList ++ name) ("delete ".toList ++ name ++ rest) :=
    List.isPrefixOf_iff_prefix.2 (List.prefix_append _ rest)
  rw [writesTo, hstarts]
  simp [hne]

/-- A write behind a dollar sign is noted, if the name does not hold one. -/
theorem writesTo_dollar (hne : name ≠ []) (hdollar : '$' ∉ name) (before : List Char)
    (hwrite : IsWriteBehind rest) : writesTo (before ++ '$' :: name ++ rest) name := by
  have hline : before ++ '$' :: name ++ rest = before ++ ['$'] ++ name ++ rest := by simp
  have hat : writesAt name (before ++ ['$'] ++ name ++ rest) := by
    refine writesAt_of_apart hne (fun c hc => ?_) hwrite
    obtain rfl : '$' = c := by simpa using hc
    exact ⟨by decide, hdollar⟩
  rw [writesTo, hline, hat]
  simp [hne]

/-- So is a write behind the name twice, if a line begins so. -/
theorem writesTo_twice (hne : name ≠ []) (hwrite : IsWriteBehind rest) :
    writesTo (name ++ name ++ rest) name := by
  have hstart : ∀ c ∈ ([] : List Char).getLast?, isBoundary c ∧ c ∉ name := fun c hc =>
    absurd hc (by simp)
  have hsecond : writesAt name (name ++ rest) := writesAt_of_apart hne hstart hwrite
  have hat : writesAt name (name ++ name ++ rest) := by
    have hcut : Text.cut? name (name ++ name ++ rest) = some ([], name ++ rest) := by
      rw [List.append_assoc, Text.cut?_append_self]
    rw [writesAt, dif_neg hne]
    split
    · next hnone => exact absurd (hcut.symm.trans hnone) (by simp)
    · next start after hsome =>
      obtain ⟨-, rfl⟩ := Prod.mk.inj (Option.some.inj (hcut.symm.trans hsome))
      rw [hsecond, Bool.or_true]
  rw [writesTo, hat]
  simp [hne]

/-- **What is noted as a write to a name** holds the name as a whole identifier, or it is a write to a
longer name: one that is deleted, or one that ends in the name behind a dollar sign or behind the name
itself.  Each of the three is noted: whatever is deleted if it begins with the name, what follows a
dollar sign that the name does not hold, and the name twice at the start of a line. -/
theorem writesTo_exact (hname : Text.isIdentifier name) :
    (∀ line, writesTo line name → StandsWhole name line ∨ RunsOn name line) ∧
      (∀ rest, writesTo ("delete ".toList ++ name ++ rest) name) ∧
      (∀ before rest, '$' ∉ name → IsWriteBehind rest →
        writesTo (before ++ '$' :: name ++ rest) name) ∧
      ∀ rest, IsWriteBehind rest → writesTo (name ++ name ++ rest) name := by
  have hne := Text.ne_nil_of_isIdentifier hname
  exact ⟨fun line => standsWhole_or_runsOn, writesTo_delete hne,
    fun before rest hdollar => writesTo_dollar hne hdollar before,
    fun rest => writesTo_twice hne⟩

/-- A write to a name that is another one twice. -/
theorem writesTo_exact_feefee :
    Text.isIdentifier "fee".toList ∧ writesTo "feefee = fees;".toList "fee".toList ∧
      RunsOn "fee".toList "feefee = fees;".toList := by
  have hname : Text.isIdentifier "fee".toList := by decide
  have hwrite : IsWriteBehind " = fees;".toList := (isWrite_trimStart_iff _).1 (by decide)
  obtain ⟨hnoted, -, -, htwice⟩ := writesTo_exact hname
  have hwrites : writesTo "feefee = fees;".toList "fee".toList := htwice " = fees;".toList hwrite
  refine ⟨hname, hwrites, (hnoted _ hwrites).resolve_left fun hwhole => ?_⟩
  exact absurd (hwhole.mem_words hname) (by decide)

/-- **A line that deletes another variable is noted,** so not every line that is noted has the name as a
whole identifier. -/
theorem other_deleted :
    ¬∀ line name : List Char, Text.isIdentifier name → writesTo line name →
      StandsWhole name line := by
  intro hall
  have hname : Text.isIdentifier "owner".toList := by decide
  have hwhole := hall "delete owners;".toList "owner".toList hname (by decide +kernel)
  exact absurd (hwhole.mem_words hname) (by decide)

end Code

end ContractBlocks
