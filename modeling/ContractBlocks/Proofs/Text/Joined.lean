/-
# One text behind another

A text put behind another goes on with the last line of that one: its own first line is joined to
it, and its other lines follow (`Text.lines_concat_append`).  So a blank text behind a line need not
be gone.  It is if it is empty or no more than the end of that line, where a carriage return in
front of it may be dropped as well, and `Text.leavesNothing_iff` says that nothing else is.
-/

import ContractBlocks.Proofs.Text.Returns

namespace ContractBlocks
namespace Text

/-! ### Joining -/

/-- The last piece of a text and the first piece of the text behind it are one piece. -/
theorem pieces_append {a b d p : List Char} {ds ps : List (List Char)} (ha : pieces a = ds ++ [d])
    (hb : pieces b = p :: ps) : pieces (a ++ b) = ds ++ (d ++ p) :: ps := by
  induction a generalizing ds d with
  | nil =>
    obtain ⟨rfl, rfl⟩ : ds = [] ∧ d = [] := by
      cases ds <;> simp_all [pieces]
    exact hb
  | cons c cs ih =>
    obtain ⟨q, qs, hq⟩ := List.exists_cons_of_ne_nil (pieces_ne_nil cs)
    by_cases hc : c = '\n'
    · rw [pieces, if_pos hc, hq] at ha
      cases ds with
      | nil => cases ha
      | cons e ds =>
        obtain ⟨rfl, hds⟩ := List.cons.inj ha
        rw [List.cons_append, pieces, if_pos hc, ih (hq.trans hds), List.cons_append]
    · have hrest : pieces (c :: (cs ++ b)) = (pieces (cs ++ b)).modifyHead (c :: ·) := by
        rw [pieces, if_neg hc]
        cases hcs : pieces (cs ++ b) with
        | nil => exact absurd hcs (pieces_ne_nil _)
        | cons r rs => rfl
      simp only [pieces, if_neg hc, hq] at ha
      cases ds with
      | nil =>
        obtain ⟨rfl, rfl⟩ := List.cons.inj ha
        have hlast : pieces cs = [] ++ [q] := hq
        rw [List.cons_append, hrest, ih hlast]
        rfl
      | cons e ds =>
        obtain ⟨rfl, rfl⟩ := List.cons.inj ha
        have hlast : pieces cs = (q :: ds) ++ [d] := hq
        rw [List.cons_append, hrest, ih hlast]
        rfl

theorem dropReturn_concat {c : Char} (h : c ≠ '\r') (a : List Char) :
    dropReturn (a ++ [c]) = a ++ [c] := by
  simp [dropReturn, h]

theorem dropReturn_concat_append {c : Char} (h : c ≠ '\r') (a b : List Char) :
    dropReturn (a ++ [c] ++ b) = a ++ [c] ++ dropReturn b := by
  by_cases hb : b = []
  · subst hb
    rw [List.append_nil, dropReturn_concat h]
    exact (List.append_nil _).symm
  · exact dropReturn_append hb

/-- **A text behind a line** goes on with that line, which must not end in a carriage return: its
first line is joined to it, and its other lines follow. -/
theorem lines_concat_append {c : Char} (hn : c ≠ '\n') (hr : c ≠ '\r') (a : List Char) :
    ∃ front l, ∀ b, lines (a ++ [c] ++ b) =
      front ++ (l ++ [c] ++ (lines b).headD []) :: (lines b).tail := by
  obtain ⟨ds, d, hd⟩ := (pieces a).eq_nil_or_concat'.resolve_left (pieces_ne_nil a)
  refine ⟨ds.map dropReturn, d, fun b => ?_⟩
  have hc : pieces (a ++ [c]) = ds ++ [d ++ [c]] :=
    pieces_append hd (pieces_of_newline_not_mem (by simpa using hn.symm))
  obtain ⟨p, ps, hp⟩ := List.exists_cons_of_ne_nil (pieces_ne_nil b)
  rw [lines, lines, pieces_append hc hp, hp, closePieces_append _ (List.cons_ne_nil _ _)]
  congr 1
  cases ps with
  | nil => cases p <;> simp [closePieces]
  | cons q qs =>
    simp only [closePieces, dropReturn_concat_append hr, List.headD_cons, List.tail_cons]

/-! ### Blank texts -/

/-- The lines of a blank text are blank. -/
theorem isBlank_of_mem_lines {cs l : List Char} (h : isBlank cs) (hl : l ∈ lines cs) :
    isBlank l := by
  refine List.all_eq_true.2 fun x hx => ?_
  by_cases hn : x = '\n'
  · subst hn
    decide
  by_cases hr : x = '\r'
  · subst hr
    decide
  have hin : [x] <:+: cs :=
    (infix_lines_iff (by simp) (by simpa using Ne.symm hn) (by simpa using Ne.symm hr) cs).1
      ⟨l, hl, (List.singleton_infix_iff _ _).2 hx⟩
  exact List.all_eq_true.1 h x ((List.singleton_infix_iff _ _).1 hin)

/-- A line with a carriage return at its end has lost that one, and any other line nothing. -/
theorem eq_or_eq_concat_dropReturn (l : List Char) :
    l = dropReturn l ∨ l = dropReturn l ++ ['\r'] := by
  unfold dropReturn
  split
  · rename_i hlast
    obtain ⟨start, rfl⟩ := List.getLast?_eq_some_iff.1 hlast
    exact .inr (by rw [List.dropLast_concat])
  · exact .inl rfl

theorem dropReturn_eq_nil_iff {l : List Char} : dropReturn l = [] ↔ l = [] ∨ l = ['\r'] := by
  constructor
  · intro h
    have hl := eq_or_eq_concat_dropReturn l
    rwa [h] at hl
  · rintro (rfl | rfl) <;> rfl

/-- A text that adds no line and nothing to a line but a carriage return at its end, which the line
loses when its text is split into lines once more. -/
def LeavesNothing (cs : List Char) : Prop :=
  cs ∈ ["", "\n", "\r\n", "\r", "\r\r\n"].map String.toList

instance (cs : List Char) : Decidable (LeavesNothing cs) := inferInstanceAs (Decidable (_ ∈ _))

/-- **Which texts leave nothing** behind the line that they are put behind. -/
theorem leavesNothing_iff {cs : List Char} :
    LeavesNothing cs ↔ dropReturn ((lines cs).headD []) = [] ∧ (lines cs).tail = [] := by
  constructor
  · have hall : ∀ b ∈ ["", "\n", "\r\n", "\r", "\r\r\n"].map String.toList,
        dropReturn ((lines b).headD []) = [] ∧ (lines b).tail = [] := by decide
    exact hall cs
  rintro ⟨hhead, htail⟩
  obtain ⟨p, ps, hp⟩ := List.exists_cons_of_ne_nil (pieces_ne_nil cs)
  have hcs : ['\n'].intercalate (p :: ps) = cs := by
    rw [← hp, pieces_eq_splitOn, List.intercalate_splitOn]
  rw [lines, hp] at hhead htail
  cases ps with
  | nil =>
    obtain rfl : p = cs := by simpa using hcs
    have hdrop : dropReturn p = [] := by
      cases p with
      | nil => rfl
      | cons x xs => simpa [closePieces] using hhead
    rcases dropReturn_eq_nil_iff.1 hdrop with rfl | rfl <;> decide
  | cons q qs =>
    -- the second piece is the last one, and it is empty
    obtain ⟨rfl, rfl⟩ : q = [] ∧ qs = [] := by
      cases qs with
      | nil => cases q <;> simp_all [closePieces]
      | cons r rs => simp [closePieces] at htail
    subst hcs
    rcases dropReturn_eq_nil_iff.1 (show dropReturn (dropReturn p) = [] from hhead) with hp | hp
    · rcases dropReturn_eq_nil_iff.1 hp with rfl | rfl <;> decide
    · have hreturns := eq_or_eq_concat_dropReturn p
      rw [hp] at hreturns
      rcases hreturns with rfl | rfl
      · cases hp
      · decide

end Text
end ContractBlocks
