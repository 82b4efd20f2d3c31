/-
# Lines one after the other

A line feed cuts a text into two parts that are split into lines independently
(`Text.lines_append_newline`), so the lines of a text that has been put together from lines are found
again, apart from the carriage returns that a line feed takes with it
(`Text.lines_unlines_append`).
-/

import ContractBlocks.Text.Lines

namespace ContractBlocks
namespace Text

/-! ### A carriage return at the end -/

theorem dropReturn_append {a b : List Char} (hb : b ≠ []) :
    dropReturn (a ++ b) = a ++ dropReturn b := by
  have hlast : (a ++ b).getLast? = b.getLast? := by
    rw [List.getLast?_append, List.getLast?_eq_some_getLast hb, Option.some_or]
  simp only [dropReturn, hlast]
  split
  · exact List.dropLast_append_of_ne_nil hb
  · rfl

/-- A carriage return is blank, so to drop it changes nothing about being blank. -/
theorem isBlank_dropReturn (line : List Char) : isBlank (dropReturn line) = isBlank line := by
  unfold dropReturn
  split
  · rename_i h
    obtain ⟨start, rfl⟩ := List.getLast?_eq_some_iff.1 h
    rw [List.dropLast_concat, isBlank_append, show isBlank ['\r'] = true by decide, Bool.and_true]
  · rfl

theorem mem_of_mem_dropReturn {c : Char} {line : List Char} (h : c ∈ dropReturn line) :
    c ∈ line := by
  unfold dropReturn at h
  split at h
  · exact List.dropLast_subset line h
  · exact h

/-! ### Pieces and lines -/

/-- **A line feed cuts the pieces** into those before and those behind it. -/
theorem pieces_append_newline (a b : List Char) :
    pieces (a ++ '\n' :: b) = pieces a ++ pieces b := by
  induction a with
  | nil => simp [pieces]
  | cons c cs ih =>
    by_cases hc : c = '\n'
    · simp [pieces, hc, ih]
    · obtain ⟨p, ps, hp⟩ := List.exists_cons_of_ne_nil (pieces_ne_nil cs)
      simp [pieces, hc, ih, hp]

theorem newline_not_mem_of_mem_pieces {cs p : List Char} (h : p ∈ pieces cs) : '\n' ∉ p := by
  induction cs generalizing p with
  | nil => simp_all [pieces]
  | cons c cs ih =>
    by_cases hc : c = '\n'
    · simp only [pieces, hc, if_true, List.mem_cons] at h
      rcases h with rfl | h
      · exact List.not_mem_nil
      · exact ih h
    · obtain ⟨q, qs, hq⟩ := List.exists_cons_of_ne_nil (pieces_ne_nil cs)
      simp only [pieces, hc, if_false, hq, List.mem_cons] at h
      rcases h with rfl | h
      · intro hm
        rcases List.mem_cons.1 hm with hm | hm
        · exact hc hm.symm
        · exact ih (hq ▸ List.mem_cons_self) hm
      · exact ih (hq ▸ List.mem_cons_of_mem q h)

theorem pieces_of_newline_not_mem {cs : List Char} (h : '\n' ∉ cs) : pieces cs = [cs] := by
  induction cs with
  | nil => rfl
  | cons c cs ih =>
    have hc : c ≠ '\n' := fun hc => h (hc ▸ List.mem_cons_self)
    have hcs : '\n' ∉ cs := fun hm => h (List.mem_cons_of_mem c hm)
    simp [pieces, hc, ih hcs]

theorem closePieces_append (ps : List (List Char)) {qs : List (List Char)} (hq : qs ≠ []) :
    closePieces (ps ++ qs) = ps.map dropReturn ++ closePieces qs := by
  obtain ⟨q, qs, rfl⟩ := List.exists_cons_of_ne_nil hq
  induction ps with
  | nil => rfl
  | cons p ps ih =>
    cases ps with
    | nil => rfl
    | cons r rs =>
      simp only [List.cons_append, closePieces, List.map_cons] at ih ⊢
      rw [ih]

/-- **A line feed cuts the lines** into those that it ends and those behind it. -/
theorem lines_append_newline (a b : List Char) :
    lines (a ++ '\n' :: b) = (pieces a).map dropReturn ++ lines b := by
  rw [lines, pieces_append_newline, closePieces_append _ (pieces_ne_nil b), lines]

/-- A text that ends neither in a line feed nor in a carriage return has as many lines as pieces. -/
theorem lines_append_last {c : Char} (hn : c ≠ '\n') (hr : c ≠ '\r') (a : List Char) :
    lines (a ++ [c]) = (pieces (a ++ [c])).map dropReturn := by
  induction a with
  | nil => simp [lines, pieces, hn, closePieces, dropReturn, hr]
  | cons x xs ih =>
    by_cases hx : x = '\n'
    · have h := lines_append_newline [] (xs ++ [c])
      rw [List.nil_append, ← hx, ih] at h
      rw [List.cons_append, h]
      simp [pieces, hx]
    · obtain ⟨p, ps, hp⟩ := List.exists_cons_of_ne_nil (pieces_ne_nil (xs ++ [c]))
      have hxp : pieces (x :: xs ++ [c]) = (x :: p) :: ps := by simp [pieces, hx, hp]
      rw [lines, hp] at ih
      rw [lines, hxp]
      cases ps with
      | nil =>
        -- The last piece is not empty, so the character before it changes nothing about its end.
        have hne : p ≠ [] := by
          rintro rfl
          simp [closePieces] at ih
        have hdrop : dropReturn (x :: p) = x :: dropReturn p := dropReturn_append (a := [x]) hne
        have hp' : p = dropReturn p := by simpa [closePieces, hne] using ih
        rw [List.map_singleton, hdrop, ← hp']
        rfl
      | cons q qs =>
        simp only [closePieces, List.map_cons, List.cons.injEq, true_and] at ih ⊢
        exact ih

theorem exists_of_mem_closePieces {ps : List (List Char)} {l : List Char}
    (h : l ∈ closePieces ps) : ∃ p ∈ ps, l = p ∨ l = dropReturn p := by
  induction ps with
  | nil => cases h
  | cons p ps ih =>
    cases ps with
    | nil =>
      rw [closePieces] at h
      split at h
      · cases h
      · exact ⟨p, List.mem_cons_self, Or.inl (List.mem_singleton.1 h)⟩
    | cons q qs =>
      rcases List.mem_cons.1 h with rfl | h
      · exact ⟨p, List.mem_cons_self, Or.inr rfl⟩
      · obtain ⟨r, hr, hl⟩ := ih h
        exact ⟨r, List.mem_cons_of_mem p hr, hl⟩

/-- A text that is not empty has a line. -/
theorem lines_ne_nil {cs : List Char} (h : cs ≠ []) : lines cs ≠ [] := by
  obtain ⟨c, cs, rfl⟩ := List.exists_cons_of_ne_nil h
  obtain ⟨p, ps, hp⟩ := List.exists_cons_of_ne_nil (pieces_ne_nil cs)
  by_cases hc : c = '\n'
  · simp [lines, pieces, hc, hp, closePieces]
  · cases ps <;> simp [lines, pieces, hc, hp, closePieces]

/-- No line holds a line feed. -/
theorem newline_not_mem_of_mem_lines {cs l : List Char} (h : l ∈ lines cs) : '\n' ∉ l := by
  obtain ⟨p, hp, rfl | rfl⟩ := exists_of_mem_closePieces h
  · exact newline_not_mem_of_mem_pieces hp
  · exact fun hm => newline_not_mem_of_mem_pieces hp (mem_of_mem_dropReturn hm)

/-- **The lines of a text put together from lines** are those lines, without the carriage returns at
their ends, and then the lines of the rest. -/
theorem lines_unlines_append {ls : List (List Char)} (hls : ∀ l ∈ ls, '\n' ∉ l) (rest : List Char) :
    lines (unlines ls ++ rest) = ls.map dropReturn ++ lines rest := by
  induction ls with
  | nil => rfl
  | cons l ls ih =>
    have hl : '\n' ∉ l := hls l List.mem_cons_self
    have hrest : unlines (l :: ls) ++ rest = l ++ '\n' :: (unlines ls ++ rest) := by
      simp [unlines]
    rw [hrest, lines_append_newline, pieces_of_newline_not_mem hl,
      ih fun m hm => hls m (List.mem_cons_of_mem l hm)]
    rfl

end Text
end ContractBlocks
