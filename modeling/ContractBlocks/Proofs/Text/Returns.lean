/-
# Line feeds and carriage returns

Without carriage returns the lines of a text are the pieces between its line feeds
(`Text.lines_eq_feedLines`).  A carriage return in front of each line feed goes with it, so the text has
the same lines as before (`Text.lines_withReturns`).
-/

import ContractBlocks.Proofs.Text.Search

namespace ContractBlocks
namespace Text

/-! ### Lines between line feeds -/

/-- The pieces of a text between its line feeds; an empty last piece does not count. -/
def feedLines (cs : List Char) : List (List Char) :=
  let pieces := cs.splitOn '\n'
  if pieces.getLast? = some [] then pieces.dropLast else pieces

theorem pieces_eq_splitOn (cs : List Char) : pieces cs = cs.splitOn '\n' := by
  induction cs with
  | nil => rfl
  | cons c cs ih =>
    rw [List.splitOn_eq_splitOnP] at ih ⊢
    rw [List.splitOnP_cons_eq_if_modifyHead, ← ih, pieces]
    by_cases hc : c = '\n'
    · simp [hc]
    · obtain ⟨p, ps, hp⟩ := List.exists_cons_of_ne_nil (pieces_ne_nil cs)
      simp [hc, hp]

theorem dropReturn_of_not_mem {l : List Char} (h : '\r' ∉ l) : dropReturn l = l := by
  rw [dropReturn, if_neg fun hl => h (List.mem_of_getLast? hl)]

theorem return_not_mem_of_mem_pieces {cs p : List Char} (h : '\r' ∉ cs) (hp : p ∈ pieces cs) :
    '\r' ∉ p := fun hr =>
  h <| (List.singleton_infix_iff _ _).1 <|
    (infix_pieces_iff (by decide) cs).1 ⟨p, hp, (List.singleton_infix_iff _ _).2 hr⟩

theorem closePieces_of_not_mem {ps : List (List Char)} (h : ∀ p ∈ ps, '\r' ∉ p) :
    closePieces ps = if ps.getLast? = some [] then ps.dropLast else ps := by
  induction ps with
  | nil => rfl
  | cons p ps ih =>
    cases ps with
    | nil => cases p <;> rfl
    | cons q qs =>
      rw [closePieces, ih fun r hr => h r (List.mem_cons_of_mem p hr),
        dropReturn_of_not_mem (h p List.mem_cons_self), List.getLast?_cons_cons,
        List.dropLast_cons_cons]
      split <;> rfl

/-- **The lines of a text without carriage returns.** -/
theorem lines_eq_feedLines {cs : List Char} (h : '\r' ∉ cs) : lines cs = feedLines cs := by
  rw [lines, closePieces_of_not_mem fun p => return_not_mem_of_mem_pieces h, pieces_eq_splitOn,
    feedLines]

theorem return_not_mem_of_mem_feedLines {cs l : List Char} (h : '\r' ∉ cs) (hl : l ∈ feedLines cs) :
    '\r' ∉ l := by
  rw [feedLines, ← pieces_eq_splitOn] at hl
  split at hl
  · exact return_not_mem_of_mem_pieces h (List.dropLast_subset _ hl)
  · exact return_not_mem_of_mem_pieces h hl

/-! ### A carriage return in front of each line feed -/

/-- The text with a carriage return in front of each line feed. -/
def withReturns (cs : List Char) : List Char :=
  cs.flatMap fun c => if c = '\n' then ['\r', '\n'] else [c]

-- The start `a` of a line is carried along until a line feed ends it.
theorem lines_append_withReturns {cs : List Char} (h : '\r' ∉ cs) {a : List Char} (hn : '\n' ∉ a)
    (hr : '\r' ∉ a) : lines (a ++ withReturns cs) = lines (a ++ cs) := by
  induction cs generalizing a with
  | nil => rfl
  | cons c cs ih =>
    obtain ⟨hc, hcs⟩ := not_or.1 (List.mem_cons.not.1 h)
    by_cases hfeed : c = '\n'
    · subst hfeed
      have hret : '\n' ∉ a ++ ['\r'] := by simp [hn]
      have hwith : a ++ withReturns ('\n' :: cs) = (a ++ ['\r']) ++ '\n' :: withReturns cs := by
        simp [withReturns]
      have hdrop : dropReturn (a ++ ['\r']) = dropReturn a := by
        rw [dropReturn_of_not_mem hr, dropReturn, if_pos List.getLast?_concat, List.dropLast_concat]
      have hrest := ih hcs List.not_mem_nil List.not_mem_nil
      rw [List.nil_append, List.nil_append] at hrest
      rw [hwith, lines_append_newline, lines_append_newline, pieces_of_newline_not_mem hret,
        pieces_of_newline_not_mem hn, List.map_singleton, List.map_singleton, hdrop, hrest]
    · have hwith : a ++ withReturns (c :: cs) = (a ++ [c]) ++ withReturns cs := by
        simp [withReturns, hfeed]
      rw [hwith, ih hcs (by simp [hn, Ne.symm hfeed]) (by simp [hr, hc]), List.append_assoc]
      rfl

/-- **A carriage return in front of each line feed** changes nothing about the lines. -/
theorem lines_withReturns {cs : List Char} (h : '\r' ∉ cs) : lines (withReturns cs) = lines cs :=
  lines_append_withReturns h List.not_mem_nil List.not_mem_nil

/-- It changes nothing about being blank, either. -/
theorem isBlank_withReturns (cs : List Char) : isBlank (withReturns cs) = isBlank cs := by
  unfold withReturns
  induction cs with
  | nil => rfl
  | cons c cs ih =>
    rw [List.flatMap_cons, isBlank_append, ih]
    by_cases hfeed : c = '\n'
    · rw [if_pos hfeed, hfeed]
      rfl
    · rw [if_neg hfeed]
      simp [isBlank]

end Text
end ContractBlocks
