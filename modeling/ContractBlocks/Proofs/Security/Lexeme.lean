/-
# Operators by longest match

The operators of a line are taken by longest match: from its start on, what comes next is the longest
operator that stands there, and a single character where none does (`Code.lexemes`).  Nothing is lost,
and no operator at a place is longer than the lexeme there (`Code.lexeme_spec`).  The line has an
assignment if one of its lexemes is an assignment operator (`Code.HasAssignment`).

The rules look at the characters on either side of each equals sign instead.  What they take for an
assignment is one, but an assignment operator goes unseen if it is a shift, or if it is written next to
another operator that lends it the character of a comparison (`Code.Unseen`).  Nothing else does
(`Code.isAssignment_exact`); `Code.shift_unseen` is a shift that goes unseen.
-/

import ContractBlocks.Proofs.Security.Operator
import Mathlib.Data.List.Infix

namespace ContractBlocks
namespace Code

/-! ### Lexemes -/

/-- The operators of expressions and the arrow of mapping types, the longer ones first. -/
def operators : List (List Char) :=
  ["<<=", ">>=", "=>", "==", "!=", "<=", ">=", "|=", "^=", "&=", "+=", "-=", "*=", "/=", "%=", "||",
    "&&", "<<", ">>", "**", "++", "--", "=", "|", "^", "&", "+", "-", "*", "/", "%", "<", ">", "!", "~",
    "?", ":", ",", "."].map String.toList

/-- What a text begins with: the longest operator there, or else its first character. -/
def lexeme (text : List Char) : List Char :=
  (operators.find? fun op => Text.startsWith op text).getD (text.take 1)

theorem startsWith_lexeme (text : List Char) : lexeme text <+: text := by
  unfold lexeme
  cases hfind : operators.find? fun op => Text.startsWith op text with
  | none => exact List.take_prefix 1 text
  | some op =>
    exact List.isPrefixOf_iff_prefix.1 (List.find?_eq_some_iff_append.1 hfind).1

/-- A lexeme is an operator or a single character. -/
theorem lexeme_mem_or_singleton {text : List Char} (h : text ≠ []) :
    lexeme text ∈ operators ∨ ∃ c, lexeme text = [c] := by
  unfold lexeme
  cases hfind : operators.find? fun op => Text.startsWith op text with
  | none =>
    obtain ⟨c, cs, rfl⟩ := List.exists_cons_of_ne_nil h
    exact Or.inr ⟨c, rfl⟩
  | some op => exact Or.inl (List.mem_of_find?_eq_some hfind)

theorem lexeme_ne_nil {text : List Char} (h : text ≠ []) : lexeme text ≠ [] := by
  have hall : ∀ op ∈ operators, op ≠ [] := by decide
  rcases lexeme_mem_or_singleton h with hop | ⟨c, hc⟩
  · exact hall _ hop
  · rw [hc]
    exact List.cons_ne_nil c []

/-- **Longest match:** no operator that the text begins with is longer. -/
theorem length_le_lexeme {op text : List Char} (hop : op ∈ operators) (h : op <+: text) :
    op.length ≤ (lexeme text).length := by
  have hstarts : Text.startsWith op text := List.isPrefixOf_iff_prefix.2 h
  have hsorted : operators.Pairwise fun a b => b.length ≤ a.length := by decide
  unfold lexeme
  cases hfind : operators.find? fun op => Text.startsWith op text with
  | none => exact absurd hstarts (List.find?_eq_none.1 hfind op hop)
  | some first =>
    -- the operators before the one that is found do not stand there, and those behind it are no longer
    obtain ⟨-, before, behind, hsplit, hnone⟩ := List.find?_eq_some_iff_append.1 hfind
    rw [hsplit, List.pairwise_append, List.pairwise_cons] at hsorted
    rw [hsplit] at hop
    rcases List.mem_append.1 hop with hop | hop
    · exact absurd hstarts (by simpa using hnone op hop)
    · rcases List.mem_cons.1 hop with rfl | hop
      · exact le_rfl
      · exact hsorted.2.1.1 op hop

/-- The lexemes of a text, one behind the other. -/
def lexemes : List Char → List (List Char)
  | [] => []
  | c :: cs => lexeme (c :: cs) :: lexemes ((c :: cs).drop (lexeme (c :: cs)).length)
termination_by text => text.length
decreasing_by
  have := List.length_pos_iff.2 (lexeme_ne_nil (List.cons_ne_nil c cs))
  rw [List.length_drop, List.length_cons]
  omega

/-- **No character is lost.** -/
theorem flatten_lexemes (text : List Char) : (lexemes text).flatten = text := by
  fun_induction lexemes text with
  | case1 => rfl
  | case2 c cs ih =>
    rw [List.flatten_cons, ih]
    exact (List.prefix_append_drop (startsWith_lexeme _)).symm

example : lexemes "x>>=y==-1".toList = ["x", ">>=", "y", "==", "-", "1"].map String.toList := by cbv

section Place

variable {text t : List Char} {before after : List (List Char)}

/-- From each place between two lexemes on, the lexemes are those of the rest of the text. -/
theorem lexemes_flatten (h : lexemes text = before ++ after) : lexemes after.flatten = after := by
  induction before generalizing text with
  | nil => rw [← List.nil_append after, ← h, flatten_lexemes]
  | cons t before ih =>
    cases text with
    | nil => simp [lexemes] at h
    | cons c cs =>
      rw [lexemes, List.cons_append] at h
      exact ih (List.cons.inj h).2

/-- **What is known of each lexeme:** it is an operator or a single character, and no operator that
stands at its place is longer. -/
theorem lexeme_spec (h : lexemes text = before ++ t :: after) :
    t ≠ [] ∧ (t ∈ operators ∨ ∃ c, t = [c]) ∧
      ∀ op ∈ operators, op <+: t ++ after.flatten → op.length ≤ t.length := by
  have hrest := lexemes_flatten h
  have hne : (t :: after).flatten ≠ [] := fun hnil => by simp [hnil, lexemes] at hrest
  have ht : t = lexeme (t :: after).flatten := by
    obtain ⟨c, cs, hcs⟩ := List.exists_cons_of_ne_nil hne
    rw [hcs, lexemes] at hrest
    rw [hcs]
    exact (List.cons.inj hrest).1.symm
  have hlongest : ∀ op ∈ operators, op <+: t ++ after.flatten → op.length ≤ t.length := by
    intro op hop hstands
    rw [ht]
    exact length_le_lexeme hop hstands
  refine ⟨?_, ?_, hlongest⟩ <;> rw [ht]
  · exact lexeme_ne_nil hne
  · exact lexeme_mem_or_singleton hne

/-- Each character of a text stands in a lexeme. -/
theorem exists_lexeme {a b : List Char} {c : Char} (h : text = a ++ c :: b) :
    ∃ before x y after, lexemes text = before ++ (x ++ c :: y) :: after ∧
      a = before.flatten ++ x ∧ b = y ++ after.flatten := by
  have hflat : (lexemes text).flatten = a ++ c :: b := (flatten_lexemes text).trans h
  rcases List.flatten_eq_append_iff.1 hflat with
    ⟨before, rest, hsplit, rfl, hb⟩ | ⟨before, x, d, y, after, hsplit, rfl, hb⟩
  · -- the character is the first one behind some lexemes
    obtain ⟨empty, y, after, rfl, hempty, rfl⟩ := List.flatten_eq_cons_iff.1 hb.symm
    refine ⟨before ++ empty, [], y, after, by rw [hsplit]; simp, ?_, rfl⟩
    rw [List.flatten_append, List.flatten_eq_nil_iff.2 hempty, List.append_nil, List.append_nil]
  · obtain ⟨rfl, rfl⟩ := List.cons.inj hb
    exact ⟨before, x, y, after, hsplit, rfl, rfl⟩

theorem ne_nil_of_mem_lexemes (h : t ∈ lexemes text) : t ≠ [] := by
  obtain ⟨before, after, hsplit⟩ := List.append_of_mem h
  exact (lexeme_spec hsplit).1

/-- The last character before a lexeme is that of the lexeme before it. -/
theorem getLast?_flatten_before (h : lexemes text = before ++ after) :
    before.flatten.getLast? = before.getLast?.bind List.getLast? := by
  cases before using List.reverseRecOn with
  | nil => rfl
  | append_singleton before t _ =>
    have hmem : t ∈ lexemes text := by simp [h]
    have ht : t ≠ [] := ne_nil_of_mem_lexemes hmem
    rw [List.flatten_concat, List.getLast?_append_of_ne_nil _ ht, List.getLast?_concat,
      Option.bind_some]

/-- The first character behind a lexeme is that of the lexeme behind it. -/
theorem head?_flatten_after (h : lexemes text = before ++ after) :
    after.flatten.head? = after.head?.bind List.head? := by
  cases after with
  | nil => rfl
  | cons t after =>
    have hmem : t ∈ lexemes text := by simp [h]
    have ht : t ≠ [] := ne_nil_of_mem_lexemes hmem
    rw [List.flatten_cons, List.head?_append_of_ne_nil _ ht, List.head?_cons, Option.bind_some]

end Place

/-! ### Assignment operators -/

/-- The operators that assign. -/
def assignmentOperators : List (List Char) :=
  ["=", "+=", "-=", "*=", "/=", "%=", "|=", "&=", "^=", "<<=", ">>="].map String.toList

/-- The assignment operators that shift. -/
def shiftOperators : List (List Char) := ["<<=", ">>="].map String.toList

/-- One of the lexemes of the line is an assignment operator. -/
def HasAssignment (line : List Char) : Prop := ∃ op ∈ lexemes line, op ∈ assignmentOperators

/-- An assignment operator between the lexemes before it and those behind it is not seen by the rules:
it is a shift, a plain sign right behind an operator that ends in one or an arrow, or a compound operator
right in front of an operator that begins with a sign or with the head of an arrow. -/
def Unseen (before : List (List Char)) (op : List Char) (after : List (List Char)) : Prop :=
  op ∈ shiftOperators ∨
    (op = ['='] ∧ ∃ last ∈ before.getLast?, last.getLast? = some '=' ∨ last = ['=', '>']) ∨
    (op ≠ ['='] ∧ ∃ next ∈ after.head?, next.head? = some '=' ∨ next.head? = some '>')

/-- One of the assignment operators of the line is seen. -/
def ShowsAssignment (line : List Char) : Prop :=
  ∃ before op after, lexemes line = before ++ op :: after ∧ op ∈ assignmentOperators ∧
    ¬Unseen before op after

theorem ShowsAssignment.hasAssignment {line : List Char} (h : ShowsAssignment line) :
    HasAssignment line := by
  obtain ⟨before, op, after, hsplit, hop, -⟩ := h
  exact ⟨op, by simp [hsplit], hop⟩

section Line

variable {line op : List Char} {before after : List (List Char)}

/-- The equals sign that the rules see ends an assignment operator. -/
theorem showsAssignment_of_isAssignment (h : isAssignment line) : ShowsAssignment line := by
  obtain ⟨a, b, hline, ha, hb⟩ := (isAssignment_iff line).1 h
  obtain ⟨before, x, y, after, hsplit, rfl, rfl⟩ := exists_lexeme hline
  have hmem : x ++ '=' :: y ∈ operators := by
    refine (lexeme_spec hsplit).2.1.elim id fun ⟨c, hc⟩ => ?_
    have hsign : '=' ∈ [c] := hc ▸ by simp
    rw [hc, ← List.mem_singleton.1 hsign]
    decide
  -- what is beside the sign in the line is beside it in the lexeme, so the lexeme assigns by itself
  have hself : isAssignment (x ++ '=' :: y) := (isAssignment_iff _).2
    ⟨x, y, rfl, fun c hc => ha c (List.mem_getLast?_append_of_mem_getLast? hc),
      fun c hc => hb c (List.mem_head?_append_of_mem_head? hc)⟩
  have htable : ∀ op ∈ operators, isAssignment op →
      op ∈ assignmentOperators ∧ op ∉ shiftOperators ∧ '=' ∉ op.dropLast := by decide
  obtain ⟨hassigns, hshift, hsign⟩ := htable _ hmem hself
  obtain rfl : y = [] := by
    by_contra hy
    rw [List.dropLast_append_of_ne_nil (List.cons_ne_nil _ _), List.dropLast_cons_of_ne_nil hy]
      at hsign
    exact hsign (by simp)
  refine ⟨before, x ++ ['='], after, hsplit, hassigns, ?_⟩
  rintro (hin | ⟨hplain, last, hlast, hends⟩ | ⟨-, next, hnext, hbegins⟩)
  · exact hshift hin
  · obtain rfl : x = [] := by simpa using hplain
    rw [List.append_nil, getLast?_flatten_before hsplit, Option.mem_def.1 hlast] at ha
    rcases hends with hends | rfl
    · exact ha '=' hends (by decide)
    · exact ha '>' rfl (by decide)
  · have hafter : lexemes line = (before ++ [x ++ ['=']]) ++ after := by simp [hsplit]
    rw [List.nil_append, head?_flatten_after hafter, Option.mem_def.1 hnext] at hb
    rcases hbegins with hbegins | hbegins
    · exact hb '=' hbegins (by decide)
    · exact hb '>' hbegins (by decide)

/-- Before an assignment operator that is seen, no character of a comparison stands beside the sign. -/
theorem not_compares_before (hsplit : lexemes line = before ++ op :: after)
    (hop : op ∈ assignmentOperators) (hseen : ¬Unseen before op after) :
    ∀ c ∈ (before.flatten ++ op.dropLast).getLast?, c ∉ ['=', '!', '<', '>'] := by
  intro c hc hcompares
  by_cases hplain : op = ['=']
  · subst hplain
    rw [List.dropLast_singleton, List.append_nil, getLast?_flatten_before hsplit, Option.mem_def,
      Option.bind_eq_some_iff] at hc
    obtain ⟨last, hlast, hc⟩ := hc
    obtain ⟨start, rfl⟩ := List.getLast?_eq_some_iff.1 hlast
    have hplace : lexemes line = start ++ last :: (['='] :: after) := by simp [hsplit]
    obtain ⟨-, hkind, hlongest⟩ := lexeme_spec hplace
    have hmem : last ∈ operators := by
      refine hkind.elim id fun ⟨d, hd⟩ => ?_
      have hsingle : (['=', '!', '<', '>'].map fun d => [d]) ⊆ operators := by decide
      subst hd
      obtain rfl : d = c := Option.some.inj hc
      exact hsingle (List.mem_map_of_mem hcompares)
    have htable : ∀ op ∈ operators, op.getLast? ∈ ['=', '!', '<', '>'].map some →
        op ++ ['='] ∈ operators ∨ op.getLast? = some '=' ∨ op = ['=', '>'] := by decide
    rcases htable last hmem (hc ▸ List.mem_map_of_mem hcompares) with hlonger | hends
    · -- the sign would belong to the lexeme before it
      have hlength := hlongest _ hlonger (by simp)
      rw [List.length_append, List.length_singleton] at hlength
      omega
    · exact hseen (Or.inr (Or.inl ⟨rfl, last, hlast, hends⟩))
  · have hshift : op ∉ shiftOperators := fun hin => hseen (Or.inl hin)
    have htable : ∀ op ∈ assignmentOperators, op ≠ ['='] → op ∉ shiftOperators →
        op.dropLast ≠ [] ∧ op.dropLast.getLast? ∉ ['=', '!', '<', '>'].map some := by decide
    obtain ⟨hne, hlast⟩ := htable op hop hplain hshift
    rw [List.getLast?_append_of_ne_nil _ hne] at hc
    exact hlast (hc ▸ List.mem_map_of_mem hcompares)

/-- Behind it stands none either. -/
theorem not_compares_behind (hsplit : lexemes line = before ++ op :: after)
    (hseen : ¬Unseen before op after) : ∀ c ∈ after.flatten.head?, c ∉ ['=', '>'] := by
  intro c hc hcompares
  have hafter : lexemes line = (before ++ [op]) ++ after := by simp [hsplit]
  by_cases hplain : op = ['=']
  · -- the sign and the character would be one lexeme
    have hpairs : (['=', '>'].map fun c => ['=', c]) ⊆ operators := by decide
    obtain ⟨rest, hrest⟩ := List.head?_eq_some_iff.1 hc
    have hlength := (lexeme_spec hsplit).2.2 _ (hpairs (List.mem_map_of_mem hcompares))
      (by simp [hplain, hrest])
    simp [hplain] at hlength
  · rw [head?_flatten_after hafter, Option.mem_def, Option.bind_eq_some_iff] at hc
    obtain ⟨next, hnext, hc⟩ := hc
    refine hseen (Or.inr (Or.inr ⟨hplain, next, hnext, ?_⟩))
    simpa [hc] using hcompares

/-- **The rules see the assignment operators that are not unseen,** and nothing else. -/
theorem isAssignment_iff_showsAssignment (line : List Char) :
    isAssignment line ↔ ShowsAssignment line := by
  refine ⟨showsAssignment_of_isAssignment, ?_⟩
  rintro ⟨before, op, after, hsplit, hop, hseen⟩
  have htable : ∀ op ∈ assignmentOperators, op.dropLast ++ ['='] = op := by decide
  refine (isAssignment_iff line).2 ⟨before.flatten ++ op.dropLast, after.flatten, ?_,
    not_compares_before hsplit hop hseen, not_compares_behind hsplit hseen⟩
  calc line = (lexemes line).flatten := (flatten_lexemes line).symm
    _ = before.flatten ++ (op ++ after.flatten) := by rw [hsplit, List.flatten_append, List.flatten_cons]
    _ = before.flatten ++ (op.dropLast ++ ['='] ++ after.flatten) := by rw [htable op hop]
    _ = before.flatten ++ op.dropLast ++ '=' :: after.flatten := by simp

/-- **What is taken for an assignment:** a line one of whose lexemes is an assignment operator that is
seen.  So the rules agree with the lexemes unless all assignment operators of the line are unseen. -/
theorem isAssignment_exact (line : List Char) :
    (isAssignment line ↔ ShowsAssignment line) ∧
      ((isAssignment line ↔ HasAssignment line) ↔ (HasAssignment line → ShowsAssignment line)) := by
  have hiff := isAssignment_iff_showsAssignment line
  refine ⟨hiff, ?_⟩
  rw [hiff]
  exact ⟨Iff.mpr, fun h => ⟨ShowsAssignment.hasAssignment, h⟩⟩

/-- **An assignment by a shift is not seen,** so not every line with an assignment operator, be it
without string literals and comments, is taken for an assignment. -/
theorem shift_unseen :
    ¬∀ line : List Char, '"' ∉ line → '\'' ∉ line → ¬['/', '/'] <:+: line → ¬['/', '*'] <:+: line →
      (isAssignment line ↔ HasAssignment line) := by
  intro hall
  have hlexemes : lexemes "flags <<= 1;".toList =
      ["f", "l", "a", "g", "s", " ", "<<=", " ", "1", ";"].map String.toList := by cbv
  have hassigns : HasAssignment "flags <<= 1;".toList :=
    ⟨"<<=".toList, by rw [hlexemes]; decide, by decide⟩
  have hseen := (hall "flags <<= 1;".toList (by decide) (by decide) (by decide) (by decide)).2 hassigns
  exact absurd hseen (by decide)

end Line

end Code
end ContractBlocks
