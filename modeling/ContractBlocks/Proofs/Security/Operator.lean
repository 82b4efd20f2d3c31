/-
# Operators in a code line

The rules do not parse a line.  They look for an equals sign and at the characters on either side of
it, which tell an assignment, plain or compound, from a comparison and from an arrow
(`Code.isAssignment_iff`).  The sign of a shifting assignment, `<<=` or `>>=`, has the character of a
comparison before it, so a line may assign without the rules seeing it (`Code.Assigns`).
-/

import Mathlib.Data.List.Basic
import ContractBlocks.Security.CodeLine

namespace ContractBlocks
namespace Code

/-- The line holds an equals sign, with what is asked for before it, with which neither a comparison nor
an arrow goes on. -/
def HasEquals (ok : List Char → Prop) (line : List Char) : Prop :=
  ∃ before after, line = before ++ '=' :: after ∧ ok before ∧ ∀ c ∈ after.head?, c ∉ ['=', '>']

/-- The line assigns, by `=` or by a compound operator other than a shift: an equals sign in it is no
part of `==`, `!=`, `<=`, `>=` or `=>`. -/
def AssignsPlainly (line : List Char) : Prop :=
  HasEquals (fun before => ∀ c ∈ before.getLast?, c ∉ ['=', '!', '<', '>']) line

/-- The line assigns by `<<=` or by `>>=`. -/
def AssignsByShift (line : List Char) : Prop :=
  HasEquals (fun before => ['<', '<'] <:+ before ∨ ['>', '>'] <:+ before) line

/-- The line assigns. -/
def Assigns (line : List Char) : Prop := AssignsPlainly line ∨ AssignsByShift line

theorem comparesBehind_head? (text : List Char) :
    comparesBehind (text.head?.getD ' ') = false ↔ ∀ c ∈ text.head?, c ∉ ['=', '>'] := by
  cases text with
  | nil => simp [comparesBehind]
  | cons c cs => simp [comparesBehind]

theorem comparesBefore_eq_false_iff (c : Char) :
    comparesBefore c = false ↔ c ∉ ['=', '!', '<', '>'] := by
  simp [comparesBefore, and_assoc]

/-- The character before an equals sign is the one that stands before it in the line or, if it is the
first, the one before the line. -/
theorem assignsAfter_iff (c : Char) (line : List Char) :
    assignsAfter c line ↔
      HasEquals (fun before => before.getLast?.getD c ∉ ['=', '!', '<', '>']) line := by
  have hlast : ∀ (c d : Char) (before : List Char),
      (d :: before).getLast?.getD c ∉ ['=', '!', '<', '>'] ↔
        before.getLast?.getD d ∉ ['=', '!', '<', '>'] := fun c d before => by
    rw [List.getLast?_cons, Option.getD_some]
  induction line generalizing c with
  | nil => simp [assignsAfter, HasEquals]
  | cons d ds ih =>
    have hhere : (d == '=' && !comparesBefore c && !comparesBehind (ds.head?.getD ' ')) ↔
        d = '=' ∧ c ∉ ['=', '!', '<', '>'] ∧ ∀ e ∈ ds.head?, e ∉ ['=', '>'] := by
      rw [← comparesBehind_head?, ← comparesBefore_eq_false_iff]
      simp [and_assoc]
    rw [assignsAfter, Bool.or_eq_true]
    refine (or_congr hhere (ih d)).trans ?_
    constructor
    · rintro (⟨rfl, hc, hds⟩ | ⟨before, after, rfl, hbefore, hafter⟩)
      · exact ⟨[], ds, rfl, hc, hds⟩
      · exact ⟨d :: before, after, rfl, (hlast c d before).2 hbefore, hafter⟩
    · rintro ⟨before, after, hline, hbefore, hafter⟩
      cases before with
      | nil =>
        obtain ⟨rfl, rfl⟩ := List.cons.inj hline
        exact Or.inl ⟨rfl, hbefore, hafter⟩
      | cons e before =>
        obtain ⟨rfl, rfl⟩ := List.cons.inj hline
        exact Or.inr ⟨before, after, rfl, (hlast c d before).1 hbefore, hafter⟩

/-- **The rules see the assignments that are no shifts.** -/
theorem isAssignment_iff (line : List Char) : isAssignment line ↔ AssignsPlainly line := by
  rw [isAssignment, assignsAfter_iff, AssignsPlainly]
  refine exists_congr fun before => exists_congr fun after => and_congr_right fun _ =>
    and_congr_left fun _ => ?_
  show before.getLast?.getD ' ' ∉ ['=', '!', '<', '>'] ↔
    ∀ c ∈ before.getLast?, c ∉ ['=', '!', '<', '>']
  cases before.getLast? <;> simp

end Code
end ContractBlocks
