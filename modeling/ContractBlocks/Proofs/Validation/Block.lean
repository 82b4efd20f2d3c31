/-
# When a block breaks no rule

Lists of named items, parameters among them, are checked item by item with the names before it.  If
the check of an item asks something of the item alone, and something of it and each name before it,
then no item breaks a rule exactly if all of them meet the first and any two of them, in order, the
second (`Validation.withEarlier_eq_nil_iff`).  For parameters that means: every type is there, a
name that is there is an identifier, and no two parameters share one
(`Validation.parameters_eq_nil_iff`).
-/

import Mathlib.Data.List.Basic
import ContractBlocks.Validation.Block

namespace ContractBlocks
namespace Validation

@[simp]
theorem when_eq_nil_iff {broken : Bool} {v : Violation} : when broken v = [] ↔ broken = false := by
  cases broken <;> simp [when]

/-- **No item breaks a rule** exactly if each is in order by itself and fits the names before it. -/
theorem withEarlier_eq_nil_iff {α : Type} {name : α → String}
    {check : List String → α → List Violation} {ok : α → Prop} {fits : String → α → Prop}
    (h : ∀ earlier x, check earlier x = [] ↔ ok x ∧ ∀ n ∈ earlier, fits n x)
    (earlier : List String) (xs : List α) :
    withEarlier name check earlier xs = [] ↔
      (∀ x ∈ xs, ok x ∧ ∀ n ∈ earlier, fits n x) ∧ xs.Pairwise fun x y => fits (name x) y := by
  induction xs generalizing earlier with
  | nil => simp [withEarlier]
  | cons x xs ih =>
    simp only [withEarlier, List.append_eq_nil_iff, h, ih, List.forall_mem_append,
      List.forall_mem_singleton, List.forall_mem_cons, List.pairwise_cons]
    constructor
    · rintro ⟨hx, hxs, hpairs⟩
      exact ⟨⟨hx, fun y hy => ⟨(hxs y hy).1, (hxs y hy).2.1⟩⟩, fun y hy => (hxs y hy).2.2, hpairs⟩
    · rintro ⟨⟨hx, hxs⟩, hfits, hpairs⟩
      exact ⟨hx, fun y hy => ⟨(hxs y hy).1, (hxs y hy).2, hfits y hy⟩, hpairs⟩

/-! ### Parameters -/

/-- The parameter has a type, and its name, if it has one, is an identifier. -/
def IsSound (p : Parameter) : Prop :=
  isBlankType p.dataType = false ∧ (p.name = "" ∨ isIdentifierName p.name)

theorem parameter_eq_nil_iff (id : BlockId) (earlier : List String) (p : Parameter) :
    parameter id earlier p = [] ↔ IsSound p ∧ ∀ n ∈ earlier, p.name = "" ∨ n ≠ p.name := by
  by_cases hp : p.name = ""
  · simp [parameter, IsSound, hp]
  · have hnew : (∀ n ∈ earlier, n ≠ p.name) ↔ p.name ∉ earlier :=
      ⟨fun h hm => h _ hm rfl, fun h n hn heq => h (heq ▸ hn)⟩
    simp only [parameter, IsSound, hp, false_or, hnew]
    simp [hp, and_assoc]

/-- **The parameters of a list break no rule** exactly if each has a type, and the names that are
there are identifiers and distinct. -/
theorem parameters_eq_nil_iff {id : BlockId} {ps : List Parameter} :
    parameters id ps = [] ↔
      (∀ p ∈ ps, IsSound p) ∧ ps.Pairwise fun p q => q.name = "" ∨ p.name ≠ q.name := by
  rw [parameters, withEarlier_eq_nil_iff (parameter_eq_nil_iff id)]
  simp

end Validation
end ContractBlocks
