/-
# Linearization

The ancestors of a contract in depth-first order: the parents in declaration order, each after its
own ancestors and each once. There is no such order if a contract comes up again on the way to
itself.
-/

import ContractBlocks.Inheritance.Graph

namespace ContractBlocks
namespace Project

/-- The registered contracts that are not on the path. -/
def offPath (p : Project) (path : List ContractId) : List ContractId :=
  p.ids.filter fun n => n ∉ path

theorem id_mem_of_contract? {p : Project} {id : ContractId} {c : Contract}
    (h : p.contract? id = some c) : id ∈ p.ids := by
  have hid : c.id = id := by simpa using List.find?_some h
  exact List.mem_map.2 ⟨c, List.mem_of_find?_eq_some h, hid⟩

theorem length_offPath_cons_lt (p : Project) {path : List ContractId} {n : ContractId}
    (hn : n ∈ p.ids) (hp : n ∉ path) :
    (p.offPath (n :: path)).length < (p.offPath path).length := by
  have heq : p.offPath (n :: path) = (p.offPath path).filter fun m => m ≠ n := by
    simp only [offPath, List.filter_filter, List.mem_cons, not_or]
    congr 1
    funext m
    simp
  have hsub : (p.offPath (n :: path)).Sublist (p.offPath path) := by
    rw [heq]
    exact List.filter_sublist
  refine Nat.lt_of_le_of_ne hsub.length_le fun h => ?_
  have he := hsub.eq_of_length h
  have hm : n ∈ p.offPath path := by simp [offPath, hn, hp]
  rw [← he] at hm
  simp [offPath] at hm

/-- Puts the contracts of the list behind those in order already, each after its ancestors, unless
one of them comes up again on its own path. -/
def orderAbove (p : Project) (path order : List ContractId) :
    List ContractId → Option (List ContractId)
  | [] => some order
  | r :: rs =>
    match _h : p.contract? r with
    | none => orderAbove p path order rs
    | some parent =>
      if _hr : r ∈ path then none
      else match orderAbove p (r :: path) order parent.parents with
        | none => none
        | some above => orderAbove p path (if r ∈ above then above else above ++ [r]) rs
termination_by rs => ((p.offPath path).length, rs.length)
decreasing_by
  · exact Prod.Lex.right _ (by simp)
  · exact Prod.Lex.left _ _ (length_offPath_cons_lt p (id_mem_of_contract? _h) _hr)
  · exact Prod.Lex.right _ (by simp)

/-- The ancestors of a registered contract, bases first, if there is no loop above it. -/
def linearize (p : Project) (id : ContractId) : Option (List ContractId) :=
  match p.contract? id with
  | none => none
  | some c => p.orderAbove [id] [] c.parents

end Project
end ContractBlocks
