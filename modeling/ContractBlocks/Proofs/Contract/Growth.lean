/-
# Registering one more contract

A contract may name contracts that are not registered.  When one of them is, the references to it
are resolved, wherever in the project they stand: what had been found by then is found as before, and
perhaps more is (`Registry.Le`, `Project.inherits_of_concat`).  What is told of the other contracts
follows in one direction or the other.  What may be overridden and what is above a contract grow;
the overrides in conflict become fewer, and so do the missing parents; and a loop that is there stays
(`Standing.Grows`).

`Project.add_remove_standing` says this for any contract that is registered and then removed again,
which puts everything back.
-/

import ContractBlocks.Override.Basic
import ContractBlocks.Proofs.Contract.Registry
import ContractBlocks.Proofs.Inheritance.Detectors
import Mathlib.Data.List.Flatten

namespace ContractBlocks

/-- Where more elements give something, and each the same as before, more is collected. -/
theorem filterMap_sublist_of_le {α β : Type} {f g : α → Option β}
    (h : ∀ a b, f a = some b → g a = some b) (xs : List α) :
    (xs.filterMap f).Sublist (xs.filterMap g) := by
  induction xs with
  | nil => exact .slnil
  | cons x xs ih =>
    cases hf : f x with
    | some b =>
      rw [List.filterMap_cons_some hf, List.filterMap_cons_some (h x b hf)]
      exact ih.cons_cons b
    | none =>
      rw [List.filterMap_cons_none hf]
      cases hg : g x with
      | none => rwa [List.filterMap_cons_none hg]
      | some b =>
        rw [List.filterMap_cons_some hg]
        exact ih.cons b

/-! ### A registry that knows more -/

/-- All that is found in the first registry is found in the second. -/
def Registry.Le (r r' : Registry) : Prop := ∀ id c, r id = some c → r' id = some c

variable {r r' : Registry}

theorem Contract.overridable_sublist (h : r.Le r') (c : Contract) :
    (c.overridable r).Sublist (c.overridable r') :=
  (filterMap_sublist_of_le h c.parents).flatMap _

/-- An override that is in conflict where more may be overridden is so where less may be. -/
theorem StoredOverride.conflict?_of_sublist {o : StoredOverride}
    {before after : List OverridableFunction} (h : before.Sublist after) {x : OverrideConflict}
    (hx : o.conflict? after = some x) : o.conflict? before = some x := by
  have hnone : o.target? after = none := by
    by_contra hsome
    obtain ⟨f, hf⟩ := Option.ne_none_iff_exists'.1 hsome
    rw [conflict?, hf] at hx
    cases hx
  have hbefore : o.target? before = none :=
    List.find?_eq_none.2 fun f hf => List.find?_eq_none.1 hnone f (h.subset hf)
  rw [← hx, conflict?, conflict?, hnone, hbefore]

theorem Block.conflicts_sublist (h : r.Le r') (b : Block) (c : Contract) :
    (b.conflicts c r').Sublist (b.conflicts c r) := by
  unfold conflicts
  split
  · exact List.Sublist.refl []
  · exact filterMap_sublist_of_le
      (fun o x hx => o.conflict?_of_sublist (c.overridable_sublist h) hx) b.overrides

/-! ### Where a contract stands -/

/-- The parent in a report that a parent of the contract is missing. -/
def InheritanceIssue.missing? (contract : ContractId) : InheritanceIssue → Option ContractId
  | .missingParent c parent => if c = contract then some parent else none
  | _ => none

/-- What is told of a contract in a project. -/
structure Standing where
  /-- The functions that it may override. -/
  overridable : List OverridableFunction
  /-- The overrides in conflict, for each of its blocks. -/
  conflicts : List (List OverrideConflict)
  ancestors : List ContractId
  /-- The ancestors in order, if there is no loop above it. -/
  order : Option (List ContractId)
  /-- The parents that are reported as missing. -/
  missing : List ContractId
deriving DecidableEq, Repr

/-- Where a contract stands after one more contract has been registered. -/
structure Standing.Grows (id : ContractId) (before after : Standing) : Prop where
  overridable : before.overridable.Sublist after.overridable
  conflicts : List.Forall₂ List.Sublist after.conflicts before.conflicts
  ancestors : before.ancestors ⊆ after.ancestors
  order : before.order = none → after.order = none
  missing : after.missing = before.missing.filter fun parent => parent ≠ id

namespace Project

/-- Where a contract stands in the project. -/
def standing (p : Project) (c : Contract) : Standing where
  overridable := c.overridable p.contract?
  conflicts := c.blocks.map fun b => b.conflicts c p.contract?
  ancestors := p.inheritance.ancestors c.id
  order := p.linearize c.id
  missing := p.inheritanceIssues.filterMap (InheritanceIssue.missing? c.id)

variable {p q : Project} {c d : Contract}

/-- **The missing parents of a contract** are those that it names and that are not registered. -/
theorem filterMap_missing? (p : Project) (id : ContractId) :
    p.inheritanceIssues.filterMap (InheritanceIssue.missing? id) =
      p.parentReferences.filterMap fun e => if e.1 = id ∧ e.2 ∉ p.ids then some e.2 else none := by
  have hsubject : ∀ i : InheritanceIssue, i.subject? ≠ none → i.missing? id = none := fun i hi => by
    cases i with
    | missingParent => exact absurd rfl hi
    | cycle | diamond | ambiguousFunction => rfl
  have hcycles : (p.inheritance.cycles.map InheritanceIssue.cycle).filterMap
      (InheritanceIssue.missing? id) = [] := by
    refine List.filterMap_eq_nil_iff.2 fun i hi => ?_
    obtain ⟨members, -, rfl⟩ := List.mem_map.1 hi
    rfl
  rw [filterMap_inheritanceIssues hsubject, hcycles, List.append_nil, missingParents,
    List.filterMap_map, List.filterMap_filter]
  refine List.filterMap_congr fun e _ => ?_
  by_cases hids : e.2 ∈ p.ids <;> simp [hids, InheritanceIssue.missing?]

/-! ### One contract more -/

section Concat

variable (hq : q.contracts = p.contracts ++ [d])
include hq

theorem ids_of_concat : q.ids = p.ids ++ [d.id] := by
  rw [ids, hq, List.map_append, ids]
  rfl

/-- What was found is found as before. -/
theorem contract?_le_of_concat : Registry.Le p.contract? q.contract? := fun id c h => by
  rw [contract?, hq, List.find?_append, ← contract?, h, Option.some_or]

/-- What was inherited is inherited. -/
theorem inherits_of_concat {a b : ContractId} (h : p.Inherits a b) : q.Inherits a b := by
  obtain ⟨⟨c, hc, hid, hb⟩, hids⟩ := h
  refine ⟨⟨c, ?_, hid, hb⟩, ?_⟩
  · rw [hq]
    exact List.mem_append_left [d] hc
  · rw [ids_of_concat hq]
    exact List.mem_append_left [d.id] hids

theorem reaches_of_concat {a b : ContractId} (h : Relation.TransGen p.Inherits a b) :
    Relation.TransGen q.Inherits a b :=
  Relation.TransGen.mono (fun _ _ => inherits_of_concat hq) a b h

/-- A loop above another contract stays there. -/
theorem linearize_eq_none_of_concat (hp : p.ids.Nodup) (hd : d.id ∉ p.ids) {id : ContractId}
    (hid : id ≠ d.id) (h : p.linearize id = none) : q.linearize id = none := by
  have hqids : q.ids.Nodup := by
    rw [ids_of_concat hq, ← List.concat_eq_append]
    exact hp.concat hd
  by_cases hreg : id ∈ p.ids
  · obtain ⟨c, hc, rfl⟩ := List.mem_map.1 hreg
    have hc' : c ∈ q.contracts := hq ▸ List.mem_append_left [d] hc
    rw [linearize_eq_none_iff hp hc] at h
    rw [linearize_eq_none_iff hqids hc']
    simp only [InheritanceGraph.OnLoop, edge_eq_inherits] at h ⊢
    rcases h with h | ⟨a, ha, h⟩
    · exact Or.inl (reaches_of_concat hq h)
    · exact Or.inr ⟨a, reaches_of_concat hq ha, reaches_of_concat hq h⟩
  · have hnone : q.contract? id = none := by
      rw [contract?_eq_none_iff, ids_of_concat hq]
      simp [hreg, hid]
    rw [linearize, hnone]

/-- **The references to the contract are resolved,** and no others are. -/
theorem missing_of_concat {id : ContractId} (hid : id ≠ d.id) :
    q.inheritanceIssues.filterMap (InheritanceIssue.missing? id) =
      (p.inheritanceIssues.filterMap (InheritanceIssue.missing? id)).filter
        fun parent => parent ≠ d.id := by
  have hreferences : q.parentReferences =
      p.parentReferences ++ d.parents.map fun parent => (d.id, parent) := by
    rw [parentReferences, hq, List.flatMap_append, parentReferences]
    simp
  have hown : (d.parents.map fun parent => (d.id, parent)).filterMap
      (fun e => if e.1 = id ∧ e.2 ∉ q.ids then some e.2 else none) = [] := by
    refine List.filterMap_eq_nil_iff.2 fun e he => ?_
    obtain ⟨parent, -, rfl⟩ := List.mem_map.1 he
    exact if_neg fun h => hid h.1.symm
  rw [filterMap_missing?, filterMap_missing?, hreferences, List.filterMap_append, hown,
    List.append_nil, List.filter_filterMap, ids_of_concat hq]
  refine List.filterMap_congr fun e _ => ?_
  by_cases hmissing : e.1 = id ∧ e.2 ∉ p.ids
  · rw [if_pos hmissing, Option.filter_some]
    simp [hmissing]
  · have hstill : ¬(e.1 = id ∧ e.2 ∉ p.ids ++ [d.id]) := fun h =>
      hmissing ⟨h.1, fun hids => h.2 (List.mem_append_left _ hids)⟩
    rw [if_neg hmissing, if_neg hstill, Option.filter_none]

/-- **The other contracts gain by a contract that is registered.** -/
theorem standing_grows (hp : p.ids.Nodup) (hd : d.id ∉ p.ids) (hc : c.id ≠ d.id) :
    (p.standing c).Grows d.id (q.standing c) where
  overridable := c.overridable_sublist (contract?_le_of_concat hq)
  conflicts := by
    rw [standing, standing, List.forall₂_map_left_iff, List.forall₂_map_right_iff,
      List.forall₂_same]
    exact fun b _ => b.conflicts_sublist (contract?_le_of_concat hq) c
  ancestors a ha := by
    rw [standing, mem_ancestors_iff_reaches] at ha ⊢
    exact reaches_of_concat hq ha
  order := linearize_eq_none_of_concat hq hp hd hc
  missing := missing_of_concat hq hc

end Concat

/-- Where a contract stands depends on the contracts of the project alone. -/
theorem standing_congr (h : q.contracts = p.contracts) (c : Contract) :
    q.standing c = p.standing c := by
  have hlookup : q.contract? = p.contract? := by
    funext id
    rw [contract?, contract?, h]
  have hids : q.ids = p.ids := congrArg (List.map Contract.id) h
  have hreferences : q.parentReferences = p.parentReferences := by
    rw [parentReferences, parentReferences, h]
  have hgraph : q.inheritance = p.inheritance := by
    rw [inheritance, inheritance, hids, hreferences]
  have horder : q.linearize c.id = p.linearize c.id :=
    linearize_congr (fun id => by rw [hlookup]) c.id
  rw [standing, standing, hlookup, hgraph, horder, filterMap_missing?, filterMap_missing?,
    hreferences, hids]

/-- **What registering one more contract changes for the others.**  Let a contract of a new identity
be registered.  Any other contract may override the functions that it could override, in the same
order, and perhaps more between them; of the overrides in conflict some may be left out for each of
its blocks; it has the ancestors that it had; if there was no order of them, there is none; and it
is reported as missing those parents that it was missing before, but for the new contract.  If the
contract is removed again, all of this is as it was. -/
theorem add_remove_standing (hp : p.ids.Nodup) (hd : d.id ∉ p.ids) :
    ∃ q r removed, p.add d = .ok q ∧ q.remove d.id = .ok (r, removed) ∧
      ∀ c, c.id ≠ d.id →
        (p.standing c).Grows d.id (q.standing c) ∧ r.standing c = p.standing c := by
  have hnew : p.contract? d.id = none := contract?_eq_none_iff.2 hd
  obtain ⟨q, hadd⟩ : ∃ q, p.add d = .ok q := by
    rw [add, hnew]
    exact ⟨_, rfl⟩
  have hq : q.contracts = p.contracts ++ [d] := by
    rw [(add_eq_ok hadd).2]
  have hfound : q.contract? d.id = some d := by
    rw [contract?, hq, List.find?_append, ← contract?, hnew]
    simp
  obtain ⟨r, removed, hremove⟩ : ∃ r removed, q.remove d.id = .ok (r, removed) := by
    rw [remove, hfound]
    exact ⟨_, _, rfl⟩
  have hr : r.contracts = p.contracts := by
    obtain ⟨-, -, -, rfl⟩ := remove_eq_ok hremove
    have hothers : ∀ e ∈ p.contracts, ¬(e.id == d.id) = true := List.find?_eq_none.1 hnew
    show q.contracts.eraseP (fun c => c.id == d.id) = p.contracts
    rw [hq, List.eraseP_append_right _ hothers]
    simp
  exact ⟨q, r, removed, hadd, hremove, fun c hc =>
    ⟨standing_grows hq hp hd hc, standing_congr hr c⟩⟩

namespace Orphan

/-- A function of the given identity with overrides. -/
def pause (id : BlockId) (isVirtual : Bool) (overrides : List StoredOverride) : Placed :=
  ⟨⟨id, "pause", "", .basic, [],
    .function ⟨.pub, .nonpayable, [], [], [], isVirtual, "", overrides⟩⟩, .origin⟩

/-- A contract whose parents are missing and that keeps an override of a function of one of them. -/
def child : Contract := ⟨"child", "Child", [pause "c-f" false [.fresh "b-f"]], ["base", "gone"]⟩

/-- The contract alone. -/
def orphan : Project := ⟨"p", "Orphan", [child], none, .idle⟩

/-- The parent that declares the function. -/
def base : Contract := ⟨"base", "Base", [pause "b-f" true []], []⟩

end Orphan

open Orphan in
theorem add_remove_standing_orphan :
    orphan.ids.Nodup ∧ base.id ∉ orphan.ids ∧
      (orphan.standing child).conflicts = [[⟨"b-f", .orphaned⟩]] ∧
      ∃ q r removed, orphan.add base = .ok q ∧ q.remove base.id = .ok (r, removed) ∧
        (orphan.standing child).Grows base.id (q.standing child) ∧
        (q.standing child).conflicts = [[]] ∧ r.standing child = orphan.standing child := by
  have hp : orphan.ids.Nodup := by decide
  have hd : base.id ∉ orphan.ids := by decide
  obtain ⟨q, r, removed, hadd, hremove, hothers⟩ := add_remove_standing hp hd
  obtain ⟨hgrows, hrestored⟩ := hothers child (by decide)
  have hresolved : (q.standing child).conflicts = [[]] := by
    obtain rfl := Except.ok.inj hadd
    rfl
  exact ⟨hp, hd, rfl, q, r, removed, hadd, hremove, hgrows, hresolved, hrestored⟩

end Project
end ContractBlocks
