/-
# The inheritance graph

The nodes are the registered contracts and the edges go from a contract to its registered parents.
What can be reached is found by a depth-first walk. A graph has a loop exactly if something is left
after contracts without unsettled parents are peeled off round by round, and its loops fall into the
groups of contracts that reach each other.
-/

import ContractBlocks.Contract.Project

namespace ContractBlocks

/-- A finite graph of contracts. -/
structure InheritanceGraph where
  /-- The contracts, each once. -/
  nodes : List ContractId
  /-- The edges, as pairs of a child and a parent, in declaration order. -/
  edges : List (ContractId × ContractId)
deriving DecidableEq, Repr

namespace InheritanceGraph

/-- The parents of a contract. -/
def parents (g : InheritanceGraph) (id : ContractId) : List ContractId :=
  g.edges.filterMap fun e => if e.1 = id then some e.2 else none

/-- The children of a contract. -/
def children (g : InheritanceGraph) (id : ContractId) : List ContractId :=
  g.edges.filterMap fun e => if e.2 = id then some e.1 else none

/-- The nodes that are not yet seen. -/
def unseen (g : InheritanceGraph) (seen : List ContractId) : List ContractId :=
  g.nodes.filter fun n => n ∉ seen

theorem length_unseen_cons_lt (g : InheritanceGraph) {seen : List ContractId} {n : ContractId}
    (hn : n ∈ g.nodes) (hs : n ∉ seen) :
    (g.unseen (n :: seen)).length < (g.unseen seen).length := by
  have hsub : (g.unseen (n :: seen)).Sublist (g.unseen seen) := by
    have : g.unseen (n :: seen) = (g.unseen seen).filter fun m => m ≠ n := by
      simp only [unseen, List.filter_filter, List.mem_cons, not_or]
      congr 1
      funext m
      simp
    rw [this]
    exact List.filter_sublist
  refine Nat.lt_of_le_of_ne hsub.length_le fun h => ?_
  have he := hsub.eq_of_length h
  have hm : n ∈ g.unseen seen := by simp [unseen, hn, hs]
  rw [← he] at hm
  simp [unseen] at hm

/-- Walks depth first from the nodes still to do, following `next`, and adds what it meets to what
it has seen. -/
def walk (g : InheritanceGraph) (next : ContractId → List ContractId) (seen : List ContractId) :
    List ContractId → List ContractId
  | [] => seen
  | n :: todo =>
    if _h : n ∈ g.nodes ∧ n ∉ seen then walk g next (n :: seen) (next n ++ todo)
    else walk g next seen todo
termination_by todo => ((g.unseen seen).length, todo.length)
decreasing_by
  · exact Prod.Lex.left _ _ (length_unseen_cons_lt g _h.1 _h.2)
  · exact Prod.Lex.right _ (by simp)

/-- What can be reached over one or more edges to parents. -/
def above (g : InheritanceGraph) (id : ContractId) : List ContractId :=
  g.walk g.parents [] (g.parents id)

/-- What can be reached over one or more edges to children. -/
def below (g : InheritanceGraph) (id : ContractId) : List ContractId :=
  g.walk g.children [] (g.children id)

/-- The ancestors of a contract in order of identity; on a loop a contract is its own ancestor. -/
def ancestors (g : InheritanceGraph) (id : ContractId) : List ContractId :=
  (g.above id).mergeSort fun a b => a ≤ b

/-- What is left after the given number of rounds, each of which takes away the contracts that have
no parent left. -/
def peel (g : InheritanceGraph) : Nat → List ContractId → List ContractId
  | 0, left => left
  | n + 1, left => peel g n (left.filter fun id => (g.parents id).any fun p => p ∈ left)

/-- Some contract inherits from itself, directly or through others. -/
def hasCycles (g : InheritanceGraph) : Bool := !(g.peel g.nodes.length g.nodes).isEmpty

/-- The contracts among `others` that reach `n` and are reached from it. -/
def mutualWith (g : InheritanceGraph) (n : ContractId) (others : List ContractId) :
    List ContractId :=
  let up := g.above n
  let down := g.below n
  others.filter fun m => m ∈ up && m ∈ down

/-- The contracts in groups that reach each other; a contract on no loop is a group by itself. -/
def groups (g : InheritanceGraph) : List ContractId → List (List ContractId)
  | [] => []
  | n :: rest =>
    let others := g.mutualWith n rest
    (n :: others) :: groups g (rest.filter fun m => m ∉ others)
termination_by ns => ns.length
decreasing_by
  simp only [List.length_unattach, List.length_cons]
  exact Nat.lt_succ_of_le (Nat.le_trans (List.length_filter_le _ _) (by simp))

/-- A group is a loop if it has two members or its only member is its own parent. -/
def isLoop (g : InheritanceGraph) : List ContractId → Bool
  | [] => false
  | [n] => (g.parents n).contains n
  | _ :: _ :: _ => true

/-- A group may stand before another: its first member is not behind that of the other. -/
def firstLe : List ContractId → List ContractId → Bool
  | [], _ => true
  | _ :: _, [] => false
  | a :: _, b :: _ => a ≤ b

/-- The loops, each in order of identity, in order of their first members. -/
def cycles (g : InheritanceGraph) : List (List ContractId) :=
  (((g.groups g.nodes).filter g.isLoop).map fun c => c.mergeSort fun a b => a ≤ b).mergeSort firstLe

/-- A contract together with its ancestors, in order of identity. -/
def lineage (g : InheritanceGraph) (id : ContractId) : List ContractId :=
  let up := g.above id
  (if id ∈ up then up else id :: up).mergeSort fun a b => a ≤ b

end InheritanceGraph

namespace Project

/-- The identities of the contracts in order. -/
def ids (p : Project) : List ContractId := p.contracts.map Contract.id

/-- Every parent reference of every contract, with the contract that makes it. -/
def parentReferences (p : Project) : List (ContractId × ContractId) :=
  p.contracts.flatMap fun c => c.parents.map fun r => (c.id, r)

/-- The inheritance graph of the project. -/
def inheritance (p : Project) : InheritanceGraph where
  nodes := p.ids.eraseDups
  edges := p.parentReferences.filter fun e => p.ids.contains e.2

end Project

end ContractBlocks
