/-
# The order of the ancestors

Beside the recursion that puts the ancestors of a contract in order stands the plain depth-first
post-order of its parents (`Project.PostOrder`): the parents in declaration order, each behind what
is above it and as often as it is come to, with the missing ones passed over.  What the recursion
finds is this list with only the first occurrences kept (`Project.orderAbove_eq_some`).  The list
exists exactly if there is no loop above, and it puts every contract behind all of its ancestors
(`Project.PostOrder.mem_before`), so the order does, too.

`Project.linearize_postOrder` says all of this about `linearize`, and that the recursion ends: it
never goes down through more contracts than are registered (`Project.orderWithin_eq`).
-/

import ContractBlocks.Proofs.Inheritance.Linearization

namespace ContractBlocks

/-- What stands before the first occurrence of an element is kept before it. -/
theorem idxOf_eraseDups_lt {α : Type} [BEq α] [LawfulBEq α] {before after : List α} {x y : α}
    (hx : x ∉ before) (hy : y ∈ before) :
    (before ++ x :: after).eraseDups.idxOf y < (before ++ x :: after).eraseDups.idxOf x := by
  have hkeep : (x :: after).removeAll before = x :: after.removeAll before := by
    simp [List.removeAll, hx]
  have hsplit : ∃ rest, (before ++ x :: after).eraseDups = before.eraseDups ++ x :: rest := by
    rw [List.eraseDups_append, hkeep, List.eraseDups_cons]
    exact ⟨_, rfl⟩
  obtain ⟨rest, hsplit⟩ := hsplit
  have hy' : y ∈ before.eraseDups := List.mem_eraseDups.2 hy
  have hx' : x ∉ before.eraseDups := fun h => hx (List.mem_eraseDups.1 h)
  have hlt : before.eraseDups.idxOf y < before.eraseDups.length := List.idxOf_lt_length_iff.2 hy'
  rw [hsplit, List.idxOf_append_of_mem hy', List.idxOf_append_of_notMem hx']
  omega

namespace Project

variable {p : Project}

/-! ### The depth-first post-order -/

/-- Going up depth first from the contracts of the first list, one leaves contracts in the order of
the second: each behind what is above it, as often as it is come to.  A contract that is not
registered is passed over. -/
inductive PostOrder (p : Project) : List ContractId → List ContractId → Prop
  | nil : PostOrder p [] []
  | missing {r : ContractId} {rs out : List ContractId} (hr : p.contract? r = none)
      (hrs : PostOrder p rs out) : PostOrder p (r :: rs) out
  | visit {r : ContractId} {rs above out : List ContractId} {c : Contract}
      (hr : p.contract? r = some c) (habove : PostOrder p c.parents above)
      (hrs : PostOrder p rs out) : PostOrder p (r :: rs) (above ++ r :: out)

namespace PostOrder

variable {rs out : List ContractId}

/-- There is one post-order at most. -/
theorem unique {out' : List ContractId} (h : p.PostOrder rs out) (h' : p.PostOrder rs out') :
    out = out' := by
  induction h generalizing out' with
  | nil => cases h'; rfl
  | missing hr _ ih =>
    cases h' with
    | missing _ hrs => exact ih hrs
    | visit hr' => rw [hr] at hr'; cases hr'
  | visit hr _ _ ihabove ih =>
    cases h' with
    | missing hr' => rw [hr] at hr'; cases hr'
    | visit hr' habove hrs =>
      obtain rfl := Option.some.inj (hr.symm.trans hr')
      rw [ihabove habove, ih hrs]

/-- **A post-order holds what can be reached** from the registered contracts it starts from. -/
theorem mem_iff (hp : p.ids.Nodup) (h : p.PostOrder rs out) {a : ContractId} :
    a ∈ out ↔ ∃ r ∈ rs, r ∈ p.ids ∧ Relation.ReflTransGen p.inheritance.Edge r a := by
  induction h with
  | nil => simp
  | @missing r rs out hr _ ih =>
    have hnot : r ∉ p.ids := contract?_eq_none_iff.1 hr
    rw [ih, List.exists_mem_cons_iff]
    exact ⟨Or.inr, fun h => h.resolve_left fun h => hnot h.1⟩
  | @visit r rs above out c hr _ _ ihabove ih =>
    have hid : r ∈ p.ids := exists_contract?_iff.1 ⟨c, hr⟩
    have hfirst : a ∈ above ∨ a = r ↔ Relation.ReflTransGen p.inheritance.Edge r a := by
      rw [ihabove, Relation.ReflTransGen.cases_head_iff]
      simp only [edge_iff_of_contract? hp hr, and_assoc]
      rw [or_comm, eq_comm]
    rw [List.mem_append, List.mem_cons, ih, List.exists_mem_cons_iff, ← or_assoc, hfirst]
    simp only [hid, true_and]

/-- **In a post-order all that is above a contract stands before it,** wherever it stands. -/
theorem mem_before (hp : p.ids.Nodup) (h : p.PostOrder rs out) {before after : List ContractId}
    {a b : ContractId} (heq : out = before ++ a :: after)
    (hab : Relation.TransGen p.inheritance.Edge a b) : b ∈ before := by
  induction h generalizing before after a with
  | nil => cases before <;> cases heq
  | missing _ _ ih => exact ih heq hab
  | @visit r rs above out c hr habove _ ihabove ih =>
    have hroot : ∀ b, Relation.TransGen p.inheritance.Edge r b → b ∈ above := by
      intro b hb
      obtain ⟨m, hm, hmb⟩ := Relation.TransGen.head'_iff.1 hb
      obtain ⟨hmc, hmi⟩ := (edge_iff_of_contract? hp hr).1 hm
      exact (habove.mem_iff hp).2 ⟨m, hmc, hmi, hmb⟩
    rcases List.append_eq_append_iff.1 heq with ⟨mid, rfl, hmid⟩ | ⟨mid, rfl, hmid⟩
    · -- the contract is the one that is left here, or stands behind it
      cases mid with
      | nil =>
        obtain ⟨rfl, -⟩ := List.cons.inj hmid
        exact List.mem_append_left _ (hroot b hab)
      | cons x mid =>
        obtain ⟨rfl, hout⟩ := List.cons.inj hmid
        have hb : b ∈ mid := ih hout hab
        exact List.mem_append_right _ (List.mem_cons_of_mem _ hb)
    · -- the contract stands above the one that is left here, or is that one
      cases mid with
      | nil =>
        obtain ⟨rfl, -⟩ := List.cons.inj hmid
        simpa using hroot b hab
      | cons x mid =>
        obtain ⟨rfl, -⟩ := List.cons.inj hmid
        exact ihabove rfl hab

/-- From where there is a post-order, going up never comes to a loop. -/
theorem not_onLoop (hp : p.ids.Nodup) (h : p.PostOrder rs out) {r m : ContractId} (hr : r ∈ rs)
    (hid : r ∈ p.ids) (hm : Relation.ReflTransGen p.inheritance.Edge r m) :
    ¬p.inheritance.OnLoop m := by
  intro hloop
  have hmem : m ∈ out := (h.mem_iff hp).2 ⟨r, hr, hid, hm⟩
  obtain ⟨before, after, heq, hnot⟩ := List.eq_append_cons_of_mem hmem
  exact hnot (h.mem_before hp heq hloop)

end PostOrder

/-! ### The recursion -/

/-- **What the recursion finds is the post-order with only the first occurrences kept.** -/
theorem orderAbove_eq_some (pre : List ContractId) {path rs out : List ContractId}
    (h : p.orderAbove path pre.eraseDups rs = some out) :
    ∃ post, p.PostOrder rs post ∧ out = (pre ++ post).eraseDups := by
  generalize hpre : pre.eraseDups = order at h
  fun_induction orderAbove p path order rs generalizing pre out with
  | case1 path order =>
    obtain rfl := Option.some.inj h
    exact ⟨[], .nil, by rw [List.append_nil, hpre]⟩
  | case2 path order r rs hr ih =>
    obtain ⟨post, hpost, hout⟩ := ih pre hpre h
    exact ⟨post, .missing hr hpost, hout⟩
  | case3 | case4 => cases h
  | case5 path order r rs c hr hnot above hsome ihabove ih =>
    obtain ⟨first, hfirst, rfl⟩ := ihabove pre hpre hsome
    have hnext : (pre ++ first ++ [r]).eraseDups = if r ∈ (pre ++ first).eraseDups then
        (pre ++ first).eraseDups else (pre ++ first).eraseDups ++ [r] := eraseDups_concat _ r
    obtain ⟨post, hpost, rfl⟩ := ih _ hnext h
    refine ⟨first ++ r :: post, .visit hr hfirst hpost, ?_⟩
    rw [List.append_assoc, List.append_assoc, List.singleton_append]

/-! ### How deep the recursion goes -/

/-- The recursion along paths of parents, cut off where the path would grow by more contracts than
are allowed.  There is no answer if it is cut off. -/
def orderWithin (p : Project) (depth : Nat) (path order : List ContractId) :
    List ContractId → Option (Option (List ContractId))
  | [] => some (some order)
  | r :: rs =>
    match p.contract? r with
    | none => orderWithin p depth path order rs
    | some parent =>
      if r ∈ path then some none
      else match depth with
        | 0 => none
        | below + 1 => match orderWithin p below (r :: path) order parent.parents with
          | none => none
          | some none => some none
          | some (some above) =>
            orderWithin p (below + 1) path (if r ∈ above then above else above ++ [r]) rs
termination_by rs => (depth, rs.length)

/-- The order of the ancestors, with the recursion cut off where the path would grow by more
contracts than are allowed. -/
def linearizeWithin (p : Project) (depth : Nat) (id : ContractId) :
    Option (Option (List ContractId)) :=
  match p.contract? id with
  | none => some none
  | some c => p.orderWithin depth [id] [] c.parents

/-- **The recursion is not cut off** if it may go down through all contracts off the path. -/
theorem orderWithin_eq {depth : Nat} {path order rs : List ContractId}
    (hdepth : (p.offPath path).length ≤ depth) :
    p.orderWithin depth path order rs = some (p.orderAbove path order rs) := by
  fun_induction orderAbove p path order rs generalizing depth with
  | case1 path order => rw [orderWithin]
  | case2 path order r rs hr ih =>
    rw [orderWithin, hr]
    exact ih hdepth
  | case3 path order r rs c hr hmem => rw [orderWithin]; simp only [hr, if_pos hmem]
  | case4 path order r rs c hr hnot hnone ih =>
    have hlt := p.length_offPath_cons_lt (id_mem_of_contract? hr) hnot
    obtain ⟨below, rfl⟩ : ∃ below, depth = below + 1 := ⟨depth - 1, by omega⟩
    have habove : p.orderWithin below (r :: path) order c.parents = some none :=
      hnone ▸ ih (by omega)
    rw [orderWithin]
    simp only [hr, if_neg hnot, habove]
  | case5 path order r rs c hr hnot above hsome ihabove ih =>
    have hlt := p.length_offPath_cons_lt (id_mem_of_contract? hr) hnot
    obtain ⟨below, rfl⟩ : ∃ below, depth = below + 1 := ⟨depth - 1, by omega⟩
    have habove : p.orderWithin below (r :: path) order c.parents = some (some above) :=
      hsome ▸ ihabove (by omega)
    rw [orderWithin]
    simp only [hr, if_neg hnot, habove]
    exact ih hdepth

/-- The recursion from a registered contract goes down through the other contracts at most. -/
theorem linearizeWithin_eq {depth : Nat} (hdepth : p.contracts.length ≤ depth + 1)
    (id : ContractId) : p.linearizeWithin depth id = some (p.linearize id) := by
  unfold linearizeWithin linearize
  cases hc : p.contract? id with
  | none => rfl
  | some c =>
    have hlt := p.length_offPath_cons_lt (id_mem_of_contract? hc) (List.not_mem_nil (a := id))
    have hall : (p.offPath []).length ≤ p.contracts.length := by
      have hids : p.ids.length = p.contracts.length := List.length_map ..
      exact hids ▸ List.length_filter_le _ _
    exact orderWithin_eq (by omega)

/-! ### The order of the ancestors -/

/-- **A contract has an order of its ancestors exactly if there is a post-order of its parents,** and
then it is the first occurrences of that. -/
theorem linearize_eq_some_iff (hp : p.ids.Nodup) {id : ContractId} {order : List ContractId} :
    p.linearize id = some order ↔
      ∃ c post, p.contract? id = some c ∧ p.PostOrder c.parents post ∧ order = post.eraseDups := by
  have hsome : ∀ {order}, p.linearize id = some order →
      ∃ c post, p.contract? id = some c ∧ p.PostOrder c.parents post ∧ order = post.eraseDups := by
    intro order h
    unfold linearize at h
    split at h
    · cases h
    · next c hc =>
      obtain ⟨post, hpost, hout⟩ := orderAbove_eq_some [] h
      exact ⟨c, post, hc, hpost, hout⟩
  refine ⟨hsome, ?_⟩
  rintro ⟨c, post, hc, hpost, rfl⟩
  obtain ⟨hmem, rfl⟩ := (contract?_eq_some_iff hp).1 hc
  have hne : p.linearize c.id ≠ none := by
    rw [ne_eq, linearize_eq_none_iff hp hmem]
    have habove : ∀ m, Relation.TransGen p.inheritance.Edge c.id m → ¬p.inheritance.OnLoop m := by
      intro m hm
      obtain ⟨b, hb, hbm⟩ := Relation.TransGen.head'_iff.1 hm
      obtain ⟨hbc, hbi⟩ := (edge_iff_of_contract? hp hc).1 hb
      exact hpost.not_onLoop hp hbc hbi hbm
    rintro (hloop | ⟨a, ha, hloop⟩)
    · exact habove c.id hloop hloop
    · exact habove a ha hloop
  obtain ⟨order, horder⟩ := Option.ne_none_iff_exists'.1 hne
  obtain ⟨c', post', hc', hpost', rfl⟩ := hsome horder
  obtain rfl := Option.some.inj (hc.symm.trans hc')
  rw [horder, hpost.unique hpost']

/-- **The order of the ancestors of a contract.**  The recursion that looks for it goes down through
no more contracts than are registered.  There is an order exactly if there is a depth-first
post-order of the parents, taken in declaration order and the missing ones passed over, and it is
that with only the first occurrences kept.  Then no contract comes twice, the contract itself does
not come at all, the members are its ancestors, and each of them comes behind all ancestors of its
own. -/
theorem linearize_postOrder (hp : p.ids.Nodup) (id : ContractId) :
    (∀ depth, p.contracts.length ≤ depth + 1 →
      p.linearizeWithin depth id = some (p.linearize id)) ∧
    (∀ order, p.linearize id = some order ↔
      ∃ c post, p.contract? id = some c ∧ p.PostOrder c.parents post ∧ order = post.eraseDups) ∧
    ∀ order, p.linearize id = some order →
      order.Nodup ∧ id ∉ order ∧ (∀ a, a ∈ order ↔ a ∈ p.inheritance.ancestors id) ∧
        ∀ a ∈ order, ∀ b ∈ p.inheritance.ancestors a, order.idxOf b < order.idxOf a := by
  refine ⟨fun depth hdepth => linearizeWithin_eq hdepth id, fun order => linearize_eq_some_iff hp,
    fun order horder => ?_⟩
  obtain ⟨c, post, hc, hpost, rfl⟩ := (linearize_eq_some_iff hp).1 horder
  have hmem : ∀ a, a ∈ post.eraseDups ↔ Relation.TransGen p.inheritance.Edge id a := by
    intro a
    rw [List.mem_eraseDups, hpost.mem_iff hp, Relation.TransGen.head'_iff]
    simp only [edge_iff_of_contract? hp hc, and_assoc]
  have hself : id ∉ post.eraseDups := by
    intro h
    have hloop : p.inheritance.OnLoop id := (hmem id).1 h
    obtain ⟨hreg, rfl⟩ := (contract?_eq_some_iff hp).1 hc
    rw [(linearize_eq_none_iff hp hreg).2 (Or.inl hloop)] at horder
    cases horder
  refine ⟨nodup_eraseDups post, hself, fun a => ?_, fun a ha b hb => ?_⟩
  · rw [hmem, InheritanceGraph.mem_ancestors_iff p.inheritance_joined]
  · obtain ⟨before, after, rfl, hfirst⟩ := List.eq_append_cons_of_mem (List.mem_eraseDups.1 ha)
    have habove := (InheritanceGraph.mem_ancestors_iff p.inheritance_joined).1 hb
    exact idxOf_eraseDups_lt hfirst (hpost.mem_before hp rfl habove)

/-- A contract whose first and third parent have a parent in common, which names one that is missing;
the fourth parent is the first one again. -/
def layered : Project where
  id := "p"
  name := "Layered"
  contracts := [⟨"base", "Base", [], ["gone"]⟩, ⟨"left", "Left", [], ["base"]⟩,
    ⟨"right", "Right", [], ["gone", "left", "base"]⟩,
    ⟨"child", "Child", [], ["left", "gone", "right", "left"]⟩]
  currentId := none
  deployment := .idle

theorem linearize_postOrder_layered :
    layered.ids.Nodup ∧ layered.linearize "child" = some ["base", "left", "right"] ∧
      layered.linearizeWithin 3 "child" = some (some ["base", "left", "right"]) ∧
      ∀ a, a ∈ ["base", "left", "right"] ↔ a ∈ layered.inheritance.ancestors "child" := by
  have hp : layered.ids.Nodup := by decide
  obtain ⟨hdepth, hsome, hall⟩ := linearize_postOrder hp "child"
  have hbase : layered.PostOrder ["base"] ["base"] :=
    .visit (c := ⟨"base", "Base", [], ["gone"]⟩) rfl (.missing rfl .nil) .nil
  have hleft : ∀ {rs out}, layered.PostOrder rs out →
      layered.PostOrder ("left" :: rs) ("base" :: "left" :: out) := fun hrs =>
    .visit (c := ⟨"left", "Left", [], ["base"]⟩) rfl hbase hrs
  have hright : ∀ {rs out}, layered.PostOrder rs out →
      layered.PostOrder ("right" :: rs) ("base" :: "left" :: "base" :: "right" :: out) := fun hrs =>
    .visit (c := ⟨"right", "Right", [], ["gone", "left", "base"]⟩) rfl
      (.missing rfl (hleft hbase)) hrs
  have horder : layered.linearize "child" = some ["base", "left", "right"] :=
    (hsome _).2 ⟨⟨"child", "Child", [], ["left", "gone", "right", "left"]⟩, _, rfl,
      hleft (.missing rfl (hright (hleft .nil))), by decide⟩
  exact ⟨hp, horder, (hdepth 3 (by decide)).trans (congrArg some horder), (hall _ horder).2.2.1⟩

end Project
end ContractBlocks
