/-
# What the validation of a contract reports

The validation goes over the blocks once and keeps a table of declarations by name.  After some
blocks the table holds the declarations of those that remain when repeats of an identity are skipped
(`Validation.Pass.Follows`), and what the next block is told depends on two relations between it and
a block before it: that they share an identity, and that they clash (`Block.Clashes`).  So the
violations are known without the table (`Contract.violations_eq`).  Neither relation has an order,
so no rule is broken exactly if any two blocks are apart in both, and the order of the blocks does
not matter for that (`Contract.judged_pairwise`).
-/

import Mathlib.Data.List.Basic
import Mathlib.Data.List.Nodup
import Mathlib.Data.List.Induction
import ContractBlocks.Validation.Contract

namespace ContractBlocks

/-! ### Results along a list -/

section WithBefore

variable {α β : Type}

/-- The results along a list, each worked out from an item and the items before it. -/
def withBefore (f : List α → α → List β) (xs : List α) : List β :=
  (xs.mapIdx fun i x => f (xs.take i) x).flatten

variable (f : List α → α → List β)

theorem withBefore_cons (x : α) (xs : List α) :
    withBefore f (x :: xs) = f [] x ++ withBefore (fun before => f (x :: before)) xs := by
  rw [withBefore, List.mapIdx_cons, List.flatten_cons]
  rfl

theorem withBefore_append (xs ys : List α) :
    withBefore f (xs ++ ys) =
      withBefore f xs ++ withBefore (fun before => f (xs ++ before)) ys := by
  induction xs generalizing f with
  | nil => rfl
  | cons x xs ih =>
    rw [List.cons_append, withBefore_cons, withBefore_cons, ih, List.append_assoc]
    rfl

theorem withBefore_concat (xs : List α) (x : α) :
    withBefore f (xs ++ [x]) = withBefore f xs ++ f xs x := by
  rw [withBefore_append, withBefore_cons, List.append_nil xs]
  exact congrArg _ (List.append_nil _)

variable {f} in
theorem withBefore_congr {g : List α → α → List β} {xs : List α}
    (h : ∀ before ⊆ xs, ∀ x ∈ xs, f before x = g before x) :
    withBefore f xs = withBefore g xs := by
  rw [withBefore, withBefore]
  refine congrArg _ (List.ext_getElem (by simp) fun i _ _ => ?_)
  rw [List.getElem_mapIdx, List.getElem_mapIdx, h _ (List.take_subset i xs) _ (List.getElem_mem _)]

end WithBefore

/-! ### Blocks that clash -/

/-- The nine kinds that declare a name in their contract. -/
def Tag.declaring : List Tag :=
  [.function, .event, .stateVariable, .modifier, .error, .struct, .enum, .mapping, .array]

namespace Block

/-- The block declares its name. -/
def Declares (b : Block) : Prop := ∃ t ∈ Tag.declaring, b.kind.tag? = some t

instance (b : Block) : Decidable b.Declares :=
  inferInstanceAs (Decidable (∃ t ∈ Tag.declaring, b.kind.tag? = some t))

/-- The trimmed types of the parameters of the block. -/
def parameterTypes (b : Block) : List String := Parameter.trimmedTypes (b.parameters?.getD [])

/-- Two functions or two events overload each other if their parameter types differ. -/
def Overloads (a b : Block) : Prop :=
  (∃ t ∈ [Tag.function, Tag.event], a.kind.tag? = some t ∧ b.kind.tag? = some t) ∧
    a.parameterTypes ≠ b.parameterTypes

instance (a b : Block) : Decidable (a.Overloads b) :=
  inferInstanceAs (Decidable (_ ∧ _))

/-- Two blocks clash if they declare one name and do not overload each other. -/
def Clashes (a b : Block) : Prop :=
  a.Declares ∧ b.Declares ∧ a.name = b.name ∧ ¬ a.Overloads b

instance (a b : Block) : Decidable (a.Clashes b) :=
  inferInstanceAs (Decidable (_ ∧ _))

theorem Overloads.symm {a b : Block} (h : a.Overloads b) : b.Overloads a := by
  obtain ⟨⟨t, ht, ha, hb⟩, hne⟩ := h
  exact ⟨⟨t, ht, hb, ha⟩, hne.symm⟩

theorem not_clashes_iff {a b : Block} :
    ¬ a.Clashes b ↔ (a.Declares → b.Declares → a.name = b.name → a.Overloads b) := by
  simp only [Clashes, not_and, not_not]

theorem declares_iff {b : Block} : b.Declares ↔ ∃ d, Declaration.ofKind? b.kind = some d := by
  unfold Declares
  cases b.kind <;> simp [Kind.tag?, Tag.declaring, Declaration.ofKind?]

/-- Functions and events declare their name with their parameter types, other blocks by itself. -/
theorem declaration_cases {b : Block} {d : Declaration}
    (h : Declaration.ofKind? b.kind = some d) :
    b.kind.tag? = some .function ∧ d = .function b.parameterTypes ∨
      b.kind.tag? = some .event ∧ d = .event b.parameterTypes ∨
      (b.kind.tag? ≠ some .function ∧ b.kind.tag? ≠ some .event) ∧ d = .unique := by
  unfold parameterTypes parameters?
  revert h
  cases b.kind <;> simp [Kind.tag?, Declaration.ofKind?, eq_comm]

/-- **Two declarations clash** exactly if their blocks do not overload each other. -/
theorem declaration_clashes_iff {a b : Block} {x y : Declaration}
    (hx : Declaration.ofKind? a.kind = some x) (hy : Declaration.ofKind? b.kind = some y) :
    x.clashes y ↔ ¬ a.Overloads b := by
  unfold Overloads
  rcases declaration_cases hx with ⟨ha, rfl⟩ | ⟨ha, rfl⟩ | ⟨⟨ha, ha'⟩, rfl⟩ <;>
    rcases declaration_cases hy with ⟨hb, rfl⟩ | ⟨hb, rfl⟩ | ⟨⟨hb, hb'⟩, rfl⟩ <;>
    simp [Declaration.clashes, *]

/-! ### Blocks that remain -/

/-- The block is the first of its identity, so it remains when repeats are skipped. -/
def RemainsIn (bs : List Block) (k : Block) : Prop := bs.find? (fun e => e.id == k.id) = some k

instance (bs : List Block) (k : Block) : Decidable (k.RemainsIn bs) :=
  inferInstanceAs (Decidable (_ = _))

variable {bs : List Block} {b k : Block}

theorem RemainsIn.mem (h : k.RemainsIn bs) : k ∈ bs := List.mem_of_find?_eq_some h

theorem remainsIn_concat :
    k.RemainsIn (bs ++ [b]) ↔ k.RemainsIn bs ∨ (k = b ∧ b.id ∉ bs.map Block.id) := by
  have hnone : bs.find? (fun e => e.id == k.id) = none ↔ k.id ∉ bs.map Block.id := by
    rw [List.find?_eq_none, List.mem_map]
    simp
  rw [RemainsIn, List.find?_append, Option.or_eq_some_iff, hnone, List.find?_singleton, RemainsIn]
  refine or_congr_right ⟨fun ⟨hid, hk⟩ => ?_, fun ⟨hk, hid⟩ => ?_⟩
  · obtain rfl : b = k := by
      split at hk
      · exact Option.some.inj hk
      · cases hk
    exact ⟨rfl, hid⟩
  · rw [hk]
    exact ⟨hid, if_pos (beq_self_eq_true _)⟩

theorem remainsIn_iff_of_nodup (h : (bs.map Block.id).Nodup) : k.RemainsIn bs ↔ k ∈ bs := by
  induction bs using List.reverseRecOn with
  | nil => simp [RemainsIn]
  | append_singleton bs b ih =>
    rw [List.map_append, List.nodup_append] at h
    have hb : b.id ∉ bs.map Block.id := fun hm => h.2.2 _ hm _ (List.mem_singleton_self _) rfl
    rw [remainsIn_concat, ih h.1, List.mem_append, List.mem_singleton, and_iff_left hb]

/-- What a block adds to the violations, given the blocks before it: its own violations, and that
its name is taken if it clashes with one of those that remain; nothing but the repeat if its
identity has come before. -/
def share (earlier : List Block) (b : Block) : List Violation :=
  if b.id ∈ earlier.map Block.id then [.duplicateId b.id]
  else
    b.violations ++
      if ∃ k ∈ earlier, k.RemainsIn earlier ∧ k.Clashes b then [.duplicateName b.id b.name] else []

theorem share_eq_nil_iff :
    b.share bs = [] ↔
      b.id ∉ bs.map Block.id ∧ b.violations = [] ∧ ∀ k ∈ bs, k.RemainsIn bs → ¬ k.Clashes b := by
  unfold share
  split
  · simp [*]
  · simp [*]

end Block

/-! ### The pass -/

namespace Validation

/-- A declaration goes behind those of its name and leaves the other names alone. -/
theorem lookup_declare (name n : String) (d : Declaration)
    (table : List (String × List Declaration)) :
    ((declare name d table).lookup n).getD [] =
      (table.lookup n).getD [] ++ if n = name then [d] else [] := by
  have hcons : ∀ (m : String) (ds : List Declaration) (rest : List (String × List Declaration)),
      ((m, ds) :: rest).lookup n = if n = m then some ds else rest.lookup n := by
    intro m ds rest
    by_cases h : n = m
    · rw [h, List.lookup_cons_self, if_pos rfl]
    · rw [List.lookup_cons, beq_false_of_ne h, if_neg h]
  induction table with
  | nil => by_cases h : n = name <;> simp [declare, hcons, h]
  | cons entry rest ih =>
    obtain ⟨m, ds⟩ := entry
    rw [declare]
    by_cases hm : m = name
    · rw [if_pos hm, hcons, hcons]
      by_cases h : n = m <;> simp [h, ← hm]
    · rw [if_neg hm, hcons, hcons]
      by_cases h : n = m
      · simp [h, hm]
      · rw [if_neg h, if_neg h, ih]

namespace Pass

/-- The pass has gone over the blocks: it has met their identities, its table has the declarations
of those that remain, and it has found what each of them adds. -/
structure Follows (p : Pass) (bs : List Block) : Prop where
  mem_ids : ∀ {id}, id ∈ p.ids ↔ id ∈ bs.map Block.id
  mem_declarations : ∀ {name d}, d ∈ p.declarations name ↔
    ∃ k : Block, k.RemainsIn bs ∧ k.name = name ∧ Declaration.ofKind? k.kind = some d
  violations_eq : p.violations = withBefore Block.share bs

variable {p : Pass} {bs : List Block}

theorem follows_start : start.Follows [] where
  mem_ids := by simp [start]
  mem_declarations := by simp [start, declarations, Block.RemainsIn]
  violations_eq := rfl

theorem declarations_declare (p : Pass) (b : Block) (d : Declaration) (name : String) :
    (p.declare b d).declarations name =
      p.declarations name ++ if name = b.name then [d] else [] :=
  lookup_declare ..

/-- **The table knows the clashes:** some declaration under the name of a block clashes with its own
exactly if the block clashes with one that remains. -/
theorem Follows.clashes_iff (h : p.Follows bs) {b : Block} {d : Declaration}
    (hd : Declaration.ofKind? b.kind = some d) :
    ((p.declarations b.name).any fun e => e.clashes d) ↔
      ∃ k ∈ bs, k.RemainsIn bs ∧ k.Clashes b := by
  rw [List.any_eq_true]
  constructor
  · rintro ⟨e, he, hc⟩
    obtain ⟨k, hk, hname, hke⟩ := h.mem_declarations.1 he
    have hne := (Block.declaration_clashes_iff hke hd).1 hc
    exact ⟨k, hk.mem, hk, Block.declares_iff.2 ⟨e, hke⟩, Block.declares_iff.2 ⟨d, hd⟩, hname, hne⟩
  · rintro ⟨k, -, hk, hdecl, -, hname, hne⟩
    obtain ⟨e, he⟩ := Block.declares_iff.1 hdecl
    exact ⟨e, h.mem_declarations.2 ⟨k, hk, hname, he⟩, (Block.declaration_clashes_iff he hd).2 hne⟩

/-- A block whose identity has come before leaves everything but the violations as it is. -/
theorem Follows.visit_repeat (h : p.Follows bs) {b : Block} (hb : b.id ∈ bs.map Block.id) :
    (p.visit b).Follows (bs ++ [b]) := by
  have hvisit : p.visit b = { p with violations := p.violations ++ [.duplicateId b.id] } :=
    if_pos (h.mem_ids.2 hb)
  have hremains : ∀ k : Block, k.RemainsIn (bs ++ [b]) ↔ k.RemainsIn bs := fun k => by
    rw [Block.remainsIn_concat, or_iff_left fun hk => hk.2 hb]
  rw [hvisit]
  refine ⟨fun {id} => ?_, fun {name d} => ?_, ?_⟩
  · -- the identity is among those of the blocks already
    rw [List.map_append, List.mem_append, h.mem_ids, List.map_singleton, List.mem_singleton,
      or_iff_left_of_imp fun hid => hid ▸ hb]
  · simp only [hremains]
    exact h.mem_declarations
  · rw [withBefore_concat, Block.share, if_pos hb, h.violations_eq]

/-- A block with a new identity leaves its declaration, if it makes one, under its name. -/
theorem mem_declarations_visit {b : Block} (hb : b.id ∉ p.ids) {name : String} {e : Declaration} :
    e ∈ (p.visit b).declarations name ↔
      e ∈ p.declarations name ∨ (b.name = name ∧ Declaration.ofKind? b.kind = some e) := by
  rw [visit, if_neg hb]
  cases hd : Declaration.ofKind? b.kind with
  | none => exact (or_iff_left fun h => nomatch h.2).symm
  | some d =>
    dsimp only
    rw [declarations_declare, List.mem_append]
    refine or_congr Iff.rfl ?_
    by_cases hname : name = b.name
    · simp [hname, eq_comm]
    · simp [hname, Ne.symm hname]

/-- A block with a new identity is checked by itself, and its declaration against the table. -/
theorem Follows.violations_visit (h : p.Follows bs) {b : Block} (hb : b.id ∉ bs.map Block.id) :
    (p.visit b).violations = p.violations ++ b.share bs := by
  rw [visit, if_neg (mt h.mem_ids.1 hb), Block.share, if_neg hb]
  cases hd : Declaration.ofKind? b.kind with
  | none =>
    -- a block that declares nothing clashes with none, and the table is not asked
    have hclash : ¬ ∃ k ∈ bs, k.RemainsIn bs ∧ k.Clashes b := by
      rintro ⟨k, -, -, -, hdecl, -⟩
      obtain ⟨d, hd'⟩ := Block.declares_iff.1 hdecl
      cases hd.symm.trans hd'
    rw [if_neg hclash, List.append_nil]
  | some d =>
    have hwhen : when ((p.declarations b.name).any fun e => e.clashes d)
        (.duplicateName b.id b.name) =
          if ∃ k ∈ bs, k.RemainsIn bs ∧ k.Clashes b then [.duplicateName b.id b.name] else [] := by
      unfold when
      exact if_congr (h.clashes_iff hd) rfl rfl
    rw [← hwhen, ← List.append_assoc]
    rfl

/-- **One step:** the pass goes over one more block. -/
theorem Follows.visit (h : p.Follows bs) (b : Block) : (p.visit b).Follows (bs ++ [b]) := by
  by_cases hb : b.id ∈ bs.map Block.id
  · exact h.visit_repeat hb
  · have hnew : b.id ∉ p.ids := mt h.mem_ids.1 hb
    refine ⟨fun {id} => ?_, fun {name e} => ?_, ?_⟩
    · have hids : (p.visit b).ids = p.ids ++ [b.id] := by
        rw [Pass.visit, if_neg hnew]
        cases Declaration.ofKind? b.kind <;> rfl
      rw [hids, List.map_append, List.mem_append, List.mem_append, h.mem_ids]
      rfl
    · rw [mem_declarations_visit hnew, h.mem_declarations]
      simp only [Block.remainsIn_concat, and_iff_left hb, or_and_right, exists_or, exists_eq_left]
    · rw [h.violations_visit hb, withBefore_concat, h.violations_eq]

/-- **The whole pass** has gone over all blocks. -/
theorem follows_foldl (bs : List Block) : (bs.foldl Pass.visit start).Follows bs := by
  induction bs using List.reverseRecOn with
  | nil => exact follows_start
  | append_singleton bs b ih =>
    rw [List.foldl_concat]
    exact ih.visit b

end Pass
end Validation

/-! ### The violations of a contract -/

/-- **The violations without the table:** each block adds its share. -/
theorem Contract.violations_eq (c : Contract) : c.violations = withBefore Block.share c.blocks :=
  (Validation.Pass.follows_foldl c.blocks).violations_eq

/-- **No block adds anything** exactly if the identities are distinct, each block breaks no rule,
and no two blocks clash. -/
theorem withBefore_share_eq_nil_iff (bs : List Block) :
    withBefore Block.share bs = [] ↔
      (bs.map Block.id).Nodup ∧ (∀ b ∈ bs, b.violations = []) ∧
        bs.Pairwise fun a b => ¬ a.Clashes b := by
  induction bs using List.reverseRecOn with
  | nil => simp [withBefore]
  | append_singleton bs b ih =>
    rw [withBefore_concat, List.append_eq_nil_iff, ih, Block.share_eq_nil_iff, List.map_append,
      List.map_singleton, ← List.concat_eq_append, List.nodup_concat, List.forall_mem_append,
      List.forall_mem_singleton, List.pairwise_append]
    constructor
    · rintro ⟨⟨hnodup, hown, hpairs⟩, hid, hb, hclash⟩
      refine ⟨⟨hid, hnodup⟩, ⟨hown, hb⟩, hpairs, List.pairwise_singleton .., fun k hk x hx => ?_⟩
      rw [List.mem_singleton.1 hx]
      exact hclash k hk ((Block.remainsIn_iff_of_nodup hnodup).2 hk)
    · rintro ⟨⟨hid, hnodup⟩, ⟨hown, hb⟩, hpairs, -, hclash⟩
      have hb' := List.mem_singleton_self b
      exact ⟨⟨hnodup, hown, hpairs⟩, hid, hb, fun k hk _ => hclash k hk b hb'⟩

namespace Contract

/-- A contract is judged by its blocks one by one and two by two. -/
structure JudgedPairwise (c : Contract) : Prop where
  /-- It breaks no rule exactly if the identities are distinct, no block breaks a rule by itself,
  and any two blocks that declare one name overload each other. -/
  valid_iff : c.violations = [] ↔
    (c.blocks.map Block.id).Nodup ∧ (∀ b ∈ c.blocks, b.violations = []) ∧
      c.blocks.Pairwise fun a b => a.Declares → b.Declares → a.name = b.name → a.Overloads b
  /-- In whatever order the blocks are, that is the same. -/
  valid_of_perm : ∀ d : Contract, d.components.Perm c.components →
    (d.violations = [] ↔ c.violations = [])
  /-- Each block adds its share: the repeat of an identity once and alone, else its own violations
  and at most one name that is taken, exactly if it clashes with an earlier block that remains. -/
  violations_eq : c.violations = withBefore Block.share c.blocks

theorem valid_iff_pairwise (c : Contract) :
    c.violations = [] ↔
      (c.blocks.map Block.id).Nodup ∧ (∀ b ∈ c.blocks, b.violations = []) ∧
        c.blocks.Pairwise fun a b => a.Declares → b.Declares → a.name = b.name → a.Overloads b := by
  simp only [violations_eq, withBefore_share_eq_nil_iff, Block.not_clashes_iff]

/-- **Validation has no hidden order.**  The pass keeps a table by names and skips repeats, but what
it reports is worked out from each block and its relation to single blocks before it, and whether it
reports anything is a matter of the blocks and of pairs of them. -/
theorem judged_pairwise (c : Contract) : c.JudgedPairwise where
  valid_iff := c.valid_iff_pairwise
  valid_of_perm d hd := by
    have hblocks : d.blocks.Perm c.blocks := hd.map _
    have hsymm : ∀ {a b : Block}, (a.Declares → b.Declares → a.name = b.name → a.Overloads b) →
        b.Declares → a.Declares → b.name = a.name → b.Overloads a :=
      fun h hb ha hname => (h ha hb hname.symm).symm
    rw [valid_iff_pairwise, valid_iff_pairwise, (hblocks.map Block.id).nodup_iff,
      hblocks.pairwise_iff hsymm]
    simp only [hblocks.mem_iff]
  violations_eq := c.violations_eq

end Contract
end ContractBlocks
