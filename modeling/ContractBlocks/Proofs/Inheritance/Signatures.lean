/-
# The signatures that a contract inherits

The functions that the ancestors of a contract declare are gone through one after another, and each
is entered among the signatures met so far.  The step is about a list with one entry for each of
some signatures: entering a function changes the entry of its signature, or puts one more behind if
the signature is new (`InheritedSignature.enter_map`).  What the entries hold can be told for each
signature by itself (`InheritedSignature.gathered`): the contracts that declare it, in the order of
their first declarations, and whether any declaration is overridden.  By induction on the functions
there is one such entry for each signature in the end, in the order in which the signatures are met
first (`InheritedSignature.collect_eq`).

No ancestor of a contract comes twice, so the contracts that declare a signature are the ancestors
that have it (`InheritedSignature.eraseDups_declarers`), and `Project.ambiguities_eq` tells the
ambiguities of a contract signature by signature.
-/

import ContractBlocks.Proofs.Inheritance.Detectors

namespace ContractBlocks
namespace InheritedSignature

/-! ### One function -/

/-- **Entering a function** among entries for distinct signatures changes the entry of its signature,
or puts one behind the others. -/
theorem enter_map {entry : String → InheritedSignature} (hentry : ∀ s, (entry s).signature = s)
    (f : AncestorFunction) (isOverridden : Bool) {met : List String} (hmet : met.Nodup) :
    enter f isOverridden (met.map entry) =
      if f.signature ∈ met then
        met.map fun s => if s = f.signature then (entry s).declare f.source isOverridden else entry s
      else met.map entry ++ [.ofFunction f isOverridden] := by
  induction met with
  | nil => rfl
  | cons s met ih =>
    obtain ⟨hs, hmet⟩ := List.nodup_cons.1 hmet
    rw [List.map_cons, enter, hentry]
    by_cases hsig : s = f.signature
    · have hrest : (met.map fun t =>
          if t = f.signature then (entry t).declare f.source isOverridden else entry t) =
            met.map entry := by
        refine List.map_congr_left fun t ht => if_neg ?_
        rintro rfl
        exact hs (hsig ▸ ht)
      rw [if_pos hsig, if_pos (hsig ▸ List.mem_cons_self), List.map_cons, if_pos hsig, hrest]
    · have hmem : f.signature ∈ s :: met ↔ f.signature ∈ met := by
        rw [List.mem_cons, or_iff_right (Ne.symm hsig)]
      rw [if_neg hsig, ih hmet]
      simp only [hmem, List.map_cons, if_neg hsig]
      split <;> rfl

/-! ### All functions -/

variable {overridden : List BlockId} {fs : List AncestorFunction} {f : AncestorFunction} {s : String}

/-- Who declares a signature, once for each function. -/
def declarers (fs : List AncestorFunction) (s : String) : List Contract :=
  (fs.filter fun f => f.signature = s).map AncestorFunction.source

/-- What there is to say about a signature after some functions: who declares it, in the order of
the first declarations, and whether any declaration is overridden. -/
def gathered (overridden : List BlockId) (fs : List AncestorFunction) (s : String) :
    InheritedSignature where
  signature := s
  sources := (declarers fs s).eraseDups
  isOverridden := fs.any fun f => f.signature == s && overridden.contains f.id

/-- Nothing is to say about a signature that no function has. -/
theorem gathered_of_notMem (hs : s ∉ fs.map AncestorFunction.signature) :
    gathered overridden fs s = ⟨s, [], false⟩ := by
  have hnone : ∀ f ∈ fs, f.signature ≠ s := fun f hf heq => hs (heq ▸ List.mem_map_of_mem hf)
  have hfilter : (fs.filter fun f => f.signature = s) = [] :=
    List.filter_eq_nil_iff.2 fun f hf => by simpa using hnone f hf
  have hany : (fs.any fun f => f.signature == s && overridden.contains f.id) = false :=
    List.any_eq_false.2 fun f hf => by simp [hnone f hf]
  rw [gathered, declarers, hfilter, hany]
  rfl

/-- **One more function** adds something to what there is to say about its own signature only. -/
theorem gathered_concat (overridden : List BlockId)
    (hid : ∀ g ∈ fs, g.source.id = f.source.id → g.source = f.source) (s : String) :
    gathered overridden (fs ++ [f]) s =
      if s = f.signature then (gathered overridden fs s).declare f.source (overridden.contains f.id)
      else gathered overridden fs s := by
  by_cases hs : s = f.signature
  · have hdeclarers : declarers (fs ++ [f]) s = declarers fs s ++ [f.source] := by
      simp [declarers, List.filter_append, hs]
    have hany : ((fs ++ [f]).any fun g => g.signature == s && overridden.contains g.id) =
        ((fs.any fun g => g.signature == s && overridden.contains g.id) ||
          overridden.contains f.id) := by
      simp [List.any_append, hs]
    -- a source of that identity is the source itself
    have hsource : ((declarers fs s).eraseDups.any fun c => c.id == f.source.id) ↔
        f.source ∈ (declarers fs s).eraseDups := by
      simp only [List.any_eq_true, beq_iff_eq, List.mem_eraseDups]
      constructor
      · rintro ⟨c, hc, hcid⟩
        obtain ⟨g, hg, rfl⟩ := List.mem_map.1 hc
        exact hid g (List.mem_filter.1 hg).1 hcid ▸ hc
      · exact fun hc => ⟨f.source, hc, rfl⟩
    rw [if_pos hs, gathered, hdeclarers, hany, eraseDups_concat]
    simp only [gathered, declare, hsource]
  · have hdeclarers : declarers (fs ++ [f]) s = declarers fs s := by
      simp [declarers, List.filter_append, Ne.symm hs]
    have hany : ((fs ++ [f]).any fun g => g.signature == s && overridden.contains g.id) =
        fs.any fun g => g.signature == s && overridden.contains g.id := by
      simp [List.any_append, Ne.symm hs]
    rw [if_neg hs, gathered, hdeclarers, hany, gathered]

/-- **What is collected** is one entry for each signature, in the order in which the signatures are
met first, with all that there is to say about it. -/
theorem collect_eq (overridden : List BlockId)
    (hid : ∀ f ∈ fs, ∀ g ∈ fs, g.source.id = f.source.id → g.source = f.source) :
    collect overridden fs =
      (fs.map AncestorFunction.signature).eraseDups.map (gathered overridden fs) := by
  induction fs using List.reverseRecOn with
  | nil => rfl
  | append_singleton fs f ih =>
    have hfs : ∀ g ∈ fs, g ∈ fs ++ [f] := fun g hg => List.mem_append_left _ hg
    have hstep := gathered_concat overridden fun g hg => hid f List.mem_concat_self g (hfs g hg)
    have hentry : ∀ s, (gathered overridden fs s).signature = s := fun _ => rfl
    have henter := enter_map hentry f (overridden.contains f.id)
      (nodup_eraseDups (fs.map AncestorFunction.signature))
    rw [collect, List.foldl_append, ← collect, ih fun g hg h hh => hid g (hfs g hg) h (hfs h hh),
      List.foldl_cons, List.foldl_nil, henter, List.map_append, List.map_singleton,
      eraseDups_concat]
    by_cases hmem : f.signature ∈ (fs.map AncestorFunction.signature).eraseDups
    · rw [if_pos hmem, if_pos hmem]
      exact List.map_congr_left fun s _ => (hstep s).symm
    · -- nothing is known yet of a signature that is met now
      have hothers : ∀ s ∈ (fs.map AncestorFunction.signature).eraseDups,
          gathered overridden (fs ++ [f]) s = gathered overridden fs s := by
        intro s hs
        refine (hstep s).trans (if_neg ?_)
        rintro rfl
        exact hmem hs
      have hnew : gathered overridden (fs ++ [f]) f.signature =
          .ofFunction f (overridden.contains f.id) := by
        rw [hstep, if_pos rfl, gathered_of_notMem fun h => hmem (List.mem_eraseDups.2 h)]
        simp [declare, ofFunction]
      rw [if_neg hmem, if_neg hmem, List.map_append, List.map_singleton, hnew,
        List.map_congr_left hothers]

/-! ### Who declares a signature -/

theorem declarers_append (fs gs : List AncestorFunction) (s : String) :
    declarers (fs ++ gs) s = declarers fs s ++ declarers gs s := by
  rw [declarers, List.filter_append, List.map_append, declarers, declarers]

theorem mem_declarers_iff {cs : List Contract} {d : Contract} :
    d ∈ declarers (cs.flatMap Contract.ancestorFunctions) s ↔ d ∈ cs ∧ s ∈ d.signatures := by
  simp only [declarers, Contract.ancestorFunctions, Contract.signatures, List.mem_map,
    List.mem_filter, List.mem_flatMap, decide_eq_true_eq]
  constructor
  · rintro ⟨_, ⟨⟨c, hc, f, hf, rfl⟩, rfl⟩, rfl⟩
    exact ⟨hc, f, hf, rfl⟩
  · rintro ⟨hd, f, hf, rfl⟩
    exact ⟨_, ⟨⟨d, hd, f, hf, rfl⟩, rfl⟩, rfl⟩

/-- If all members of a list are the same, one of them is kept. -/
theorem eraseDups_eq_singleton {α : Type} [BEq α] [LawfulBEq α] {xs : List α} {x : α}
    (hne : xs ≠ []) (hx : ∀ y ∈ xs, y = x) : xs.eraseDups = [x] := by
  obtain ⟨y, ys, rfl⟩ := List.exists_cons_of_ne_nil hne
  have hnone : (ys.filter fun z => !z == y) = [] := List.filter_eq_nil_iff.2 fun z hz => by
    simp [hx z (List.mem_cons_of_mem _ hz), hx y List.mem_cons_self]
  rw [List.eraseDups_cons, hnone, hx y List.mem_cons_self]
  rfl

/-- **Of different contracts, those that have a signature declare it,** in the same order. -/
theorem eraseDups_declarers (s : String) {cs : List Contract} (hcs : cs.Nodup) :
    (declarers (cs.flatMap Contract.ancestorFunctions) s).eraseDups =
      cs.filter fun d => d.signatures.contains s := by
  induction cs with
  | nil => rfl
  | cons c cs ih =>
    obtain ⟨hc, hcs⟩ := List.nodup_cons.1 hcs
    have hown : ∀ d, d ∈ declarers c.ancestorFunctions s ↔ d = c ∧ s ∈ d.signatures := fun d => by
      have hone : [c].flatMap Contract.ancestorFunctions = c.ancestorFunctions :=
        List.append_nil _
      rw [← hone, mem_declarers_iff, List.mem_singleton]
    have hapart : (declarers (cs.flatMap Contract.ancestorFunctions) s).removeAll
        (declarers c.ancestorFunctions s) = declarers (cs.flatMap Contract.ancestorFunctions) s := by
      refine List.filter_eq_self.2 fun d hd => ?_
      have hne : d ≠ c := ne_of_mem_of_not_mem (mem_declarers_iff.1 hd).1 hc
      simp [hown, hne]
    rw [List.flatMap_cons, declarers_append, List.eraseDups_append, hapart, ih hcs]
    by_cases hs : s ∈ c.signatures
    · have hne : declarers c.ancestorFunctions s ≠ [] :=
        List.ne_nil_of_mem ((hown c).2 ⟨rfl, hs⟩)
      rw [eraseDups_eq_singleton hne fun d hd => ((hown d).1 hd).1,
        List.filter_cons_of_pos (by simpa using hs)]
      rfl
    · have hnil : declarers c.ancestorFunctions s = [] :=
        List.eq_nil_iff_forall_not_mem.2 fun d hd => by
          obtain ⟨rfl, hds⟩ := (hown d).1 hd
          exact hs hds
      rw [hnil, List.filter_cons_of_neg (by simpa using hs)]
      rfl

end InheritedSignature

/-! ### The ambiguities signature by signature -/

namespace Project

/-- The ancestors of a contract stand in strict order of identity. -/
theorem pairwise_ancestorContracts (p : Project) (id : ContractId) :
    (p.ancestorContracts id).Pairwise fun a b => a.id < b.id := by
  refine (p.inheritance.pairwise_ancestors id).filterMap _ ?_
  intro a b hab d hd e he
  rw [id_of_contract? hd, id_of_contract? he]
  exact hab

/-- **The ambiguities of a contract, signature by signature:** each signature that an ancestor
declares is looked at once. -/
theorem ambiguities_eq (p : Project) (c : Contract) :
    p.ambiguities c =
      let ancestors := p.ancestorContracts c.id
      let declared := ancestors.flatMap Contract.ancestorFunctions
      (declared.map AncestorFunction.signature).eraseDups.filterMap fun s =>
        if s ∈ c.signatures ||
            declared.any fun f => f.signature == s && c.overriddenIds.contains f.id then none
        else
          let rivals := p.inheritance.mostDerived (ancestors.filter fun a => a.signatures.contains s)
          if 1 < rivals.length then some (.ambiguousFunction c.id s (rivals.map Contract.name))
          else none := by
  have hids : ((p.ancestorContracts c.id).map Contract.id).Nodup :=
    List.pairwise_map.2 ((p.pairwise_ancestorContracts c.id).imp ne_of_lt)
  have hsource : ∀ f ∈ (p.ancestorContracts c.id).flatMap Contract.ancestorFunctions,
      f.source ∈ p.ancestorContracts c.id := by
    intro f hf
    obtain ⟨d, hd, hf⟩ := List.mem_flatMap.1 hf
    obtain ⟨g, -, rfl⟩ := List.mem_map.1 hf
    exact hd
  have hsame : ∀ f ∈ (p.ancestorContracts c.id).flatMap Contract.ancestorFunctions,
      ∀ g ∈ (p.ancestorContracts c.id).flatMap Contract.ancestorFunctions,
        g.source.id = f.source.id → g.source = f.source := fun f hf g hg hid =>
    List.inj_on_of_nodup_map hids (hsource g hg) (hsource f hf) hid
  have hcollect := InheritedSignature.collect_eq c.overriddenIds hsame
  simp only [ambiguities, hcollect, List.filterMap_filter, List.filterMap_map]
  refine List.filterMap_congr fun s _ => ?_
  simp only [Function.comp_apply, InheritedSignature.gathered,
    InheritedSignature.eraseDups_declarers s hids.of_map]
  generalize ((p.ancestorContracts c.id).flatMap Contract.ancestorFunctions).any
    (fun f => f.signature == s && c.overriddenIds.contains f.id) = isOverridden
  by_cases hs : s ∈ c.signatures
  · simp [hs]
  · cases isOverridden <;> simp [hs]

end Project

end ContractBlocks
