/-
# Reading what was written

The reader takes a document back off its tokens and leaves what follows them; more fuel than tokens is
enough (`readValue_toTokens`).  With the tokens of the written text that makes both texts of a document
read as the document (`read_compactText`, `read_prettyText`), if its literals have values and its
numbers read back.

Whatever a text is, the integers of the document that it is read as are in range (`inRange_of_read`).
-/

import ContractBlocks.Proofs.Json.Lexing

namespace ContractBlocks
namespace Json

/-! ### A document off its tokens -/

/-- The tokens of a value do not begin with the end of a list. -/
theorem exists_toTokens (j : Json) :
    ∃ t ts, toTokens j = t :: ts ∧ t ≠ .arrayEnd ∧ t ≠ .objectEnd := by
  cases j <;> exact ⟨_, _, rfl, by simp, by simp⟩

theorem exists_itemTokens (j : Json) (js : List Json) :
    ∃ t ts, itemTokens (j :: js) = t :: ts ∧ t ≠ .arrayEnd := by
  obtain ⟨t, ts, ht, hne, -⟩ := exists_toTokens j
  cases js with
  | nil => exact ⟨t, ts, by rw [itemTokens, ht], hne⟩
  | cons k js => exact ⟨t, ts ++ .comma :: itemTokens (k :: js), by rw [itemTokens, ht]; rfl, hne⟩

theorem exists_fieldTokens (f : String × Json) (fs : List (String × Json)) :
    ∃ ts, fieldTokens (f :: fs) = .string (some f.1) :: ts := by
  cases fs with
  | nil => exact ⟨_, rfl⟩
  | cons g fs => exact ⟨_, rfl⟩

/-- With this fuel a value is read off its tokens. -/
def ReadsAt (fuel : Nat) (j : Json) : Prop :=
  ∀ rest, readValue fuel (toTokens j ++ rest) = some (j, rest)

/-- Items are read up to their end. -/
theorem readItems_itemTokens {j : Json} {js : List Json} {fuel : Nat}
    (h : ∀ k ∈ j :: js, ∀ fuel, (toTokens k).length < fuel → ReadsAt fuel k)
    (hfuel : (itemTokens (j :: js)).length + 1 < fuel) (rest : List Token) :
    readItems fuel (itemTokens (j :: js) ++ .arrayEnd :: rest) = some (j :: js, rest) := by
  induction js generalizing j fuel with
  | nil =>
    cases fuel with
    | zero => omega
    | succ fuel =>
      have hj := h j List.mem_cons_self fuel (by rw [itemTokens] at hfuel; omega)
      rw [itemTokens, readItems, hj]
  | cons k js ih =>
    cases fuel with
    | zero => omega
    | succ fuel =>
      rw [itemTokens, List.length_append, List.length_cons] at hfuel
      have hj := h j List.mem_cons_self fuel (by omega)
      have hlen : (itemTokens (k :: js)).length + 1 < fuel := by omega
      have hjs := ih (fun k hk => h k (List.mem_cons_of_mem _ hk)) hlen
      rw [itemTokens, List.append_assoc, List.cons_append, readItems, hj]
      simp only [hjs, Option.map_some]

/-- Fields are read up to their end. -/
theorem readFields_fieldTokens {f : String × Json} {fs : List (String × Json)} {fuel : Nat}
    (h : ∀ g ∈ f :: fs, ∀ fuel, (toTokens g.2).length < fuel → ReadsAt fuel g.2)
    (hfuel : (fieldTokens (f :: fs)).length + 1 < fuel) (rest : List Token) :
    readFields fuel (fieldTokens (f :: fs) ++ .objectEnd :: rest) =
      some ((f :: fs).map fun g => (some g.1, g.2), rest) := by
  induction fs generalizing f fuel with
  | nil =>
    cases fuel with
    | zero => omega
    | succ fuel =>
      rw [fieldTokens, List.length_cons, List.length_cons] at hfuel
      have hf := h f List.mem_cons_self fuel (by omega)
      rw [fieldTokens, List.cons_append, List.cons_append, readFields, hf]
      rfl
  | cons g fs ih =>
    cases fuel with
    | zero => omega
    | succ fuel =>
      rw [fieldTokens, List.length_cons, List.length_cons, List.length_append,
        List.length_cons] at hfuel
      have hf := h f List.mem_cons_self fuel (by omega)
      have hlen : (fieldTokens (g :: fs)).length + 1 < fuel := by omega
      have hfs := ih (fun g hg => h g (List.mem_cons_of_mem _ hg)) hlen
      rw [fieldTokens, List.cons_append, List.cons_append, List.append_assoc, List.cons_append,
        readFields, hf]
      simp only [hfs, Option.map_some, List.map_cons]

theorem ofFields_some (fields : List (String × Json)) :
    ofFields (fields.map fun f => (some f.1, f.2)) = .object fields := by
  have hm : (fields.map fun f => (some f.1, f.2)).mapM
      (fun f : Option String × Json => f.1.map fun k => (k, f.2)) = some fields := by
    induction fields with
    | nil => rfl
    | cons f fs ih => simp [List.mapM_cons, ih]
  rw [ofFields, hm]

/-- **A document is read off its tokens,** and what follows them is left. -/
theorem readsAt_of_length_lt {p : Number.Value → Prop} {room : Nat} {j : Json} (h : j.Fits p room)
    {fuel : Nat} (hfuel : (toTokens j).length < fuel) : ReadsAt fuel j := by
  induction j generalizing room fuel with
  | array items ih =>
    obtain ⟨inner, rfl, hall⟩ := fits_array_iff.1 h
    intro rest
    cases fuel with
    | zero => omega
    | succ fuel =>
      rw [toTokens, List.length_cons, List.length_append, List.length_singleton] at hfuel
      rw [toTokens, List.cons_append, List.append_assoc, List.singleton_append]
      cases items with
      | nil => rfl
      | cons j js =>
        have hitems := readItems_itemTokens (fun k hk _ => ih k hk (hall k hk))
          (show (itemTokens (j :: js)).length + 1 < fuel by omega) rest
        obtain ⟨t, ts, ht, hne⟩ := exists_itemTokens j js
        rw [ht, List.cons_append] at hitems ⊢
        simp [readValue, hne, hitems]
  | object fields ih =>
    obtain ⟨inner, rfl, hall⟩ := fits_object_iff.1 h
    intro rest
    cases fuel with
    | zero => omega
    | succ fuel =>
      rw [toTokens, List.length_cons, List.length_append, List.length_singleton] at hfuel
      rw [toTokens, List.cons_append, List.append_assoc, List.singleton_append]
      cases fields with
      | nil => rfl
      | cons f fs =>
        have hfields := readFields_fieldTokens (fun g hg _ => ih g hg (hall g hg))
          (show (fieldTokens (f :: fs)).length + 1 < fuel by omega) rest
        obtain ⟨ts, ht⟩ := exists_fieldTokens f fs
        rw [ht, List.cons_append] at hfields ⊢
        simp only [readValue, hfields, Option.map_some, ofFields_some]
  | unreadable => exact absurd h not_fits_unreadable
  | null | bool | number | string =>
    intro rest
    cases fuel with
    | zero => omega
    | succ fuel => rfl

theorem ofTokens_toTokens {p : Number.Value → Prop} {room : Nat} {j : Json} (h : j.Fits p room) :
    ofTokens (toTokens j) = some j := by
  have hread := readsAt_of_length_lt h (Nat.lt_succ_self _) []
  rw [List.append_nil] at hread
  rw [ofTokens, hread]

section Texts

variable {room : Nat} {j : Json} (h : j.Fits Number.Value.ReadsBack room)

include h

/-- **The compact text of a document is read as the document.** -/
theorem read_compactText : read (compactText j) = some j := by
  rw [read, (lexes_compactText h).tokens_eq, Option.bind_some, ofTokens_toTokens h]

/-- **The pretty text of a document is read as the document.** -/
theorem read_prettyText : read (prettyText 0 j) = some j := by
  rw [read, (lexes_prettyText h 0).tokens_eq, Option.bind_some, ofTokens_toTokens h]

/-- A line feed behind the pretty text makes no difference. -/
theorem read_prettyText_newline : read (prettyText 0 j ++ ['\n']) = some j := by
  have hlexes := lexes_prettyText h 0 ['\n'] ⟨by decide, by decide⟩
  have hnone : tokens ['\n'] = some [] := by
    rw [tokens_of_isSpace rfl, tokens]
  rw [read, hlexes, hnone, Option.map_some, List.append_nil, Option.bind_some, ofTokens_toTokens h]

end Texts

/-! ### What is read is in range -/

/-- The integer that the token may be is in range. -/
def Token.InRange : Token → Prop
  | .literal j => j.InRange
  | _ => True

theorem inRange_of_nextToken {c : Char} {cs rest : List Char} {t : Token}
    (h : nextToken c cs = some (t, rest)) : t.InRange := by
  unfold nextToken at h
  split at h
  case h_7 =>
    obtain ⟨r, -, h⟩ := Option.bind_eq_some_iff.1 h
    obtain ⟨codes, -, h⟩ := Option.bind_eq_some_iff.1 h
    obtain ⟨rfl, -⟩ := Prod.mk.inj (Option.some.inj h)
    trivial
  case h_8 =>
    split at h
    · obtain ⟨n, -, h⟩ := Option.bind_eq_some_iff.1 h
      obtain ⟨rfl, -⟩ := Prod.mk.inj (Option.some.inj h)
      cases hv : n.value? with
      | none => exact fun m hm => absurd hm List.not_mem_nil
      | some v =>
        exact fun m hm => List.mem_singleton.1 hm ▸ Number.Numeral.inRange_of_value? hv
    · split at h
      case h_4 => cases h
      all_goals
        obtain ⟨rfl, -⟩ := Prod.mk.inj (Option.some.inj h)
        exact fun m hm => absurd hm List.not_mem_nil
  all_goals
    obtain ⟨rfl, -⟩ := Prod.mk.inj (Option.some.inj h)
    trivial

theorem inRange_of_tokens {cs : List Char} {ts : List Token} (h : tokens cs = some ts) :
    ∀ t ∈ ts, t.InRange := by
  fun_induction tokens cs generalizing ts with
  | case1 => exact Option.some.inj h ▸ fun t ht => absurd ht List.not_mem_nil
  | case2 c cs hs ih => exact ih h
  | case3 c cs hs hn => cases h
  | case4 c cs hs t rest hn ih =>
    obtain ⟨us, hus, rfl⟩ := Option.map_eq_some_iff.1 h
    exact List.forall_mem_cons.2 ⟨inRange_of_nextToken hn, ih hus⟩

/-- With this fuel, what is read off tokens in range is in range, and so are the tokens left. -/
structure ReadsInRange (fuel : Nat) : Prop where
  value : ∀ {ts rest : List Token} {j : Json}, (∀ t ∈ ts, t.InRange) →
    readValue fuel ts = some (j, rest) → j.InRange ∧ ∀ t ∈ rest, t.InRange
  items : ∀ {ts rest : List Token} {items : List Json}, (∀ t ∈ ts, t.InRange) →
    readItems fuel ts = some (items, rest) → (∀ j ∈ items, j.InRange) ∧ ∀ t ∈ rest, t.InRange
  fields : ∀ {ts rest : List Token} {fields : List (Option String × Json)},
    (∀ t ∈ ts, t.InRange) → readFields fuel ts = some (fields, rest) →
      (∀ f ∈ fields, f.2.InRange) ∧ ∀ t ∈ rest, t.InRange

theorem inRange_ofFields {fields : List (Option String × Json)} (h : ∀ f ∈ fields, f.2.InRange) :
    (ofFields fields).InRange := by
  unfold ofFields
  split
  · next fs hfs =>
    refine inRange_object.2 fun f hf => ?_
    induction fields generalizing fs with
    | nil =>
      rw [List.mapM_nil] at hfs
      exact absurd hf (Option.some.inj hfs ▸ List.not_mem_nil)
    | cons g gs ih =>
      obtain ⟨hg, hgs⟩ := List.forall_mem_cons.1 h
      rw [List.mapM_cons] at hfs
      obtain ⟨g', hg', hfs⟩ := Option.bind_eq_some_iff.1 hfs
      obtain ⟨gs', hgs', hfs⟩ := Option.bind_eq_some_iff.1 hfs
      obtain rfl := Option.some.inj hfs
      rcases List.mem_cons.1 hf with rfl | hf
      · obtain ⟨k, -, rfl⟩ := Option.map_eq_some_iff.1 hg'
        exact hg
      · exact ih hgs gs' hgs' hf
  · exact fun n hn => absurd hn List.not_mem_nil

theorem readsInRange_zero : ReadsInRange 0 where
  value _ h := by cases h
  items _ h := by cases h
  fields _ h := by cases h

namespace ReadsInRange

variable {fuel : Nat} {ts rest : List Token}

theorem value_succ (ih : ReadsInRange fuel) {j : Json} (hts : ∀ t ∈ ts, t.InRange)
    (h : readValue (fuel + 1) ts = some (j, rest)) : j.InRange ∧ ∀ t ∈ rest, t.InRange := by
  cases ts with
  | nil => cases h
  | cons t ts =>
    obtain ⟨ht, htail⟩ := List.forall_mem_cons.1 hts
    cases t with
    | literal v =>
      obtain ⟨rfl, rfl⟩ := Prod.mk.inj (Option.some.inj h)
      exact ⟨ht, htail⟩
    | string s =>
      obtain ⟨rfl, rfl⟩ := Prod.mk.inj (Option.some.inj h)
      exact ⟨by cases s <;> exact fun n hn => absurd hn List.not_mem_nil, htail⟩
    | arrayStart =>
      dsimp only [readValue] at h
      split at h
      · obtain ⟨rfl, rfl⟩ := Prod.mk.inj (Option.some.inj h)
        exact ⟨by simp, (List.forall_mem_cons.1 htail).2⟩
      · obtain ⟨r, hr, h⟩ := Option.map_eq_some_iff.1 h
        obtain ⟨rfl, rfl⟩ := Prod.mk.inj h
        obtain ⟨hitems, hrest⟩ := ih.items htail hr
        exact ⟨inRange_array.2 hitems, hrest⟩
    | objectStart =>
      dsimp only [readValue] at h
      split at h
      · obtain ⟨rfl, rfl⟩ := Prod.mk.inj (Option.some.inj h)
        exact ⟨by simp, (List.forall_mem_cons.1 htail).2⟩
      · obtain ⟨r, hr, h⟩ := Option.map_eq_some_iff.1 h
        obtain ⟨rfl, rfl⟩ := Prod.mk.inj h
        obtain ⟨hfields, hrest⟩ := ih.fields htail hr
        exact ⟨inRange_ofFields hfields, hrest⟩
    | arrayEnd | objectEnd | comma | colon => cases h

theorem items_succ (ih : ReadsInRange fuel) {items : List Json} (hts : ∀ t ∈ ts, t.InRange)
    (h : readItems (fuel + 1) ts = some (items, rest)) :
    (∀ j ∈ items, j.InRange) ∧ ∀ t ∈ rest, t.InRange := by
  rw [readItems] at h
  split at h
  · next v after hv =>
    obtain ⟨hj, hafter⟩ := ih.value hts hv
    obtain ⟨r, hr, h⟩ := Option.map_eq_some_iff.1 h
    obtain ⟨rfl, rfl⟩ := Prod.mk.inj h
    obtain ⟨hitems, hrest⟩ := ih.items (List.forall_mem_cons.1 hafter).2 hr
    exact ⟨List.forall_mem_cons.2 ⟨hj, hitems⟩, hrest⟩
  · next v after hv =>
    obtain ⟨hj, hafter⟩ := ih.value hts hv
    obtain ⟨rfl, rfl⟩ := Prod.mk.inj (Option.some.inj h)
    exact ⟨List.forall_mem_singleton.2 hj, (List.forall_mem_cons.1 hafter).2⟩
  · cases h

theorem fields_succ (ih : ReadsInRange fuel) {fields : List (Option String × Json)}
    (hts : ∀ t ∈ ts, t.InRange) (h : readFields (fuel + 1) ts = some (fields, rest)) :
    (∀ f ∈ fields, f.2.InRange) ∧ ∀ t ∈ rest, t.InRange := by
  unfold readFields at h
  split at h
  · next fuel k ts heq =>
    have hvalue : ∀ t ∈ ts, t.InRange := fun t ht =>
      hts t (List.mem_cons_of_mem _ (List.mem_cons_of_mem _ ht))
    cases heq
    split at h
    · next v after hv =>
      obtain ⟨hj, hafter⟩ := ih.value hvalue hv
      obtain ⟨r, hr, h⟩ := Option.map_eq_some_iff.1 h
      obtain ⟨rfl, rfl⟩ := Prod.mk.inj h
      obtain ⟨hfields, hrest⟩ := ih.fields (List.forall_mem_cons.1 hafter).2 hr
      exact ⟨List.forall_mem_cons.2 ⟨hj, hfields⟩, hrest⟩
    · next v after hv =>
      obtain ⟨hj, hafter⟩ := ih.value hvalue hv
      obtain ⟨rfl, rfl⟩ := Prod.mk.inj (Option.some.inj h)
      exact ⟨List.forall_mem_singleton.2 hj, (List.forall_mem_cons.1 hafter).2⟩
    · cases h
  · cases h

theorem succ (ih : ReadsInRange fuel) : ReadsInRange (fuel + 1) :=
  ⟨ih.value_succ, ih.items_succ, ih.fields_succ⟩

end ReadsInRange

theorem readsInRange (fuel : Nat) : ReadsInRange fuel := by
  induction fuel with
  | zero => exact readsInRange_zero
  | succ fuel ih => exact ih.succ

/-- **The integers of a document that is read are in range.** -/
theorem inRange_of_read {cs : List Char} {j : Json} (h : read cs = some j) : j.InRange := by
  obtain ⟨ts, hts, h⟩ := Option.bind_eq_some_iff.1 h
  unfold ofTokens at h
  split at h
  · next v hv =>
    obtain rfl := Option.some.inj h
    exact ((readsInRange _).value (inRange_of_tokens hts) hv).1
  · cases h

end Json
end ContractBlocks
