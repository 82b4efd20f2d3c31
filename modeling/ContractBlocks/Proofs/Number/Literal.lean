/-
# Numbers in a text

What the reader takes for a number consists of the characters that the lexer gathers, and begins with
a minus sign or a digit (`Numeral.gathered_of_read`); an integer that it names is in range
(`Numeral.inRange_of_value?`).  The other way round, every integer in range is read from the text that
it is written as (`Value.readsBack_integer`).  Of a double that is not so in general, since reading
rounds more than once; `Value.ReadsBack` says of which numbers it is.
-/

import ContractBlocks.Proofs.Json.Structure
import ContractBlocks.Json.Writer

namespace ContractBlocks
namespace Number

/-- The number is read from the text that it is written as. -/
def Value.ReadsBack (v : Value) : Prop :=
  (Numeral.read (Json.doubleLayout.value v)).bind Numeral.value? = some v

instance (v : Value) : Decidable v.ReadsBack := inferInstanceAs (Decidable (_ = _))

/-! ### The characters of a literal -/

/-- Only characters that the lexer gathers for a number. -/
def Gathered (cs : List Char) : Prop := ∀ c ∈ cs, Json.isNumberChar c

theorem isNumberChar_of_isDigit {c : Char} (h : c.isDigit) : Json.isNumberChar c := by
  simp [Json.isNumberChar, h]

theorem isDigit_of_digit? {c : Char} {d : Nat} (h : digit? c = some d) : c.isDigit := by
  unfold digit? at h
  split at h
  · assumption
  · cases h

/-- The digits at the start of a text are digits, as many as are read. -/
theorem exists_of_takeDigits (cs : List Char) :
    ∃ front, cs = front ++ (takeDigits cs).2 ∧ front.length = (takeDigits cs).1.length ∧
      ∀ c ∈ front, c.isDigit := by
  induction cs with
  | nil => exact ⟨[], rfl, rfl, fun _ hc => absurd hc List.not_mem_nil⟩
  | cons c cs ih =>
    rw [takeDigits]
    split
    · next d hd =>
      obtain ⟨front, hcs, hlen, hfront⟩ := ih
      refine ⟨c :: front, ?_, ?_, List.forall_mem_cons.2 ⟨isDigit_of_digit? hd, hfront⟩⟩
      · rw [List.cons_append, ← hcs]
      · rw [List.length_cons, List.length_cons, hlen]
    · exact ⟨[], rfl, rfl, fun _ hc => absurd hc List.not_mem_nil⟩

namespace Numeral

theorem gathered_of_readPower {negative : Bool} {cs : List Char} {e : Int}
    (h : readPower negative cs = some e) : Gathered cs := by
  obtain ⟨front, hcs, -, hfront⟩ := exists_of_takeDigits cs
  unfold readPower at h
  split at h
  · cases h
  · next ds hds =>
    rw [hds, List.append_nil] at hcs
    exact fun c hc => isNumberChar_of_isDigit (hfront c (hcs ▸ hc))
  · cases h

theorem gathered_of_readExponent {cs : List Char} {e : Option Int}
    (h : readExponent cs = some e) : Gathered cs := by
  unfold readExponent at h
  split at h
  · exact fun _ hc => absurd hc List.not_mem_nil
  · next c cs =>
    split at h
    · next hc =>
      have he : Json.isNumberChar c := by rcases hc with rfl | rfl <;> decide
      refine List.forall_mem_cons.2 ⟨he, ?_⟩
      split at h
      all_goals obtain ⟨p, hp, -⟩ := Option.map_eq_some_iff.1 h
      · exact List.forall_mem_cons.2 ⟨by decide, gathered_of_readPower hp⟩
      · exact List.forall_mem_cons.2 ⟨by decide, gathered_of_readPower hp⟩
      · exact gathered_of_readPower hp
    · cases h

theorem gathered_of_readFraction {cs rest : List Char} {ds : List Nat}
    (h : readFraction cs = some (ds, rest)) (hrest : Gathered rest) : Gathered cs := by
  unfold readFraction at h
  split at h
  · next cs =>
    obtain ⟨front, hcs, -, hfront⟩ := exists_of_takeDigits cs
    refine List.forall_mem_cons.2 ⟨by decide, fun c hc => ?_⟩
    split at h
    · cases h
    · rw [hcs, Option.some.inj h] at hc
      exact (List.mem_append.1 hc).elim (fun hc => isNumberChar_of_isDigit (hfront c hc))
        (hrest c)
  · simp only [Option.some.injEq, Prod.mk.injEq] at h
    exact h.2 ▸ hrest

/-- A literal without its sign begins with a digit. -/
theorem gathered_of_readUnsigned {negative : Bool} {cs : List Char} {n : Numeral}
    (h : readUnsigned negative cs = some n) :
    Gathered cs ∧ ∃ c rest, cs = c :: rest ∧ c.isDigit := by
  obtain ⟨front, hcs, hlen, hfront⟩ := exists_of_takeDigits cs
  unfold readUnsigned at h
  split at h
  · cases h
  · cases h
  · next whole rest hne _ hds =>
    rw [hds] at hcs hlen
    obtain ⟨⟨fraction, after⟩, hfraction, h⟩ := Option.bind_eq_some_iff.1 h
    obtain ⟨e, he, -⟩ := Option.bind_eq_some_iff.1 h
    have hrest := gathered_of_readFraction hfraction (gathered_of_readExponent he)
    constructor
    · intro c hc
      rw [hcs] at hc
      exact (List.mem_append.1 hc).elim (fun hc => isNumberChar_of_isDigit (hfront c hc))
        (hrest c)
    · cases front with
      | nil => exact absurd (List.eq_nil_of_length_eq_zero hlen.symm) hne
      | cons c front => exact ⟨c, front ++ rest, hcs, hfront c List.mem_cons_self⟩

/-- **What is read as a literal is gathered by the lexer,** and begins as a number does. -/
theorem gathered_of_read {cs : List Char} {n : Numeral} (h : read cs = some n) :
    Gathered cs ∧ ∃ c rest, cs = c :: rest ∧ (c = '-' ∨ c.isDigit) := by
  unfold read at h
  split at h
  · next cs =>
    exact ⟨List.forall_mem_cons.2 ⟨by decide, (gathered_of_readUnsigned h).1⟩, '-', cs, rfl,
      Or.inl rfl⟩
  · obtain ⟨hg, c, rest, hcs, hc⟩ := gathered_of_readUnsigned h
    exact ⟨hg, c, rest, hcs, Or.inr hc⟩

/-- **An integer that a literal names is in range.** -/
theorem inRange_of_value? {n : Numeral} {v : Value} (h : n.value? = some v) : v.InRange := by
  have hsize : UInt64.size = 2 ^ 64 := rfl
  unfold value? at h
  split at h
  · next i hi =>
    obtain rfl := Option.some.inj h
    unfold integer? at hi
    split at hi
    · dsimp only at hi
      split at hi
      · split at hi
        · next hm =>
          simp only [Bool.and_eq_true, decide_eq_true_eq] at hm
          obtain rfl := Option.some.inj hi
          constructor <;> omega
        · cases hi
      · split at hi
        · obtain rfl := Option.some.inj hi
          constructor <;> omega
        · cases hi
    · cases hi
  · obtain ⟨x, -, rfl⟩ := Option.map_eq_some_iff.1 h
    trivial

end Numeral

/-! ### Integers read back -/

theorem ofDigits_concat (ds : List Nat) (d : Nat) : ofDigits (ds ++ [d]) = 10 * ofDigits ds + d := by
  simp [ofDigits]

theorem takeDigits_append {cs : List Char} {ds : List Nat} (h : takeDigits cs = (ds, []))
    (rest : List Char) :
    takeDigits (cs ++ rest) = (ds ++ (takeDigits rest).1, (takeDigits rest).2) := by
  induction cs generalizing ds with
  | nil =>
    obtain rfl : [] = ds := congrArg Prod.fst h
    rfl
  | cons c cs ih =>
    rw [takeDigits] at h
    rw [List.cons_append, takeDigits]
    split at h
    · next d hd =>
      simp only [Prod.mk.injEq] at h
      obtain ⟨rfl, hcs⟩ := h
      simp only [ih (Prod.ext rfl hcs), List.cons_append]
    · simp at h

theorem digit?_digitChar : ∀ d < 10, digit? (Nat.digitChar d) = some d := by decide

/-- The digits of a natural number spell it, and begin with a zero only if there is no other. -/
theorem exists_takeDigits_natText (n : Nat) : ∃ d ds, takeDigits (natText n) = (d :: ds, []) ∧
    ofDigits (d :: ds) = n ∧ (d = 0 → ds = []) := by
  induction n using Nat.strongRecOn with
  | ind n ih =>
    by_cases hn : n < 10
    · refine ⟨n, [], ?_, by simp [ofDigits], fun _ => rfl⟩
      rw [natText, Nat.toDigits_of_lt_base hn, takeDigits, digit?_digitChar n hn]
      rfl
    · obtain ⟨d, ds, htake, hof, hzero⟩ := ih (n / 10) (by omega)
      have hlast : n % 10 < 10 := Nat.mod_lt n (by decide)
      have hsplit : natText n = natText (n / 10) ++ [Nat.digitChar (n % 10)] := by
        rw [natText, natText, ← Nat.toDigits_of_lt_base hlast,
          Nat.toDigits_append_toDigits (by decide) (by omega) hlast, Nat.div_add_mod]
      refine ⟨d, ds ++ [n % 10], ?_, ?_, ?_⟩
      · rw [hsplit, takeDigits_append htake, takeDigits, digit?_digitChar _ hlast]
        rfl
      · rw [← List.cons_append, ofDigits_concat, hof, Nat.div_add_mod]
      · rintro rfl
        rw [hzero rfl] at hof
        have : n / 10 = 0 := hof.symm
        omega

theorem readUnsigned_natText (negative : Bool) (n : Nat) :
    ∃ ds, Numeral.readUnsigned negative (natText n) = some ⟨negative, ds, [], none⟩ ∧
      ofDigits ds = n := by
  obtain ⟨d, ds, htake, hof, hzero⟩ := exists_takeDigits_natText n
  refine ⟨d :: ds, ?_, hof⟩
  unfold Numeral.readUnsigned
  rw [htake]
  cases d with
  | zero => rw [hzero rfl]; rfl
  | succ d => rfl

/-- **Every integer in range reads back.** -/
theorem Value.readsBack_integer {i : Int} (h : (Value.integer i).InRange) :
    (Value.integer i).ReadsBack := by
  have hsize : UInt64.size = 2 ^ 64 := rfl
  obtain ⟨hlow, hhigh⟩ := h
  show (Numeral.read (intText i)).bind Numeral.value? = some (.integer i)
  unfold intText
  split
  · next hi =>
    obtain ⟨ds, hread, hof⟩ := readUnsigned_natText true i.natAbs
    have hm : 0 < ofDigits ds ∧ 2 * ofDigits ds ≤ UInt64.size := by omega
    have hneg : -(ofDigits ds : Int) = i := by omega
    rw [Numeral.read, hread, Option.bind_some]
    simp [Numeral.value?, Numeral.integer?, hm, hneg]
  · next hi =>
    obtain ⟨ds, hread, hof⟩ := readUnsigned_natText false i.natAbs
    have hm : ofDigits ds < UInt64.size := by omega
    have hpos : (ofDigits ds : Int) = i := by omega
    have hfirst : Numeral.read (natText i.natAbs) = some ⟨false, ds, [], none⟩ := by
      rw [← hread]
      unfold Numeral.read
      split
      · next heq =>
        rw [heq] at hread
        cases hread
      · rfl
    rw [hfirst, Option.bind_some]
    simp [Numeral.value?, Numeral.integer?, hm, hpos]

end Number
end ContractBlocks
