/-
# Searching a text

Where one text stands in another: at the start, at the end, or anywhere.
-/

namespace ContractBlocks
namespace Text

/-- The text begins with `word`. -/
def startsWith (word text : List Char) : Bool := word.isPrefixOf text

/-- The text around the first occurrence of `word`: what stands before it and what follows it. -/
def cut? (word : List Char) : List Char → Option (List Char × List Char)
  | [] => if word.isEmpty then some ([], []) else none
  | c :: cs =>
    if startsWith word (c :: cs) then some ([], (c :: cs).drop word.length)
    else (cut? word cs).map fun r => (c :: r.1, r.2)

/-- The text holds `word` somewhere. -/
def contains (word text : List Char) : Bool := (cut? word text).isSome

/-- The text holds one of the words. -/
def containsAny (words : List (List Char)) (text : List Char) : Bool :=
  words.any fun w => contains w text

/-- A cut loses nothing: the two parts stand around the word. -/
theorem eq_of_cut? {word text before after : List Char}
    (h : cut? word text = some (before, after)) : text = before ++ word ++ after := by
  induction text generalizing before after with
  | nil =>
    simp only [cut?] at h
    split at h <;> simp_all
  | cons c cs ih =>
    simp only [cut?] at h
    split at h
    · next hs =>
      have hp : word <+: c :: cs := List.isPrefixOf_iff_prefix.1 hs
      obtain ⟨rest, hr⟩ := hp
      simp only [Option.some.injEq, Prod.mk.injEq] at h
      obtain ⟨rfl, rfl⟩ := h
      rw [← hr]
      simp
    · obtain ⟨⟨b, a⟩, hr, he⟩ := Option.map_eq_some_iff.1 h
      simp only [Prod.mk.injEq] at he
      obtain ⟨rfl, rfl⟩ := he
      rw [ih hr]
      simp

theorem length_after_cut? {word text before after : List Char}
    (h : cut? word text = some (before, after)) : after.length + word.length ≤ text.length := by
  rw [eq_of_cut? h]
  simp only [List.length_append]
  omega

end Text
end ContractBlocks
