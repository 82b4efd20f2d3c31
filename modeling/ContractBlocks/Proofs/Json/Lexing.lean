/-
# Written text has the tokens of its document

The compact and the pretty text of a document consist of the same tokens (`Json.toTokens`).  They are
found one after the other, whatever follows, as long as it cannot be taken for more of a number or a
word (`Apart`), and the pieces are put together by the rules of `Lexes`.  So both texts of a document
whose numbers read back have its tokens (`lexes_compactText`, `lexes_prettyText`).
-/

import ContractBlocks.Proofs.Number.Literal
import ContractBlocks.Json.Reader

namespace ContractBlocks
namespace Json

/-! ### Between quotes -/

theorem hexText_spec : ∀ n < 32, hexDigit? (hexText (n / 16)) = some (n / 16) ∧
    hexDigit? (hexText (n % 16)) = some (n % 16) ∧ hexText (n / 16) ≠ '\\' ∧
    hexText (n / 16) ≠ '"' ∧ hexText (n % 16) ≠ '\\' ∧ hexText (n % 16) ≠ '"' := by decide

/-- A character other than the quote and the backslash does not end a string. -/
theorem closeQuote_cons {c : Char} (hs : c ≠ '\\') (hq : c ≠ '"') (cs : List Char) :
    closeQuote (c :: cs) = (closeQuote cs).map fun r => (c :: r.1, r.2) := by
  rw [closeQuote.eq_def]
  split <;> simp_all

/-- What stands for a character between quotes is passed over. -/
theorem closeQuote_escapeChar (c : Char) (cs : List Char) :
    closeQuote (escapeChar c ++ cs) = (closeQuote cs).map fun r => (escapeChar c ++ r.1, r.2) := by
  unfold escapeChar
  split
  case h_8 hq hs _ _ _ _ _ =>
    split
    · next hc =>
      obtain ⟨-, -, h₁, h₂, h₃, h₄⟩ := hexText_spec c.toNat hc
      simp only [List.cons_append, List.nil_append, closeQuote, closeQuote_cons h₁ h₂,
        closeQuote_cons h₃ h₄, closeQuote_cons (show '0' ≠ '\\' by decide) (by decide),
        Option.map_map]
      rfl
    · simp [closeQuote_cons hs hq]
  all_goals simp [closeQuote]

theorem closeQuote_quoted (cs rest : List Char) :
    closeQuote (cs.flatMap escapeChar ++ '"' :: rest) = some (cs.flatMap escapeChar, rest) := by
  induction cs with
  | nil => simp [closeQuote]
  | cons c cs ih =>
    rw [List.flatMap_cons, List.append_assoc, closeQuote_escapeChar, ih, Option.map_some]

theorem unescape_of_simpleEscape? {c d : Char} (h : simpleEscape? c = some d) (cs : List Char) :
    unescape ('\\' :: c :: cs) = (unescape cs).map (d.toNat :: ·) := by
  rw [unescape.eq_def]
  split
  · next heq => cases heq
  · next heq =>
    obtain ⟨rfl, -⟩ := List.cons.inj (List.cons.inj heq).2
    cases h
  · next heq =>
    obtain ⟨rfl, rfl⟩ := List.cons.inj (List.cons.inj heq).2
    rw [h]
    cases unescape _ <;> rfl
  · next hne heq =>
    obtain ⟨rfl, rfl⟩ := List.cons.inj heq
    exact absurd rfl (hne c cs rfl)

/-- What stands for a character between quotes is read as that character. -/
theorem unescape_escapeChar (c : Char) (cs : List Char) :
    unescape (escapeChar c ++ cs) = (unescape cs).map (c.toNat :: ·) := by
  unfold escapeChar
  split
  case h_8 _ hs _ _ _ _ _ =>
    split
    · next hc =>
      obtain ⟨h₁, h₂, -⟩ := hexText_spec c.toNat hc
      have hzero : hexDigit? '0' = some 0 := by decide
      have hcode : (0 * 16 + 0) * 256 + (c.toNat / 16 * 16 + c.toNat % 16) = c.toNat := by omega
      simp only [List.cons_append, List.nil_append, unescape, hzero, h₁, h₂, hcode,
        Option.bind_eq_bind, Option.bind_some, Option.pure_def]
      cases unescape cs <;> rfl
    · next hc =>
      rw [List.singleton_append, unescape.eq_def]
      split
      · simp_all
      · simp_all
      · simp_all
      · next heq =>
        obtain ⟨rfl, rfl⟩ := List.cons.inj heq
        rw [if_neg (not_or.2 ⟨hs, hc⟩)]
  all_goals exact unescape_of_simpleEscape? rfl cs

theorem unescape_quoted (cs : List Char) :
    unescape (cs.flatMap escapeChar) = some (cs.map Char.toNat) := by
  induction cs with
  | nil => rfl
  | cons c cs ih => rw [List.flatMap_cons, unescape_escapeChar, ih]; rfl

/-- A character is no half of a surrogate pair. -/
theorem not_isSurrogate (c : Char) :
    isHighSurrogate c.toNat = false ∧ isLowSurrogate c.toNat = false := by
  have hvalid : c.toNat < 0xd800 ∨ 0xdfff < c.toNat ∧ c.toNat < 0x110000 := c.valid
  simp only [isHighSurrogate, isLowSurrogate, Bool.and_eq_false_iff, decide_eq_false_iff_not]
  omega

theorem ofCodes_toNat (cs : List Char) : ofCodes (cs.map Char.toNat) = some cs := by
  induction cs with
  | nil => rfl
  | cons c cs ih =>
    obtain ⟨hh, hl⟩ := not_isSurrogate c
    cases cs with
    | nil => simp [ofCodes, hh, hl, Char.ofNat_toNat]
    | cons d cs =>
      rw [List.map_cons, List.map_cons] at *
      simp [ofCodes, hh, hl, Char.ofNat_toNat, ih]

/-! ### Tokens one after the other -/

theorem tokens_of_isSpace {c : Char} {cs : List Char} (h : isSpace c) :
    tokens (c :: cs) = tokens cs := by
  rw [tokens, if_pos h]

theorem tokens_of_nextToken {c : Char} {cs rest : List Char} {t : Token} (hs : isSpace c = false)
    (h : nextToken c cs = some (t, rest)) : tokens (c :: cs) = (tokens rest).map (t :: ·) := by
  rw [tokens, if_neg (by simp [hs])]
  split
  · next hn => rw [h] at hn; cases hn
  · next u r hn =>
    rw [h] at hn
    obtain ⟨rfl, rfl⟩ := Prod.mk.inj (Option.some.inj hn)
    rfl

/-- Nothing follows, or something that is no more of a number or a word. -/
def Apart : List Char → Prop
  | [] => True
  | c :: _ => isNumberChar c = false ∧ c.isAlpha = false

/-- The text consists of the tokens, whatever follows apart from it. -/
def Lexes (text : List Char) (ts : List Token) : Prop :=
  ∀ rest, Apart rest → tokens (text ++ rest) = (tokens rest).map (ts ++ ·)

/-- What follows the text stays apart, whatever it is. -/
def Separated (text : List Char) : Prop := ∀ rest, Apart rest → Apart (text ++ rest)

theorem separated_cons {c : Char} (cs : List Char)
    (h : isNumberChar c = false ∧ c.isAlpha = false) : Separated (c :: cs) := fun _ _ => h

namespace Lexes

variable {a b : List Char} {ts us : List Token}

theorem nil : Lexes [] [] := fun rest _ => by
  cases h : tokens rest <;> simp [h]

theorem append (ha : Lexes a ts) (hb : Lexes b us) (h : Separated b) :
    Lexes (a ++ b) (ts ++ us) := by
  intro rest hrest
  rw [List.append_assoc, ha _ (h rest hrest), hb rest hrest, Option.map_map]
  congr 1
  funext vs
  exact (List.append_assoc ts us vs).symm

/-- A token that is complete by itself may stand before anything. -/
theorem cons {c : Char} {t : Token} (hs : isSpace c = false)
    (hc : ∀ cs, nextToken c cs = some (t, cs)) (hb : Lexes b us) : Lexes (c :: b) (t :: us) := by
  intro rest hrest
  rw [List.cons_append, tokens_of_nextToken hs (hc _), hb rest hrest, Option.map_map]
  rfl

/-- White space is passed over. -/
theorem spaces {white : List Char} (hw : ∀ c ∈ white, isSpace c) (hb : Lexes b us) :
    Lexes (white ++ b) us := by
  intro rest hrest
  rw [List.append_assoc, ← hb rest hrest]
  induction white with
  | nil => rfl
  | cons c white ih =>
    obtain ⟨hc, hw⟩ := List.forall_mem_cons.1 hw
    rw [List.cons_append, tokens_of_isSpace hc, ih hw]

/-- A text that consists of tokens has them. -/
theorem tokens_eq (h : Lexes a ts) : tokens a = some ts := by
  have := h [] trivial
  rwa [List.append_nil, tokens, Option.map_some, List.append_nil] at this

end Lexes

/-! ### Literals and strings -/

theorem lexes_quote (s : String) : Lexes (quote s) [.string (some s)] := by
  intro rest _
  have hnext : nextToken '"' (s.toList.flatMap escapeChar ++ '"' :: rest) =
      some (.string (some s), rest) := by
    show ((closeQuote (s.toList.flatMap escapeChar ++ '"' :: rest)).bind fun cut =>
      (unescape cut.1).bind fun codes =>
        some (Token.string ((ofCodes codes).map String.ofList), cut.2)) = _
    simp [closeQuote_quoted, unescape_quoted, ofCodes_toNat]
  rw [quote, List.cons_append, List.append_assoc, List.singleton_append,
    tokens_of_nextToken (by decide) hnext]
  rfl

/-- What the lexer gathers ends where something apart begins. -/
theorem takeWhile_append_of_apart {p : Char → Bool} {cs rest : List Char} (hcs : ∀ c ∈ cs, p c)
    (hrest : ∀ c ∈ rest.head?, p c = false) :
    (cs ++ rest).takeWhile p = cs ∧ (cs ++ rest).dropWhile p = rest := by
  induction cs with
  | nil =>
    cases rest with
    | nil => exact ⟨rfl, rfl⟩
    | cons c rest => simp [hrest c rfl]
  | cons c cs ih =>
    obtain ⟨hc, hcs⟩ := List.forall_mem_cons.1 hcs
    simp [hc, ih hcs]

/-- A number begins with a minus sign or a digit. -/
theorem nextToken_of_isDigit {c : Char} (hc : c = '-' ∨ c.isDigit) (cs : List Char) :
    nextToken c cs = (Number.Numeral.read (c :: cs.takeWhile isNumberChar)).map fun n =>
      (.literal ((n.value?.map .number).getD .unreadable), cs.dropWhile isNumberChar) := by
  unfold nextToken
  split
  case h_8 =>
    rw [if_pos (by rcases hc with rfl | hc <;> simp [*])]
    cases Number.Numeral.read (c :: cs.takeWhile isNumberChar) <;> rfl
  all_goals exact absurd hc (by decide)

theorem lexes_number {n : Number.Value} (h : n.ReadsBack) :
    Lexes (doubleLayout.value n) [.literal (.number n)] := by
  intro rest hrest
  obtain ⟨numeral, hread, hvalue⟩ := Option.bind_eq_some_iff.1 h
  obtain ⟨hgathered, c, cs, hcs, hc⟩ := Number.Numeral.gathered_of_read hread
  have hapart : ∀ c ∈ rest.head?, isNumberChar c = false := fun c h => by
    cases rest with
    | nil => cases h
    | cons d rest => exact Option.some.inj h ▸ hrest.1
  rw [hcs] at hread hgathered ⊢
  obtain ⟨htake, hdrop⟩ := takeWhile_append_of_apart (List.forall_mem_cons.1 hgathered).2 hapart
  have hspace : isSpace c = false := by
    rcases hc with rfl | hc
    · rfl
    · by_contra hn
      simp only [isSpace, Bool.not_eq_false, Bool.or_eq_true, beq_iff_eq] at hn
      rcases hn with ((rfl | rfl) | rfl) | rfl <;> cases hc
  have hnext : nextToken c (cs ++ rest) = some (.literal (.number n), rest) := by
    rw [nextToken_of_isDigit hc, htake, hdrop, hread, Option.map_some, hvalue]
    rfl
  rw [List.cons_append, tokens_of_nextToken hspace hnext]
  rfl

/-- A word is complete where something apart begins. -/
theorem lexes_word {c : Char} {cs : List Char} {j : Json} (hs : isSpace c = false)
    (hcs : cs.all Char.isAlpha)
    (hnext : ∀ after, after.takeWhile Char.isAlpha = cs →
      nextToken c after = some (.literal j, after.dropWhile Char.isAlpha)) :
    Lexes (c :: cs) [.literal j] := by
  intro rest hrest
  have hapart : ∀ d ∈ rest.head?, d.isAlpha = false := fun d h => by
    cases rest with
    | nil => cases h
    | cons e rest => exact Option.some.inj h ▸ hrest.2
  obtain ⟨htake, hdrop⟩ := takeWhile_append_of_apart (List.all_eq_true.1 hcs) hapart
  rw [List.cons_append, tokens_of_nextToken hs (hnext _ htake), hdrop]
  rfl

theorem lexes_null : Lexes ['n', 'u', 'l', 'l'] [.literal .null] := by
  refine lexes_word rfl rfl fun after h => ?_
  simp [nextToken, h]

theorem lexes_bool (b : Bool) : Lexes (scalarText (.bool b)) [.literal (.bool b)] := by
  cases b with
  | false =>
    refine lexes_word rfl rfl fun after h => ?_
    simp [nextToken, h]
  | true =>
    refine lexes_word rfl rfl fun after h => ?_
    simp [nextToken, h]

/-! ### Documents -/

mutual

/-- The tokens of a document. -/
def toTokens : Json → List Token
  | .array items => .arrayStart :: (itemTokens items ++ [.arrayEnd])
  | .object fields => .objectStart :: (fieldTokens fields ++ [.objectEnd])
  | .string s => [.string (some s)]
  | j => [.literal j]

/-- The tokens of the items with commas between them. -/
def itemTokens : List Json → List Token
  | [] => []
  | [j] => toTokens j
  | j :: k :: js => toTokens j ++ .comma :: itemTokens (k :: js)

/-- The tokens of the fields with commas between them. -/
def fieldTokens : List (String × Json) → List Token
  | [] => []
  | [(k, j)] => .string (some k) :: .colon :: toTokens j
  | (k, j) :: f :: fs =>
    .string (some k) :: .colon :: (toTokens j ++ .comma :: fieldTokens (f :: fs))

end

/-- The text of a scalar is its token. -/
theorem lexes_scalarText {room : Nat} {j : Json} (h : j.Fits Number.Value.ReadsBack room)
    (ha : ∀ items, j ≠ .array items) (ho : ∀ fields, j ≠ .object fields) :
    Lexes (scalarText j) (toTokens j) := by
  cases j with
  | null => exact lexes_null
  | bool b => exact lexes_bool b
  | number n => exact lexes_number (fits_number_iff.1 h)
  | string s => exact lexes_quote s
  | array items => exact absurd rfl (ha items)
  | object fields => exact absurd rfl (ho fields)
  | unreadable => exact absurd h not_fits_unreadable

theorem nextToken_comma (cs : List Char) : nextToken ',' cs = some (.comma, cs) := rfl

theorem nextToken_colon (cs : List Char) : nextToken ':' cs = some (.colon, cs) := rfl

/-! Both ways to write a document put commas between items and fields, and differ in the white space
before each of them and behind the colon. -/

section Parts

variable {write : Json → List Char} {white : List Char} (hw : ∀ c ∈ white, isSpace c)

include hw

theorem lexes_items {writeItems : List Json → List Char} (hnil : writeItems [] = [])
    (hone : ∀ j, writeItems [j] = white ++ write j)
    (hcons : ∀ j k js,
      writeItems (j :: k :: js) = white ++ (write j ++ ',' :: writeItems (k :: js)))
    {items : List Json} (h : ∀ j ∈ items, Lexes (write j) (toTokens j)) :
    Lexes (writeItems items) (itemTokens items) := by
  induction items with
  | nil => exact hnil ▸ .nil
  | cons j js ih =>
    obtain ⟨hj, hjs⟩ := List.forall_mem_cons.1 h
    cases js with
    | nil =>
      rw [hone, itemTokens]
      exact hj.spaces hw
    | cons k js =>
      rw [hcons, itemTokens]
      refine .spaces hw (hj.append ?_ (separated_cons _ (by decide)))
      exact .cons rfl nextToken_comma (ih hjs)

theorem lexes_fields {gap : List Char} (hg : ∀ c ∈ gap, isSpace c)
    {writeFields : List (String × Json) → List Char} (hnil : writeFields [] = [])
    (hone : ∀ f, writeFields [f] = white ++ (quote f.1 ++ ':' :: (gap ++ write f.2)))
    (hcons : ∀ f g fs, writeFields (f :: g :: fs) =
      white ++ (quote f.1 ++ ':' :: (gap ++ (write f.2 ++ ',' :: writeFields (g :: fs)))))
    {fields : List (String × Json)} (h : ∀ f ∈ fields, Lexes (write f.2) (toTokens f.2)) :
    Lexes (writeFields fields) (fieldTokens fields) := by
  induction fields with
  | nil => exact hnil ▸ .nil
  | cons f fs ih =>
    obtain ⟨hf, hfs⟩ := List.forall_mem_cons.1 h
    cases fs with
    | nil =>
      rw [hone, fieldTokens]
      refine .spaces hw ((lexes_quote f.1).append ?_ (separated_cons _ (by decide)))
      exact .cons rfl nextToken_colon (hf.spaces hg)
    | cons g fs =>
      rw [hcons, fieldTokens]
      refine .spaces hw ((lexes_quote f.1).append ?_ (separated_cons _ (by decide)))
      refine .cons rfl nextToken_colon (.spaces hg (hf.append ?_ (separated_cons _ (by decide))))
      exact .cons rfl nextToken_comma (ih hfs)

end Parts

theorem isSpace_of_mem_nil : ∀ c ∈ ([] : List Char), isSpace c :=
  fun _ hc => absurd hc List.not_mem_nil

/-- **The compact text of a document has its tokens.** -/
theorem lexes_compactText {room : Nat} {j : Json} (h : j.Fits Number.Value.ReadsBack room) :
    Lexes (compactText j) (toTokens j) := by
  induction j generalizing room with
  | array items ih =>
    obtain ⟨inner, rfl, hall⟩ := fits_array_iff.1 h
    have hitems : Lexes (compactItems items) (itemTokens items) :=
      lexes_items isSpace_of_mem_nil rfl (fun _ => rfl) (fun _ _ _ => rfl)
        fun j hj => ih j hj (hall j hj)
    exact .cons rfl (fun _ => rfl)
      (hitems.append (.cons rfl (fun _ => rfl) .nil) (separated_cons _ (by decide)))
  | object fields ih =>
    obtain ⟨inner, rfl, hall⟩ := fits_object_iff.1 h
    have hfields : Lexes (compactFields fields) (fieldTokens fields) :=
      lexes_fields isSpace_of_mem_nil isSpace_of_mem_nil rfl (fun _ => rfl) (fun _ _ _ => rfl)
        fun f hf => ih f hf (hall f hf)
    exact .cons rfl (fun _ => rfl)
      (hfields.append (.cons rfl (fun _ => rfl) .nil) (separated_cons _ (by decide)))
  | null | bool | number | string | unreadable =>
    exact lexes_scalarText h (by simp) (by simp)

theorem isSpace_of_mem_newline {level : Nat} {c : Char} (h : c ∈ newline level) : isSpace c := by
  rcases List.mem_cons.1 h with rfl | h
  · rfl
  · exact List.eq_of_mem_replicate h ▸ rfl

/-- **The pretty text of a document has its tokens,** at any level. -/
theorem lexes_prettyText {room : Nat} {j : Json} (h : j.Fits Number.Value.ReadsBack room)
    (level : Nat) : Lexes (prettyText level j) (toTokens j) := by
  induction j generalizing room level with
  | array items ih =>
    obtain ⟨inner, rfl, hall⟩ := fits_array_iff.1 h
    cases items with
    | nil => exact .cons rfl (fun _ => rfl) (.cons rfl (fun _ => rfl) .nil)
    | cons j js =>
      have hitems : Lexes (prettyItems (level + 1) (j :: js)) (itemTokens (j :: js)) :=
        lexes_items (fun _ => isSpace_of_mem_newline) rfl (fun _ => rfl)
          (fun _ _ _ => by rw [prettyItems, List.append_assoc])
          fun j hj => ih j hj (hall j hj) (level + 1)
      rw [prettyText, toTokens, List.append_assoc]
      refine .cons rfl (fun _ => rfl) (hitems.append ?_ (separated_cons _ (by decide)))
      exact .spaces (fun _ => isSpace_of_mem_newline) (.cons rfl (fun _ => rfl) .nil)
  | object fields ih =>
    obtain ⟨inner, rfl, hall⟩ := fits_object_iff.1 h
    cases fields with
    | nil => exact .cons rfl (fun _ => rfl) (.cons rfl (fun _ => rfl) .nil)
    | cons f fs =>
      have hfields : Lexes (prettyFields (level + 1) (f :: fs)) (fieldTokens (f :: fs)) :=
        lexes_fields (fun _ => isSpace_of_mem_newline) (fun _ hc => List.mem_singleton.1 hc ▸ rfl) rfl
          (fun _ => by rw [prettyFields, List.append_assoc]; rfl)
          (fun _ _ _ => by rw [prettyFields, List.append_assoc]; rfl)
          fun f hf => ih f hf (hall f hf) (level + 1)
      rw [prettyText, toTokens, List.append_assoc]
      refine .cons rfl (fun _ => rfl) (hfields.append ?_ (separated_cons _ (by decide)))
      exact .spaces (fun _ => isSpace_of_mem_newline) (.cons rfl (fun _ => rfl) .nil)
  | null | bool | number | string | unreadable =>
    exact lexes_scalarText h (by simp) (by simp)

end Json
end ContractBlocks
