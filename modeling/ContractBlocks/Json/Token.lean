/-
# Tokens

A document's text is a sequence of tokens with white space between them: punctuation, strings,
numbers and the three words. The lexer checks the form of every token; what a string or a number
means is settled here too, so a string of a document either has a text or holds half a surrogate
pair.
-/

import ContractBlocks.Json.Basic

namespace ContractBlocks
namespace Json

/-- A token; a string without a text holds half a surrogate pair. -/
inductive Token where
  | arrayStart
  | arrayEnd
  | objectStart
  | objectEnd
  | comma
  | colon
  | string (text : Option String)
  | literal (value : Json)
deriving DecidableEq, Repr

/-- The white space that JSON allows between tokens. -/
def isSpace (c : Char) : Bool := c == ' ' || c == '\n' || c == '\r' || c == '\t'

/-- The value of a hexadecimal digit of either case. -/
def hexDigit? (c : Char) : Option Nat :=
  if c.isDigit then some (c.toNat - '0'.toNat)
  else if 'a' ≤ c ∧ c ≤ 'f' then some (c.toNat - 'a'.toNat + 10)
  else if 'A' ≤ c ∧ c ≤ 'F' then some (c.toNat - 'A'.toNat + 10)
  else none

/-- The character that a one-letter escape stands for. -/
def simpleEscape? (c : Char) : Option Char :=
  match c with
  | '"' => some '"'
  | '\\' => some '\\'
  | '/' => some '/'
  | 'b' => some '\x08'
  | 'f' => some '\x0c'
  | 'n' => some '\n'
  | 'r' => some '\r'
  | 't' => some '\t'
  | _ => none

/-- Splits a text behind an opening quote at the closing one, leaving escapes as they are. -/
def closeQuote : List Char → Option (List Char × List Char)
  | [] => none
  | ['\\'] => none
  | '\\' :: c :: cs => (closeQuote cs).map fun r => ('\\' :: c :: r.1, r.2)
  | c :: cs =>
    if c = '"' then some ([], cs) else (closeQuote cs).map fun r => (c :: r.1, r.2)

/-- The code values between the quotes, with escapes read; half a surrogate pair is one code value.
Control characters must be escaped. -/
def unescape : List Char → Option (List Nat)
  | [] => some []
  | '\\' :: 'u' :: a :: b :: c :: d :: cs => do
    let code := ((← hexDigit? a) * 16 + (← hexDigit? b)) * 256
      + ((← hexDigit? c) * 16 + (← hexDigit? d))
    return code :: (← unescape cs)
  | '\\' :: c :: cs => do return (← simpleEscape? c).toNat :: (← unescape cs)
  | c :: cs => if c = '\\' ∨ c.toNat < 0x20 then none else (unescape cs).map (c.toNat :: ·)

/-- The first half of a surrogate pair. -/
def isHighSurrogate (n : Nat) : Bool := 0xd800 ≤ n && n < 0xdc00

/-- The second half of a surrogate pair. -/
def isLowSurrogate (n : Nat) : Bool := 0xdc00 ≤ n && n < 0xe000

/-- The text of code values, surrogate pairs joined; none if a half stands alone. -/
def ofCodes : List Nat → Option (List Char)
  | [] => some []
  | [n] =>
    if isHighSurrogate n || isLowSurrogate n then none else some [Char.ofNat n]
  | m :: n :: ns =>
    if isHighSurrogate m then
      if isLowSurrogate n then
        (ofCodes ns).map (Char.ofNat (0x10000 + (m - 0xd800) * 0x400 + (n - 0xdc00)) :: ·)
      else none
    else if isLowSurrogate m then none
    else (ofCodes (n :: ns)).map (Char.ofNat m :: ·)

/-- The characters of which numbers are made. -/
def isNumberChar (c : Char) : Bool :=
  c.isDigit || c == '-' || c == '+' || c == '.' || c == 'e' || c == 'E'

/-- The token that begins with `c`, and the text behind it. -/
def nextToken (c : Char) (cs : List Char) : Option (Token × List Char) :=
  match c with
  | '[' => some (.arrayStart, cs)
  | ']' => some (.arrayEnd, cs)
  | '\x7b' => some (.objectStart, cs)
  | '\x7d' => some (.objectEnd, cs)
  | ',' => some (.comma, cs)
  | ':' => some (.colon, cs)
  | '"' => do
    let (raw, rest) ← closeQuote cs
    let codes ← unescape raw
    return (.string ((ofCodes codes).map String.ofList), rest)
  | _ =>
    if c == '-' || c.isDigit then do
      let n ← Number.Numeral.read (c :: cs.takeWhile isNumberChar)
      return (.literal ((n.value?.map .number).getD .unreadable), cs.dropWhile isNumberChar)
    else
      match String.ofList (c :: cs.takeWhile Char.isAlpha) with
      | "null" => some (.literal .null, cs.dropWhile Char.isAlpha)
      | "true" => some (.literal (.bool true), cs.dropWhile Char.isAlpha)
      | "false" => some (.literal (.bool false), cs.dropWhile Char.isAlpha)
      | _ => none

theorem length_dropWhile_le {α : Type} (p : α → Bool) (xs : List α) :
    (xs.dropWhile p).length ≤ xs.length := (List.dropWhile_sublist p).length_le

/-- What follows the closing quote is shorter than what follows the opening one. -/
theorem length_of_closeQuote {cs raw rest : List Char} (h : closeQuote cs = some (raw, rest)) :
    rest.length < cs.length := by
  fun_induction closeQuote cs generalizing raw rest with
  | case1 => simp at h
  | case2 => simp at h
  | case3 c cs ih =>
    obtain ⟨⟨a, b⟩, hr, he⟩ := Option.map_eq_some_iff.1 h
    simp only [Prod.mk.injEq] at he
    have := ih hr
    simp only [List.length_cons, ← he.2]
    omega
  | case4 cs => simp_all
  | case5 c cs _ _ _ ih =>
    obtain ⟨⟨a, b⟩, hr, he⟩ := Option.map_eq_some_iff.1 h
    simp only [Prod.mk.injEq] at he
    have := ih hr
    simp only [List.length_cons, ← he.2]
    omega

/-- A token takes at least its first character off the text. -/
theorem length_of_nextToken {c : Char} {cs rest : List Char} {t : Token}
    (h : nextToken c cs = some (t, rest)) : rest.length ≤ cs.length := by
  unfold nextToken at h
  split at h
  case h_7 =>
    cases hq : closeQuote cs with
    | none => simp [hq] at h
    | some r =>
      cases hu : unescape r.1 with
      | none => simp [hq, hu] at h
      | some codes =>
        simp only [hq, hu, Option.bind_eq_bind, Option.bind_some, Option.pure_def,
          Option.some.injEq, Prod.mk.injEq] at h
        exact h.2 ▸ Nat.le_of_lt (length_of_closeQuote hq)
  case h_8 =>
    split at h
    · obtain ⟨n, _, hr⟩ := Option.bind_eq_some_iff.1 h
      simp only [Option.pure_def, Option.some.injEq, Prod.mk.injEq] at hr
      rw [← hr.2]
      exact length_dropWhile_le _ _
    · split at h <;> simp only [Option.some.injEq, Prod.mk.injEq, reduceCtorEq] at h <;>
        rw [← h.2] <;> exact length_dropWhile_le _ _
  all_goals
    simp only [Option.some.injEq, Prod.mk.injEq] at h
    exact h.2 ▸ Nat.le_refl _

/-- The tokens of a text, if it consists of tokens and white space. -/
def tokens : List Char → Option (List Token)
  | [] => some []
  | c :: cs =>
    if isSpace c then tokens cs
    else match _h : nextToken c cs with
      | none => none
      | some (t, rest) => (tokens rest).map (t :: ·)
termination_by cs => cs.length
decreasing_by
  · exact Nat.lt_succ_self _
  · exact Nat.lt_succ_of_le (length_of_nextToken _h)

end Json
end ContractBlocks
