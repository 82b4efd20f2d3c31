/-
# More code

A text put behind another on a line of its own adds its code lines behind those of the other one
(`Code.lines_append_newline`): the carriage return that the last line of the first text may lose to the
line feed is blank, and so is a line that the line feed ends.  A rule that makes a finding for each code
line of a kind reports for the two texts what it reports for each of them (`Rule.adds_perLine`), and the
two rules that make one finding at most report something if they do for one of them.

`Rule.check_joined` says this of the six rules that look for such lines.
-/

import ContractBlocks.Proofs.Security.Comment
import ContractBlocks.Proofs.Security.Reentrancy
import ContractBlocks.Proofs.Text.Joined

namespace ContractBlocks

namespace Code

/-- The code of lines, without those that have none. -/
def shown (ls : List (List Char)) : List (List Char) :=
  (ls.map fun l => Text.trim (beforeComment l)).filter fun l => !l.isEmpty

/-- A carriage return at the end of a line is no code, and it ends no comment. -/
theorem trim_beforeComment_dropReturn (line : List Char) :
    Text.trim (beforeComment (Text.dropReturn line)) = Text.trim (beforeComment line) := by
  rcases Text.eq_or_eq_concat_dropReturn line with h | h
  · rw [← h]
  · conv_rhs => rw [h]
    unfold beforeComment
    rw [Text.cut?_concat (by decide) (by decide)]
    cases Text.cut? ['/', '/'] (Text.dropReturn line) with
    | none => exact (Text.trim_append_of_isBlank (by decide) _).symm
    | some r => rfl

/-- Pieces show the same code whether the last one is a line that has not ended or one that has. -/
theorem shown_closePieces (ps : List (List Char)) :
    shown (Text.closePieces ps) = shown (ps.map Text.dropReturn) := by
  induction ps with
  | nil => rfl
  | cons p ps ih =>
    cases ps with
    | nil =>
      cases p with
      | nil => rfl
      | cons c cs => simp [Text.closePieces, shown, trim_beforeComment_dropReturn]
    | cons q qs =>
      simp only [shown, Text.closePieces, List.map_cons, List.filter_cons] at ih ⊢
      rw [ih]

/-- **The code lines of two texts with a line feed between them** are those of the first and then those
of the second. -/
theorem lines_append_newline (a b : List Char) : lines (a ++ '\n' :: b) = lines a ++ lines b := by
  calc lines (a ++ '\n' :: b)
      = shown ((Text.pieces a).map Text.dropReturn ++ Text.lines b) := by
        rw [← Text.lines_append_newline]
        rfl
    _ = shown ((Text.pieces a).map Text.dropReturn) ++ shown (Text.lines b) := by
        simp only [shown, List.map_append, List.filter_append]
    _ = lines a ++ lines b := by
        rw [← shown_closePieces]
        rfl

end Code

/-- The statements of two texts, the second below the first. -/
def joined (x y : String) : String := x ++ "\n" ++ y

theorem Block.codeLines_withBody_joined (b : Block) (x y : String) :
    (b.withBody (joined x y)).codeLines = (b.withBody x).codeLines ++ (b.withBody y).codeLines := by
  have hlines : Code.lines (joined x y).toList = Code.lines x.toList ++ Code.lines y.toList := by
    rw [← Code.lines_append_newline]
    simp [joined]
  unfold withBody codeLines body?
  cases b.kind with
  | function | constructor | modifier => exact hlines
  | _ => rfl

namespace Rule

/-- **The rule reports for two texts, one below the other, what it reports for each of them.** -/
def Adds (r : Rule) : Prop :=
  ∀ s (b : Block) (x y : String),
    r.check s (b.withBody (joined x y)) = r.check s (b.withBody x) ++ r.check s (b.withBody y)

/-- A rule that makes its finding for each code line of a kind adds. -/
theorem adds_perLine {name : String} (kind : List Char → Bool)
    (finding : Block → Option String → Finding)
    (hf : ∀ (b : Block) x y, finding (b.withBody x) = finding (b.withBody y)) :
    Adds ⟨name, fun _ b => perLine (b.codeLines.filter kind) (finding b)⟩ := by
  intro s b x y
  show perLine _ _ = perLine _ _ ++ perLine _ _
  rw [b.codeLines_withBody_joined, List.filter_append, hf b _ x, hf b y x, perLine, List.map_append]
  rfl

/-- The rule about block time makes the first finding of those for the two texts. -/
theorem timestamp_joined (s : Surroundings) (b : Block) (x y : String) :
    timestamp.check s (b.withBody (joined x y)) =
      (timestamp.check s (b.withBody x) ++ timestamp.check s (b.withBody y)).take 1 := by
  simp only [timestamp, b.codeLines_withBody_joined, List.find?_append]
  cases (b.withBody x).codeLines.find? fun l => Text.containsAny blockTimes l with
  | some l => rfl
  | none => cases (b.withBody y).codeLines.find? fun l => Text.containsAny blockTimes l <;> rfl

/-- The reentrancy rule watches the block: it is a function without a guard. -/
def watches (b : Block) : Bool := b.function?.any fun f => !isGuarded f

theorem watches_withBody (b : Block) (body : String) : watches (b.withBody body) = watches b := by
  rw [watches, watches, b.function?_withBody, Option.any_map]
  rfl

theorem reentrancy_check_ne_nil_iff (s : Surroundings) (b : Block) :
    reentrancy.check s b ≠ [] ↔ watches b ∧ CallThen (writesState ·) b.codeLines := by
  obtain ⟨hreported, hsilent⟩ := callBeforeWrite?_spec b.codeLines
  have hcall : callBeforeWrite? b.codeLines ≠ none ↔ CallThen (writesState ·) b.codeLines := by
    refine ⟨fun h => by_contra fun hthen => h (hsilent hthen), fun hthen => ?_⟩
    obtain ⟨call, -, hcall⟩ := hreported hthen
    rw [hcall]
    exact Option.some_ne_none call
  rw [← hcall]
  cases hf : b.function? with
  | none => simp [reentrancy, watches, hf]
  | some f => cases hg : isGuarded f <;> simp [reentrancy, watches, hf, hg, perLine]

/-- In two groups of lines a call is followed by a write if it is so in one of them, or if the first has
a call and the second a write. -/
theorem callThen_append {write : List Char → Prop} (xs ys : List (List Char)) :
    CallThen write (xs ++ ys) ↔ CallThen write xs ∨ CallThen write ys ∨
      (∃ call ∈ xs, CallsOut call) ∧ ∃ line ∈ ys, write line := by
  have hnil : ¬CallThen write [] := fun ⟨_, _, _, h, _⟩ => absurd h (by simp)
  have hlater : CallThen write ys → ∃ line ∈ ys, write line := by
    rintro ⟨before, call, after, rfl, -, line, hline, hwrite⟩
    exact ⟨line, by simp [hline], hwrite⟩
  induction xs with
  | nil => simp [hnil]
  | cons x xs ih =>
    rw [List.cons_append]
    by_cases hx : CallsOut x
    · have hcalls : ∃ call ∈ x :: xs, CallsOut call := ⟨x, List.mem_cons_self, hx⟩
      rw [callThen_cons hx, callThen_cons hx, and_iff_right hcalls, or_iff_right_of_imp hlater]
      simp only [List.mem_append, or_and_right, exists_or]
    · have hcalls : (∃ call ∈ x :: xs, CallsOut call) ↔ ∃ call ∈ xs, CallsOut call := by
        simp only [List.mem_cons, exists_eq_or_imp, hx, false_or]
      rw [callThen_cons_of_not hx, callThen_cons_of_not hx, hcalls]
      exact ih

/-- **More code hides no finding.**  For two texts, the second below the first, as the statements of any
block: the rules about the origin of a transaction, ignored results, destruction and loops report what
they report for the first text and then what they report for the second.  The rule about block time
makes the first of its findings for the two.  The reentrancy rule reports something exactly if it does
for one of the texts, or if it watches the block and a call in the first text is followed by a state
write in the second. -/
theorem check_joined :
    txOrigin.Adds ∧ uncheckedCall.Adds ∧ selfdestruct.Adds ∧ unboundedLoop.Adds ∧
      ∀ (s : Surroundings) (b : Block) (x y : String),
        timestamp.check s (b.withBody (joined x y)) =
            (timestamp.check s (b.withBody x) ++ timestamp.check s (b.withBody y)).take 1 ∧
          (reentrancy.check s (b.withBody (joined x y)) ≠ [] ↔
            reentrancy.check s (b.withBody x) ≠ [] ∨ reentrancy.check s (b.withBody y) ≠ [] ∨
              watches b ∧ (∃ call ∈ (b.withBody x).codeLines, CallsOut call) ∧
                ∃ line ∈ (b.withBody y).codeLines, writesState line) := by
  refine ⟨adds_perLine _ txOriginFinding fun _ _ _ => rfl,
    adds_perLine _ uncheckedCallFinding fun _ _ _ => rfl,
    adds_perLine _ selfdestructFinding fun _ _ _ => rfl,
    adds_perLine _ unboundedLoopFinding fun _ _ _ => rfl,
    fun s b x y => ⟨timestamp_joined s b x y, ?_⟩⟩
  simp only [reentrancy_check_ne_nil_iff, watches_withBody, b.codeLines_withBody_joined,
    callThen_append]
  tauto

end Rule

end ContractBlocks
