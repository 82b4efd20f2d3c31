/-
# The signature of a function, for the inheritance and for the validation

The inheritance analysis tells functions apart by a text, their name with the types of their parameters
(`signatureKey`), and the validation of a contract by the name and the list of types.  The text loses
nothing of either, if the name is an identifier and no type is blank or holds a comma
(`signatureKey_eq_iff`).  But the validation takes the blank characters around a type off first, and the
text keeps them.  So functions that are one for the analysis are one for the validation, and the two
disagree exactly on functions that differ in such blank characters alone (`Block.signatureKey_exact`);
`Block.blank_told_apart` are two of them.
-/

import ContractBlocks.Inheritance.Issue
import ContractBlocks.Proofs.Validation.Contract

namespace ContractBlocks

/-! ### The text of a signature -/

/-- What stands before and behind the first occurrence of a character is told by the text. -/
theorem append_cons_inj {c : Char} {a b x y : List Char} (ha : c ∉ a) (hb : c ∉ b)
    (h : a ++ c :: x = b ++ c :: y) : a = b ∧ x = y := by
  have htake : ∀ t z, c ∉ t → (t ++ c :: z).takeWhile (· != c) = t := by
    intro t z ht
    have hall : ∀ d ∈ t, (d != c) = true := fun d hd => by simpa using ne_of_mem_of_not_mem hd ht
    rw [List.takeWhile_append_of_pos hall, List.takeWhile_cons_of_neg (by simp), List.append_nil]
  obtain rfl : a = b := by rw [← htake a x ha, h, htake b y hb]
  exact ⟨rfl, (List.cons.inj (List.append_cancel_left h)).2⟩

/-- **Words that are not empty and hold no comma** are what stands between the commas of the text that
they are joined to.  Of no words at all nothing stands there. -/
theorem filter_splitOn_intercalate {ws : List (List Char)} (h : ∀ w ∈ ws, w ≠ [] ∧ ',' ∉ w) :
    (([','].intercalate ws).splitOn ',').filter (· ≠ []) = ws := by
  by_cases hws : ws = []
  · rw [hws, List.intercalate_nil, List.splitOn_nil]
    rfl
  · rw [List.splitOn_intercalate ',' (fun w hw => (h w hw).2) hws]
    exact List.filter_eq_self.2 fun w hw => by simpa using (h w hw).1

/-- So they are told by the text. -/
theorem intercalate_inj {xs ys : List (List Char)} (hx : ∀ x ∈ xs, x ≠ [] ∧ ',' ∉ x)
    (hy : ∀ y ∈ ys, y ≠ [] ∧ ',' ∉ y) (h : [','].intercalate xs = [','].intercalate ys) : xs = ys := by
  rw [← filter_splitOn_intercalate hx, h, filter_splitOn_intercalate hy]

/-- The type of a parameter can be told in a list of types: it is not blank and holds no comma. -/
def IsPlainType (dataType : String) : Prop := isBlankType dataType = false ∧ ',' ∉ dataType.toList

theorem IsPlainType.toList_ne_nil {dataType : String} (h : IsPlainType dataType) :
    dataType.toList ≠ [] := by
  intro hnil
  have hblank := h.1
  rw [isBlankType, hnil] at hblank
  cases hblank

theorem toList_signatureKey (name : String) (ps : List Parameter) :
    (signatureKey name ps).toList =
      name.toList ++ '(' :: ([','].intercalate (ps.map fun p => p.dataType.toList) ++ [')']) := by
  simp [signatureKey, String.toList_intercalate, Function.comp_def]

/-- **The text of a signature tells the name and the types as they are written.** -/
theorem signatureKey_eq_iff {m n : String} {ps qs : List Parameter} (hm : isIdentifierName m)
    (hn : isIdentifierName n) (hps : ∀ p ∈ ps, IsPlainType p.dataType)
    (hqs : ∀ q ∈ qs, IsPlainType q.dataType) :
    signatureKey m ps = signatureKey n qs ↔
      m = n ∧ ps.map Parameter.dataType = qs.map Parameter.dataType := by
  constructor
  · intro h
    have hparen : ∀ {name : String}, isIdentifierName name → '(' ∉ name.toList := fun hname hc =>
      absurd (Text.isIdentifierPart_of_mem hname hc) (by decide)
    have hword : ∀ {rs : List Parameter}, (∀ r ∈ rs, IsPlainType r.dataType) →
        ∀ x ∈ rs.map fun r => r.dataType.toList, x ≠ [] ∧ ',' ∉ x := by
      intro rs hrs x hx
      obtain ⟨r, hr, rfl⟩ := List.mem_map.1 hx
      exact ⟨(hrs r hr).toList_ne_nil, (hrs r hr).2⟩
    have hlist := congrArg String.toList h
    rw [toList_signatureKey, toList_signatureKey] at hlist
    obtain ⟨hname, htypes⟩ := append_cons_inj (hparen hm) (hparen hn) hlist
    have hmap := intercalate_inj (hword hps) (hword hqs) (List.append_cancel_right htypes)
    refine ⟨String.toList_inj.1 hname, ?_⟩
    have hinj : Function.Injective String.toList := fun s t => String.toList_inj.1
    apply List.map_injective_iff.2 hinj
    simpa [Function.comp_def] using hmap
  · rintro ⟨rfl, htypes⟩
    rw [signatureKey, signatureKey, htypes]

/-- Types that are written the same are the same without the blank characters around them. -/
theorem Parameter.trimmedTypes_congr {ps qs : List Parameter}
    (h : ps.map Parameter.dataType = qs.map Parameter.dataType) : trimmedTypes ps = trimmedTypes qs := by
  have hmap : ∀ rs : List Parameter, trimmedTypes rs = (rs.map Parameter.dataType).map trimmedType :=
    fun rs => by rw [trimmedTypes, List.map_map]; rfl
  rw [hmap, hmap, h]

/-! ### Redeclarations -/

namespace Block

variable {a b : Block} {f g : FunctionBlock}

/-- **Two functions clash** exactly if they have one name and the same types without the blank
characters around them. -/
theorem clashes_iff_of_function? (ha : a.function? = some f) (hb : b.function? = some g) :
    a.Clashes b ↔
      a.name = b.name ∧ Parameter.trimmedTypes f.parameters = Parameter.trimmedTypes g.parameters := by
  have hka := function?_eq_some_iff.1 ha
  have hkb := function?_eq_some_iff.1 hb
  have hdeclares : a.Declares ∧ b.Declares :=
    ⟨declares_iff.2 ⟨_, by rw [hka]; rfl⟩, declares_iff.2 ⟨_, by rw [hkb]; rfl⟩⟩
  have hoverloads : a.Overloads b ↔
      Parameter.trimmedTypes f.parameters ≠ Parameter.trimmedTypes g.parameters := by
    simp [Overloads, parameterTypes, parameters?, hka, hkb, Kind.tag?]
  rw [Clashes, hoverloads, and_iff_right hdeclares.1, and_iff_right hdeclares.2, not_not]

/-- The validation calls the second block a redeclaration of the first: of a contract with these two it
reports what each of them breaks by itself, and that the name of the second is taken. -/
def IsRedeclaredBy (a b : Block) : Prop :=
  ∀ c : Contract, c.blocks = [a, b] →
    c.violations = a.violations ++ b.violations ++ [.duplicateName b.id b.name]

/-- What is reported of a contract with two blocks that have identities of their own. -/
theorem violations_of_blocks_eq {c : Contract} (hc : c.blocks = [a, b]) (hid : a.id ≠ b.id) :
    c.violations =
      a.violations ++ b.violations ++ if a.Clashes b then [.duplicateName b.id b.name] else [] := by
  have hfirst : share [] a = a.violations := by simp [share]
  have hsecond : share [a] b =
      b.violations ++ if a.Clashes b then [.duplicateName b.id b.name] else [] := by
    simp [share, RemainsIn, hid.symm]
  have hend : withBefore (fun before => share (a :: b :: before)) [] = [] := rfl
  rw [c.violations_eq, hc, withBefore_cons, withBefore_cons, hfirst, hsecond, hend, List.append_nil,
    List.append_assoc]

/-- **The validation reports a redeclaration exactly if the two blocks clash.** -/
theorem isRedeclaredBy_iff (hid : a.id ≠ b.id) : a.IsRedeclaredBy b ↔ a.Clashes b := by
  constructor
  · intro h
    by_contra hclash
    have hviolations := h ⟨"", "", [⟨a, .origin⟩, ⟨b, .origin⟩], []⟩ rfl
    rw [violations_of_blocks_eq rfl hid, if_neg hclash] at hviolations
    cases List.append_cancel_left hviolations
  · intro hclash c hc
    rw [violations_of_blocks_eq hc hid, if_pos hclash]

/-! ### The two signatures of a function -/

/-- **The two ways to tell functions apart,** for functions with identifiers as their names and types
that are neither blank nor hold a comma.  The text of the analysis tells the name and the types as they
are written; two functions clash if the name and the types without the blank characters around them are
the same, and of two that have identities of their own it is then that the validation reports a
redeclaration.  So the analysis and the validation agree on two functions exactly if they do not clash or
have their types written the same. -/
theorem signatureKey_exact (ha : a.function? = some f) (hb : b.function? = some g)
    (haname : isIdentifierName a.name) (hbname : isIdentifierName b.name)
    (hf : ∀ p ∈ f.parameters, IsPlainType p.dataType)
    (hg : ∀ p ∈ g.parameters, IsPlainType p.dataType) :
    (signatureKey a.name f.parameters = signatureKey b.name g.parameters ↔
        a.name = b.name ∧ f.parameters.map Parameter.dataType = g.parameters.map Parameter.dataType) ∧
      (a.Clashes b ↔ a.name = b.name ∧
        Parameter.trimmedTypes f.parameters = Parameter.trimmedTypes g.parameters) ∧
      (a.id ≠ b.id → (a.IsRedeclaredBy b ↔ a.Clashes b)) ∧
      ((signatureKey a.name f.parameters = signatureKey b.name g.parameters ↔ a.Clashes b) ↔
        (a.Clashes b →
          f.parameters.map Parameter.dataType = g.parameters.map Parameter.dataType)) := by
  have hkey := signatureKey_eq_iff haname hbname hf hg
  have hclash := clashes_iff_of_function? ha hb
  refine ⟨hkey, hclash, isRedeclaredBy_iff, ?_⟩
  rw [hkey]
  constructor
  · exact fun hagree hc => (hagree.2 hc).2
  · intro hwritten
    constructor
    · exact fun h => hclash.2 ⟨h.1, Parameter.trimmedTypes_congr h.2⟩
    · exact fun hc => ⟨(hclash.1 hc).1, hwritten hc⟩

/-- A function `pay` with parameters of the given types, and what it needs. -/
def payFunction (types : List String) : FunctionBlock :=
  ⟨.pub, .nonpayable, types.map fun t => ⟨"", t, false, none⟩, [], [], false, "", []⟩

def pay (id : BlockId) (types : List String) : Block :=
  ⟨id, "pay", "", .basic, [], .function (payFunction types)⟩

/-- Types with blank characters inside and around them, written the same. -/
theorem signatureKey_exact_pay :
    (∀ p ∈ (payFunction [" address payable", "uint256"]).parameters, IsPlainType p.dataType) ∧
      (pay "l-f" [" address payable", "uint256"]).Clashes (pay "r-f" [" address payable", "uint256"]) ∧
      (pay "l-f" [" address payable", "uint256"]).IsRedeclaredBy
        (pay "r-f" [" address payable", "uint256"]) := by
  have hplain : ∀ p ∈ (payFunction [" address payable", "uint256"]).parameters,
      IsPlainType p.dataType := by
    unfold IsPlainType
    decide
  obtain ⟨hkey, -, hredeclared, hagree⟩ := signatureKey_exact
    (a := pay "l-f" [" address payable", "uint256"]) (b := pay "r-f" [" address payable", "uint256"])
    rfl rfl (by decide) (by decide) hplain hplain
  have hclash := (hagree.2 fun _ => rfl).1 rfl
  exact ⟨hplain, hclash, (hredeclared (by decide)).2 hclash⟩

/-- **A space before a type makes a difference to the analysis and none to the validation,** so two
functions are not always one for both or for neither. -/
theorem blank_told_apart :
    ¬∀ (a b : Block) (f g : FunctionBlock), a.function? = some f → b.function? = some g →
      isIdentifierName a.name → isIdentifierName b.name →
      (∀ p ∈ f.parameters ++ g.parameters, IsPlainType p.dataType ∧
        '(' ∉ p.dataType.toList ∧ ')' ∉ p.dataType.toList) → a.id ≠ b.id →
      (signatureKey a.name f.parameters = signatureKey b.name g.parameters ↔ a.IsRedeclaredBy b) := by
  intro hall
  have hplain : ∀ p ∈ (payFunction ["uint256"]).parameters ++ (payFunction [" uint256"]).parameters,
      IsPlainType p.dataType ∧ '(' ∉ p.dataType.toList ∧ ')' ∉ p.dataType.toList := by
    unfold IsPlainType
    decide
  have hid : (pay "l-f" ["uint256"]).id ≠ (pay "r-f" [" uint256"]).id := by decide
  have hsame := hall (pay "l-f" ["uint256"]) (pay "r-f" [" uint256"]) _ _ rfl rfl (by decide)
    (by decide) hplain hid
  rw [isRedeclaredBy_iff hid] at hsame
  exact absurd (hsame.2 (by decide)) (by decide)

end Block
end ContractBlocks
