/-
# The arguments of the call of an inherited function

An override may call the function that it replaces.  The arguments of the call are the names of the
parameters, and the header of the override has the same parameters, each with its name behind its
type. So the call passes every parameter on, if all of them have names.  The validation lets a
parameter be without a name, the header leaves the name out, and the call has an empty argument in
its place.

`Contract.passesAll_iff` says that this is the only way in which the call of a function that breaks
no rule fails to pass its parameters, and what its arguments are in any case.
-/

import ContractBlocks.Proofs.Source.Synthesis
import ContractBlocks.Proofs.Validation.Block

namespace ContractBlocks

/-! ### Names and declarations -/

namespace Parameter

/-- The parameter without its name. -/
def unnamed (p : Parameter) : Parameter := { p with name := "" }

/-- **A parameter that has a name** is declared with its name behind all else. -/
theorem text_of_name_ne {p : Parameter} (h : p.name ≠ "") :
    p.text = p.unnamed.text ++ " " ++ p.name := by
  have hname : p.name.isEmpty = false := by simpa using h
  rw [text, hname, if_neg Bool.false_ne_true, ← String.append_assoc]
  simp only [text, unnamed, show "".isEmpty = true from rfl, if_true, String.append_empty]
  rfl

end Parameter

/-- The header of an override binds the name as that of the parameter: it declares the parameter,
and the name, which is an identifier, stands behind what is declared without a name. -/
def Parameter.IsBound (p : Parameter) (name : String) : Prop :=
  isIdentifierName name ∧ p.text = p.unnamed.text ++ " " ++ name

/-- No comma stands in an identifier. -/
theorem comma_notMem_of_isIdentifierName {name : String} (h : isIdentifierName name) :
    ',' ∉ name.toList := fun hc =>
  absurd (Text.isIdentifierPart_of_mem h hc) (by decide)

/-- Between the commas of words that are joined stand the words, all but the first with a space
before them. -/
theorem splitOn_intercalate {x : String} {xs : List String} (h : ∀ w ∈ x :: xs, ',' ∉ w.toList) :
    (String.intercalate ", " (x :: xs)).toList.splitOn ',' =
      x.toList :: xs.map fun w => ' ' :: w.toList := by
  have hjoined : (String.intercalate ", " (x :: xs)).toList =
      [','].intercalate (x.toList :: xs.map fun w => ' ' :: w.toList) := by
    rw [String.toList_intercalate, List.map_cons, Source.intercalate_cons_flatMap,
      Source.intercalate_cons_flatMap, List.flatMap_map, List.flatMap_map]
    rfl
  rw [hjoined, List.splitOn_intercalate ',' ?_ (List.cons_ne_nil _ _)]
  intro l hl
  rcases List.mem_cons.1 hl with rfl | hl
  · exact h x List.mem_cons_self
  · obtain ⟨w, hw, rfl⟩ := List.mem_map.1 hl
    have hw := h w (List.mem_cons_of_mem x hw)
    simpa using hw

/-- **Words without commas** are told by their number and the text that they are joined to. -/
theorem intercalate_comma_inj {xs ys : List String} (hx : ∀ x ∈ xs, ',' ∉ x.toList)
    (hy : ∀ y ∈ ys, ',' ∉ y.toList) (hlength : xs.length = ys.length)
    (h : String.intercalate ", " xs = String.intercalate ", " ys) : xs = ys := by
  match xs, ys, hlength with
  | [], [], _ => rfl
  | x :: xs, y :: ys, _ =>
    have hsplit := congrArg (fun t => t.toList.splitOn ',') h
    simp only [splitOn_intercalate hx, splitOn_intercalate hy, List.cons.injEq,
      String.toList_inj] at hsplit
    have hinj : Function.Injective fun w : String => ' ' :: w.toList :=
      fun v w hvw => String.toList_inj.1 (List.cons.inj hvw).2
    rw [hsplit.1, List.map_injective_iff.2 hinj hsplit.2]

/-! ### The arguments of a call -/

namespace OverridableFunction

/-- The arguments with which an inherited function is called. -/
def arguments (f : OverridableFunction) : List String := f.parameters.map Parameter.name

/-- The call passes the parameters: its text has as many arguments as the function has parameters,
and each is an identifier that the header of the override binds as the parameter in its place. -/
def PassesAll (f : OverridableFunction) : Prop :=
  ∃ args : List String,
    f.superCall = "super." ++ f.name ++ "(" ++ String.intercalate ", " args ++ ");" ∧
      List.Forall₂ (fun p arg => arg ≠ "" ∧ p.IsBound arg) f.parameters args

/-- **The call passes all parameters** that are in order exactly if all of them have names. -/
theorem passesAll_iff_of_isSound {f : OverridableFunction}
    (h : ∀ p ∈ f.parameters, Validation.IsSound p) :
    f.PassesAll ↔ ∀ p ∈ f.parameters, p.name ≠ "" := by
  have hnames : ∀ n ∈ f.arguments, ',' ∉ n.toList := by
    intro n hn
    obtain ⟨p, hp, rfl⟩ := List.mem_map.1 hn
    rcases (h p hp).2 with hempty | hname
    · simp [hempty]
    · exact comma_notMem_of_isIdentifierName hname
  constructor
  · rintro ⟨args, hcall, hbound⟩
    obtain ⟨hlength, hget⟩ := List.forall₂_iff_get.1 hbound
    have hargs : ∀ a ∈ args, ',' ∉ a.toList := by
      intro a ha
      obtain ⟨i, hi, rfl⟩ := List.getElem_of_mem ha
      exact comma_notMem_of_isIdentifierName (hget i (hlength ▸ hi) hi).2.1
    have hjoined : String.intercalate ", " f.arguments = String.intercalate ", " args := by
      simpa [superCall, arguments] using hcall
    -- words without commas, as many as there are parameters: the arguments are the names
    have heq : f.arguments = args :=
      intercalate_comma_inj hnames hargs (by rw [arguments, List.length_map, hlength]) hjoined
    rw [← heq, arguments, List.forall₂_map_right_iff, List.forall₂_same] at hbound
    exact fun p hp => (hbound p hp).1
  · intro hnamed
    refine ⟨f.arguments, rfl, ?_⟩
    rw [arguments, List.forall₂_map_right_iff, List.forall₂_same]
    exact fun p hp => ⟨hnamed p hp, (h p hp).2.resolve_left (hnamed p hp),
      Parameter.text_of_name_ne (hnamed p hp)⟩

/-- The header of the override begins with the name and the parameters of the function. -/
theorem exists_overrideHeader_eq (f : OverridableFunction) :
    ∃ clauses, f.overrideHeader = "function " ++ f.name ++ "("
      ++ String.intercalate ", " (f.parameters.map Parameter.text) ++ ") " ++ clauses := by
  let clauses := f.visibility.keyword ++ " " ++ f.stateMutability.keyword ++ " override"
    ++ returnsText f.returns
  have hheader : f.overrideHeader = "function " ++ f.name ++ "("
      ++ String.intercalate ", " (f.parameters.map Parameter.text) ++ ") " ++ f.visibility.keyword
      ++ " " ++ f.stateMutability.keyword ++ " override" ++ returnsText f.returns := rfl
  refine ⟨clauses, ?_⟩
  rw [hheader]
  simp only [clauses, String.append_assoc]

/-- The arguments of a call, one for each parameter: empty for one without a name, and for any other
bound by the header. -/
theorem forall₂_arguments {f : OverridableFunction} (h : ∀ p ∈ f.parameters, Validation.IsSound p) :
    List.Forall₂ (fun p arg => p.name = "" ∧ arg = "" ∨ arg ≠ "" ∧ p.IsBound arg)
      f.parameters f.arguments := by
  rw [arguments, List.forall₂_map_right_iff, List.forall₂_same]
  intro p hp
  by_cases hname : p.name = ""
  · exact .inl ⟨hname, hname⟩
  · exact .inr ⟨hname, (h p hp).2.resolve_left hname, Parameter.text_of_name_ne hname⟩

end OverridableFunction

namespace Contract

/-- The block of a parent, a virtual function, is what the contract may override as the function. -/
def Inherits (c : Contract) (registry : Registry) (b : Block) (f : OverridableFunction) : Prop :=
  ∃ parent ∈ c.knownParents registry, b ∈ parent.blocks ∧
    ∃ g, b.function? = some g ∧ g.isVirtual ∧ .ofFunction parent b g = f

/-- What a contract may override are blocks of its parents. -/
theorem mem_overridable_iff_inherits {c : Contract} {registry : Registry}
    {f : OverridableFunction} : f ∈ c.overridable registry ↔ ∃ b, c.Inherits registry b f := by
  simp only [overridable, virtualFunctions, functions, Inherits, List.mem_flatMap, List.mem_map,
    List.mem_filter, List.mem_filterMap, Option.map_eq_some_iff]
  constructor
  · rintro ⟨parent, hparent, -, ⟨⟨b, hb, g, hg, rfl⟩, hv⟩, hf⟩
    exact ⟨b, parent, hparent, hb, g, hg, hv, hf⟩
  · rintro ⟨b, parent, hparent, hb, g, hg, hv, hf⟩
    exact ⟨parent, hparent, (b, g), ⟨⟨b, hb, g, hg, rfl⟩, hv⟩, hf⟩

end Contract

/-- The parameters of a function that breaks no rule are in order, and their names distinct. -/
theorem Block.parameters_of_violations_eq_nil {b : Block} {g : FunctionBlock}
    (hg : b.function? = some g) (h : b.violations = []) :
    (∀ p ∈ g.parameters, Validation.IsSound p) ∧
      g.parameters.Pairwise fun p q => q.name = "" ∨ p.name ≠ q.name := by
  have hkind : b.kind = .function g := function?_eq_some_iff.1 hg
  have hparameters : b.parameters? = some g.parameters := by rw [parameters?, hkind]
  simp only [violations, hkind, hparameters, Option.getD_some, List.append_eq_nil_iff] at h
  exact Validation.parameters_eq_nil_iff.1 h.1.2

namespace Contract

/-- **Which parameters the call of an inherited function passes,** if the block of the parent breaks
no rule.  There is one argument for each parameter, the name of the parameter, which the header of
the override binds in the same place, and no two parameters share one; but for a parameter without a
name the argument is empty.  So all parameters are passed exactly if all of them have names. -/
theorem passesAll_iff {c : Contract} {registry : Registry} {b : Block} {f : OverridableFunction}
    (hf : c.Inherits registry b f) (hb : b.violations = []) :
    f ∈ c.overridable registry ∧
      f.superCall = "super." ++ f.name ++ "(" ++ String.intercalate ", " f.arguments ++ ");" ∧
      (∃ clauses, f.overrideHeader = "function " ++ f.name ++ "("
        ++ String.intercalate ", " (f.parameters.map Parameter.text) ++ ") " ++ clauses) ∧
      List.Forall₂ (fun p arg => p.name = "" ∧ arg = "" ∨ arg ≠ "" ∧ p.IsBound arg)
        f.parameters f.arguments ∧
      (f.parameters.Pairwise fun p q => q.name = "" ∨ p.name ≠ q.name) ∧
      (f.PassesAll ↔ ∀ p ∈ f.parameters, p.name ≠ "") := by
  have hmem := mem_overridable_iff_inherits.2 ⟨b, hf⟩
  obtain ⟨parent, -, -, g, hg, -, rfl⟩ := hf
  obtain ⟨hsound, hdistinct⟩ := Block.parameters_of_violations_eq_nil hg hb
  exact ⟨hmem, rfl, OverridableFunction.exists_overrideHeader_eq _,
    OverridableFunction.forall₂_arguments hsound, hdistinct,
    OverridableFunction.passesAll_iff_of_isSound hsound⟩

/-! ### A parameter without a name -/

namespace Branch

/-- A function that may be overridden, whose first parameter may or may not have a name. -/
def pay (first : String) : Block :=
  ⟨"pay", "pay", "", .basic, [], .function ⟨.pub, .nonpayable,
    [⟨first, "uint256", false, none⟩, ⟨"to", "address", false, none⟩], [], [], true, "", []⟩⟩

def bank (first : String) : Contract := ⟨"bank", "Bank", [⟨pay first, .origin⟩], []⟩

def branch : Contract :=
  ⟨"branch", "Branch", [⟨⟨"open", "open", "", .basic, [], .function ⟨.pub, .nonpayable, [], [], [],
    false, "", [⟨"pay", "", true, false⟩]⟩⟩, .origin⟩], ["bank"]⟩

def project (first : String) : Project := ⟨"p", "Branch", [bank first, branch], none, .idle⟩

/-- The function as the branch may override it. -/
def inherited (first : String) : OverridableFunction :=
  ⟨"pay", "pay", .pub, .nonpayable,
    [⟨first, "uint256", false, none⟩, ⟨"to", "address", false, none⟩], [], true, "Bank", ""⟩

theorem inherits (first : String) :
    branch.Inherits (project first).contract? (pay first) (inherited first) :=
  ⟨bank first, List.mem_cons_self, List.mem_cons_self, _, rfl, rfl, rfl⟩

end Branch

open Branch in
theorem passesAll_iff_branch :
    branch.Inherits (project "amount").contract? (pay "amount") (inherited "amount") ∧
      (pay "amount").violations = [] ∧
      (inherited "amount").superCall = "super.pay(amount, to);" ∧
      (inherited "amount").PassesAll := by
  have hvalid : (pay "amount").violations = [] := by decide
  obtain ⟨-, -, -, -, -, hiff⟩ := passesAll_iff (inherits "amount") hvalid
  exact ⟨inherits "amount", hvalid, by decide, hiff.2 (by decide)⟩

open Branch in
/-- A parameter without a name breaks no rule, and the call has an empty argument for it. -/
theorem unnamed_not_passed :
    branch.Inherits (project "").contract? (pay "") (inherited "") ∧ (pay "").violations = [] ∧
      (inherited "").superCall = "super.pay(, to);" ∧ ¬(inherited "").PassesAll := by
  have hvalid : (pay "").violations = [] := by decide
  obtain ⟨hsound, -⟩ := Block.parameters_of_violations_eq_nil (b := pay "") rfl hvalid
  refine ⟨inherits "", hvalid, by decide, fun h => ?_⟩
  exact (OverridableFunction.passesAll_iff_of_isSound (f := inherited "") hsound).1 h
    ⟨"", "uint256", false, none⟩ List.mem_cons_self rfl

end Contract
end ContractBlocks
