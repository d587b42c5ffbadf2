import GnustepGui.Library.Feasible

/-!
# Variables and linear expressions

`GSCSVariable` objects are told apart by identity; here a variable is its type with a number, and the numbers are the
counters the solver names its variables by. A `GSCSLinearExpression` is a constant and a map of coefficients whose
order is that of `_termVariables` (the newest term is the head of the association list). `address` is the identity of
the object, which two maps of the tableau share. Numbers are rational.
-/

namespace GnustepGui.Cassowary

/-- `plain` is `GSCSVaraibleTypeVariable`. -/
inductive GSCSVariableType
  | dummy
  | slack
  | plain
  | objective
  | external
deriving DecidableEq, Repr

/-- The variables of a solver. `slack` are the variables named `s`, `ep` and `em` by one counter,
`artificial` those named `a`; both have the slack type. -/
inductive GSCSVariable
  | dummy (number : Nat)
  | slack (number : Nat)
  | artificial (number : Nat)
  | plain (number : Nat)
  | objective
  | artificialObjective (number : Nat)
  | external (number : Nat)
deriving DecidableEq, Repr

namespace GSCSVariable

def type : GSCSVariable → GSCSVariableType
  | dummy _ => .dummy
  | slack _ => .slack
  | artificial _ => .slack
  | plain _ => .plain
  | objective => .objective
  | artificialObjective _ => .objective
  | external _ => .external

def isDummy (v : GSCSVariable) : Bool := v.type = .dummy

def isExternal (v : GSCSVariable) : Bool := v.type = .external

def isPivotable (v : GSCSVariable) : Bool := v.type = .slack

def isRestricted (v : GSCSVariable) : Bool := v.type = .dummy || v.type = .slack

/-- `_id` is read by the tableau but never assigned. -/
def id (_ : GSCSVariable) : Nat := 0

end GSCSVariable

/-! ## `GSCSFloatComparator` -/

def isApproxiatelyEqual (tol a b : ℚ) : Bool := |a - b| ≤ tol

def isApproxiatelyZero (tol value : ℚ) : Bool := isApproxiatelyEqual tol value 0

theorem isApproxiatelyZero_iff {tol value : ℚ} : isApproxiatelyZero tol value = true ↔ |value| ≤ tol := by
  simp [isApproxiatelyZero, isApproxiatelyEqual]

@[simp] theorem isApproxiatelyZero_exact {value : ℚ} : isApproxiatelyZero 0 value = true ↔ value = 0 := by
  rw [isApproxiatelyZero_iff, abs_nonpos_iff]

/-! ## `GSCSLinearExpression` -/

/-- Equality of maps by their entries, in a form that evaluates. -/
instance : DecidableEq (AList fun _ : GSCSVariable => ℚ) :=
  fun a b => decidable_of_iff (a.entries = b.entries) AList.ext_iff.symm

structure GSCSLinearExpression where
  address : Nat
  constant : ℚ
  terms : AList fun _ : GSCSVariable => ℚ
deriving DecidableEq

namespace GSCSLinearExpression

def initWithConstant (address : Nat) (constant : ℚ) : GSCSLinearExpression := ⟨address, constant, ∅⟩

/-- Oldest term first. -/
def termVariables (e : GSCSLinearExpression) : List GSCSVariable := e.terms.keys.reverse

def multiplierForTerm (e : GSCSLinearExpression) (v : GSCSVariable) : Option ℚ := e.terms.lookup v

def coefficientForTerm (e : GSCSLinearExpression) (v : GSCSVariable) : ℚ :=
  (e.multiplierForTerm v).getD 0

def isTermForVariable (e : GSCSLinearExpression) (v : GSCSVariable) : Bool :=
  (e.multiplierForTerm v).isSome

def isConstant (e : GSCSLinearExpression) : Bool := e.terms.keys.isEmpty

def setConstant (e : GSCSLinearExpression) (constant : ℚ) : GSCSLinearExpression :=
  { e with constant := constant }

def removeVariable (e : GSCSLinearExpression) (v : GSCSVariable) : GSCSLinearExpression :=
  { e with terms := e.terms.erase v }

/-- A term already there moves to the end; a coefficient within the tolerance of 0 changes nothing. -/
def addVariable (tol : ℚ) (e : GSCSLinearExpression) (v : GSCSVariable) (coefficient : ℚ) :
    GSCSLinearExpression :=
  if isApproxiatelyZero tol coefficient then e
  else { e with terms := e.terms.insert v coefficient }

def multiplyConstantAndTermsBy (e : GSCSLinearExpression) (value : ℚ) : GSCSLinearExpression :=
  { e with
    constant := e.constant * value
    terms := ⟨e.terms.entries.map (.map id fun _ x => x * value), e.terms.nodupKeys.map₂ _ _⟩ }

def normalize (e : GSCSLinearExpression) : GSCSLinearExpression := e.multiplyConstantAndTermsBy (-1)

/-- Solve `0 = e` for a term; the reciprocal of its coefficient is returned too. -/
def newSubject (e : GSCSLinearExpression) (subject : GSCSVariable) : GSCSLinearExpression × ℚ :=
  let reciprocal := 1 / e.coefficientForTerm subject
  ((e.multiplyConstantAndTermsBy (-reciprocal)).removeVariable subject, reciprocal)

def anyPivotableVariable (e : GSCSLinearExpression) : Option GSCSVariable :=
  e.termVariables.find? (·.isPivotable)

/-- `copyWithZone:` -/
def copy (tol : ℚ) (e : GSCSLinearExpression) (address : Nat) : GSCSLinearExpression :=
  e.termVariables.foldl (fun expression v => expression.addVariable tol v (e.coefficientForTerm v))
    (initWithConstant address e.constant)

/-! ## Expressions as affine forms -/

/-- The affine form an expression denotes. -/
noncomputable def form (e : GSCSLinearExpression) : Simplex.Form GSCSVariable ℚ :=
  (e.constant, e.terms.lookupFinsupp)

variable (e : GSCSLinearExpression) (v w : GSCSVariable)

@[simp] theorem form_const : e.form.1 = e.constant := rfl

@[simp] theorem form_coeff : e.form.2 v = e.coefficientForTerm v := by
  simp [form, coefficientForTerm, multiplierForTerm]

@[simp] theorem mem_termVariables : v ∈ e.termVariables ↔ v ∈ e.terms := by
  simp [termVariables, AList.mem_keys]

theorem nodup_termVariables : e.termVariables.Nodup := List.nodup_reverse.mpr e.terms.keys_nodup

@[simp] theorem isTermForVariable_iff : e.isTermForVariable v = true ↔ v ∈ e.terms := AList.lookup_isSome

theorem coefficientForTerm_of_notMem (h : v ∉ e.terms) : e.coefficientForTerm v = 0 := by
  unfold coefficientForTerm multiplierForTerm
  rw [AList.lookup_eq_none.mpr h]
  rfl

@[simp] theorem setConstant_constant (c : ℚ) : (e.setConstant c).constant = c := rfl

@[simp] theorem setConstant_terms (c : ℚ) : (e.setConstant c).terms = e.terms := rfl

@[simp] theorem removeVariable_constant : (e.removeVariable v).constant = e.constant := rfl

@[simp] theorem mem_removeVariable : w ∈ (e.removeVariable v).terms ↔ w ≠ v ∧ w ∈ e.terms := AList.mem_erase

theorem removeVariable_coefficient_ne (h : w ≠ v) :
    (e.removeVariable v).coefficientForTerm w = e.coefficientForTerm w := by
  simp [removeVariable, coefficientForTerm, multiplierForTerm, AList.lookup_erase_ne h]

theorem removeVariable_coefficient_self : (e.removeVariable v).coefficientForTerm v = 0 := by
  simp [removeVariable, coefficientForTerm, multiplierForTerm]

theorem removeVariable_of_notMem (h : v ∉ e.terms) : e.removeVariable v = e := by
  have : e.terms.erase v = e.terms := AList.ext (List.kerase_of_notMem_keys h)
  unfold removeVariable
  rw [this]

theorem form_removeVariable : (e.removeVariable v).form = (e.form.1, e.form.2.erase v) := by
  refine Prod.ext rfl (Finsupp.ext fun w => ?_)
  by_cases h : w = v
  · subst h
    simp [removeVariable_coefficient_self]
  · rw [form_coeff, removeVariable_coefficient_ne _ _ _ h, Finsupp.erase_ne h, form_coeff]

variable (tol c : ℚ)

@[simp] theorem addVariable_constant : (e.addVariable tol v c).constant = e.constant := by
  unfold addVariable
  split <;> rfl

@[simp] theorem addVariable_address : (e.addVariable tol v c).address = e.address := by
  unfold addVariable
  split <;> rfl

theorem mem_addVariable : w ∈ (e.addVariable tol v c).terms ↔ w ∈ e.terms ∨ (w = v ∧ ¬ |c| ≤ tol) := by
  unfold addVariable
  rw [← isApproxiatelyZero_iff]
  split
  · next h => simp [h]
  · next h => simp [AList.mem_insert, h, or_comm]

theorem addVariable_coefficient_ne (h : w ≠ v) :
    (e.addVariable tol v c).coefficientForTerm w = e.coefficientForTerm w := by
  unfold addVariable coefficientForTerm multiplierForTerm
  split
  · rfl
  · simp only
    rw [AList.lookup_insert_ne h]

theorem addVariable_coefficient_self (h : ¬ |c| ≤ tol) : (e.addVariable tol v c).coefficientForTerm v = c := by
  unfold addVariable coefficientForTerm multiplierForTerm
  rw [← isApproxiatelyZero_iff] at h
  rw [if_neg h]
  simp

@[simp] theorem multiply_constant : (e.multiplyConstantAndTermsBy c).constant = e.constant * c := rfl

theorem multiply_lookup : (e.multiplyConstantAndTermsBy c).terms.lookup v = (e.terms.lookup v).map (· * c) :=
  List.dlookup_map₂ (f := fun _ x => x * c) v

@[simp] theorem mem_multiply : v ∈ (e.multiplyConstantAndTermsBy c).terms ↔ v ∈ e.terms := by
  rw [← AList.lookup_isSome, multiply_lookup, Option.isSome_map, AList.lookup_isSome]

theorem multiply_coefficient : (e.multiplyConstantAndTermsBy c).coefficientForTerm v = e.coefficientForTerm v * c := by
  unfold coefficientForTerm multiplierForTerm
  rw [multiply_lookup]
  cases e.terms.lookup v <;> simp

theorem form_multiply : (e.multiplyConstantAndTermsBy c).form = c • e.form := by
  refine Prod.ext ?_ (Finsupp.ext fun w => ?_)
  · simp [mul_comm]
  · rw [form_coeff, multiply_coefficient, Prod.smul_snd, Finsupp.smul_apply, form_coeff, smul_eq_mul, mul_comm]

@[simp] theorem mem_newSubject : w ∈ (e.newSubject v).1.terms ↔ w ≠ v ∧ w ∈ e.terms := by
  simp [newSubject]

/-- No stored coefficient is 0. -/
def Reduced : Prop := ∀ v ∈ e.terms, e.coefficientForTerm v ≠ 0

variable {e}

theorem Reduced.mem_iff (h : e.Reduced) : v ∈ e.terms ↔ e.coefficientForTerm v ≠ 0 :=
  ⟨h v, fun hne => by_contra fun hv => hne (e.coefficientForTerm_of_notMem v hv)⟩

theorem Reduced.removeVariable (h : e.Reduced) : (e.removeVariable v).Reduced := by
  intro w hw
  obtain ⟨hne, hw⟩ := (mem_removeVariable e v w).mp hw
  rw [removeVariable_coefficient_ne _ _ _ hne]
  exact h w hw

theorem Reduced.addVariable (h : e.Reduced) (ht : 0 ≤ tol) : (e.addVariable tol v c).Reduced := by
  intro w hw
  by_cases hwv : w = v
  · subst hwv
    by_cases hc : |c| ≤ tol
    · have he : e.addVariable tol w c = e := by
        unfold GSCSLinearExpression.addVariable
        rw [if_pos (isApproxiatelyZero_iff.mpr hc)]
      rw [he] at hw ⊢
      exact h w hw
    · rw [addVariable_coefficient_self _ _ _ _ hc]
      rintro rfl
      simp [ht] at hc
  · rw [addVariable_coefficient_ne _ _ _ _ _ hwv]
    refine h w ?_
    rcases (mem_addVariable e v w tol c).mp hw with h1 | ⟨h1, -⟩
    · exact h1
    · exact absurd h1 hwv

theorem Reduced.multiply (h : e.Reduced) (hc : c ≠ 0) : (e.multiplyConstantAndTermsBy c).Reduced := by
  intro w hw
  rw [multiply_coefficient]
  exact mul_ne_zero (h w ((mem_multiply e w c).mp hw)) hc

theorem Reduced.newSubject (h : e.Reduced) (hv : v ∈ e.terms) : (e.newSubject v).1.Reduced := by
  refine (h.multiply _ ?_).removeVariable _
  rw [neg_ne_zero]
  exact one_div_ne_zero (h v hv)

theorem initWithConstant_reduced (a : Nat) : (initWithConstant a c).Reduced := by
  intro w hw
  simp [initWithConstant] at hw

end GSCSLinearExpression

end GnustepGui.Cassowary
