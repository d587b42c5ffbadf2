import GnustepGui.Cassowary.Solver

/-!
# Combining expressions

`addExpression:multiplier:` adds the terms of one expression to another one by one, and
`addVariable:coefficient:` puts the new coefficient in the place of the old one. A variable that
both expressions have keeps the coefficient of the second only; the constraint of two expressions
inherits this.
-/

namespace GnustepGui.Cassowary

open Simplex Simplex.Form

namespace GSCSLinearExpression

/-- `addExpression:multiplier:` -/
def addExpression (tol : ℚ) (e expression : GSCSLinearExpression) (multiplier : ℚ) : GSCSLinearExpression :=
  expression.termVariables.foldl
    (fun e term => e.addVariable tol term (expression.coefficientForTerm term * multiplier))
    (e.setConstant (e.constant + expression.constant * multiplier))

end GSCSLinearExpression

inductive GSCSConstraintOperator
  | equal
  | greaterThanOrEqual
  | lessThanOrEqual
deriving DecidableEq, Repr

/-- What `initWithType:strength:expression:variable:` is given for a constraint without a variable. -/
structure LinearConstraint where
  type : GSCSConstraintType
  strength : GSCSStrength
  expression : GSCSLinearExpression

namespace LinearConstraint

def setStrength (c : LinearConstraint) (strength : GSCSStrength) : LinearConstraint := { c with strength := strength }

/-- `constraintWithLeftExpression:operator:rightExpression:`; `address` is that of the copy. -/
def withLeftExpression (tol : ℚ) (address : Nat) (lhs : GSCSLinearExpression) (operator : GSCSConstraintOperator)
    (rhs : GSCSLinearExpression) : LinearConstraint :=
  let expression := rhs.copy tol address
  match operator with
  | .equal => ⟨.linear, .strengthRequired, expression.addExpression tol lhs (-1)⟩
  | .greaterThanOrEqual =>
    ⟨.linearInequity, .strengthRequired, (expression.multiplyConstantAndTermsBy (-1)).addExpression tol lhs 1⟩
  | .lessThanOrEqual => ⟨.linearInequity, .strengthRequired, expression.addExpression tol lhs (-1)⟩

end LinearConstraint

/-! ## Adding terms -/

namespace GSCSLinearExpression

variable {tol : ℚ} (e : GSCSLinearExpression) (v : GSCSVariable)

theorem addVariable_coefficient_of_le {c : ℚ} (w : GSCSVariable) (h : |c| ≤ tol) :
    (e.addVariable tol w c).coefficientForTerm v = e.coefficientForTerm v := by
  rw [addVariable, if_pos (isApproxiatelyZero_iff.mpr h)]

theorem addTerms_constant (c : GSCSVariable → ℚ) (terms : List GSCSVariable) :
    (terms.foldl (fun e term => e.addVariable tol term (c term)) e).constant = e.constant := by
  induction terms generalizing e with
  | nil => rfl
  | cons term terms ih => rw [List.foldl_cons, ih, addVariable_constant]

theorem addTerms_notMem (c : GSCSVariable → ℚ) {terms : List GSCSVariable} (hv : v ∉ terms) :
    (terms.foldl (fun e term => e.addVariable tol term (c term)) e).coefficientForTerm v = e.coefficientForTerm v := by
  induction terms generalizing e with
  | nil => rfl
  | cons term terms ih =>
    obtain ⟨hne, hr⟩ := not_or.mp (fun h => hv (List.mem_cons.mpr h))
    rw [List.foldl_cons, ih _ hr, addVariable_coefficient_ne _ _ _ _ _ hne]

theorem addTerms_mem (c : GSCSVariable → ℚ) {terms : List GSCSVariable} (hnd : terms.Nodup) (hv : v ∈ terms) :
    (terms.foldl (fun e term => e.addVariable tol term (c term)) e).coefficientForTerm v =
      if |c v| ≤ tol then e.coefficientForTerm v else c v := by
  induction terms generalizing e with
  | nil => cases hv
  | cons term terms ih =>
    obtain ⟨ht, hnd⟩ := List.nodup_cons.mp hnd
    rw [List.foldl_cons]
    by_cases hne : v = term
    · subst hne
      rw [addTerms_notMem _ v c ht]
      split
      · next hc => exact addVariable_coefficient_of_le e v v hc
      · next hc => exact addVariable_coefficient_self _ _ _ _ hc
    · rw [ih _ hnd ((List.mem_cons.mp hv).resolve_left hne), addVariable_coefficient_ne _ _ _ _ _ hne]

variable (htol : 0 ≤ tol)
include htol

theorem addTerms_coefficient (expression : GSCSLinearExpression) (f : ℚ → ℚ) (hf : f 0 = 0) :
    (expression.termVariables.foldl
        (fun e term => e.addVariable tol term (f (expression.coefficientForTerm term))) e).coefficientForTerm v =
      if |f (expression.coefficientForTerm v)| ≤ tol then e.coefficientForTerm v
      else f (expression.coefficientForTerm v) := by
  by_cases hv : v ∈ expression.termVariables
  · exact addTerms_mem e v (fun w => f (expression.coefficientForTerm w)) expression.nodup_termVariables hv
  · have hz : expression.coefficientForTerm v = 0 := by
      apply coefficientForTerm_of_notMem
      rwa [← mem_termVariables]
    rw [addTerms_notMem e v (fun w => f (expression.coefficientForTerm w)) hv, hz, hf, abs_zero, if_pos htol]

theorem addExpression_coefficient (expression : GSCSLinearExpression) (multiplier : ℚ) :
    (e.addExpression tol expression multiplier).coefficientForTerm v =
      if |expression.coefficientForTerm v * multiplier| ≤ tol then e.coefficientForTerm v
      else expression.coefficientForTerm v * multiplier :=
  addTerms_coefficient (e.setConstant _) v htol expression (· * multiplier) (zero_mul multiplier)

theorem copy_coefficient (address : Nat) :
    (e.copy tol address).coefficientForTerm v =
      if |e.coefficientForTerm v| ≤ tol then 0 else e.coefficientForTerm v :=
  addTerms_coefficient (initWithConstant address e.constant) v htol e id rfl

omit htol

theorem addExpression_constant (expression : GSCSLinearExpression) (multiplier : ℚ) :
    (e.addExpression tol expression multiplier).constant = e.constant + expression.constant * multiplier :=
  addTerms_constant (e.setConstant _) (fun w => expression.coefficientForTerm w * multiplier) _

theorem copy_constant (address : Nat) : (e.copy tol address).constant = e.constant :=
  addTerms_constant (initWithConstant address e.constant) e.coefficientForTerm _

end GSCSLinearExpression

/-! ## What the expressions denote -/

open GSCSLinearExpression

namespace GSCSConstraintOperator

/-- What is zero, or not negative. -/
def difference {K : Type*} [Sub K] (lhs rhs : K) : GSCSConstraintOperator → K
  | .greaterThanOrEqual => lhs - rhs
  | _ => rhs - lhs

theorem difference_map {K L : Type*} [AddGroup K] [AddGroup L] (f : K →+ L) (lhs rhs : K)
    (operator : GSCSConstraintOperator) : f (operator.difference lhs rhs) = operator.difference (f lhs) (f rhs) := by
  cases operator <;> exact map_sub f _ _

theorem difference_eq_iff {lhs rhs lhs' rhs' : ℚ} (operator : GSCSConstraintOperator) :
    operator.difference lhs rhs = operator.difference lhs' rhs' ↔ rhs - lhs = rhs' - lhs' := by
  cases operator with
  | greaterThanOrEqual =>
    show lhs - rhs = lhs' - rhs' ↔ _
    rw [← neg_sub rhs, ← neg_sub rhs', neg_inj]
  | equal => rfl
  | lessThanOrEqual => rfl

def constraintType : GSCSConstraintOperator → GSCSConstraintType
  | .equal => .linear
  | _ => .linearInequity

end GSCSConstraintOperator

/-- `addExpression:multiplier:` is the linear operation. -/
def AddsLinearly (tol : ℚ) (a b : GSCSLinearExpression) (m : ℚ) : Prop :=
  ∀ σ, eval σ (a.addExpression tol b m).form = eval σ a.form + m * eval σ b.form

/-- The constraint of two expressions, of any strength, says that they are in the relation. -/
def Denotes (tol : ℚ) (address : Nat) (lhs : GSCSLinearExpression) (operator : GSCSConstraintOperator)
    (rhs : GSCSLinearExpression) : Prop :=
  ∀ strength, let c := (LinearConstraint.withLeftExpression tol address lhs operator rhs).setStrength strength
    c.type = operator.constraintType ∧
      ∀ σ, eval σ c.expression.form = operator.difference (eval σ lhs.form) (eval σ rhs.form)

/-- No variable is in both expressions, and no coefficient that is added is within the tolerance. -/
def Combinable (tol : ℚ) (a b : GSCSLinearExpression) (m : ℚ) : Prop :=
  ∀ v, b.coefficientForTerm v * m = 0 ∨ (a.coefficientForTerm v = 0 ∧ tol < |b.coefficientForTerm v * m|)

/-- A variable is in one expression at most, with a coefficient beyond the tolerance, or it is in both with one
coefficient within it. -/
def Separate (tol : ℚ) (lhs rhs : GSCSLinearExpression) : Prop :=
  ∀ v, (rhs.coefficientForTerm v = 0 ∧ tol < |lhs.coefficientForTerm v|) ∨
    (lhs.coefficientForTerm v = 0 ∧ tol < |rhs.coefficientForTerm v|) ∨
    (lhs.coefficientForTerm v = rhs.coefficientForTerm v ∧ |lhs.coefficientForTerm v| ≤ tol)

variable {tol : ℚ} (htol : 0 ≤ tol)

theorem eval_form_eq_iff {e : GSCSLinearExpression} {f : Form GSCSVariable ℚ} :
    (∀ σ, eval σ e.form = eval σ f) ↔ e.constant = f.1 ∧ ∀ v, e.coefficientForTerm v = f.2 v := by
  rw [eval_inj, Prod.ext_iff, Finsupp.ext_iff]
  simp only [form_const, form_coeff]

include htol in
theorem addsLinearly_iff {a b : GSCSLinearExpression} {m : ℚ} : AddsLinearly tol a b m ↔ Combinable tol a b m := by
  have hf (σ : GSCSVariable → ℚ) : eval σ a.form + m * eval σ b.form = eval σ (a.form + m • b.form) := by
    rw [map_add, map_smul, smul_eq_mul]
  unfold AddsLinearly
  simp only [hf]
  rw [eval_form_eq_iff, and_iff_right (by rw [addExpression_constant]; simp [mul_comm])]
  refine forall_congr' fun v => ?_
  rw [addExpression_coefficient _ _ htol]
  simp only [Prod.snd_add, Prod.smul_snd, Finsupp.add_apply, Finsupp.smul_apply, form_coeff, smul_eq_mul, mul_comm m]
  split
  · next hle =>
    rw [left_eq_add, or_iff_left]
    exact fun h => absurd hle (not_le.mpr h.2)
  · next hlt =>
    rw [right_eq_add]
    refine ⟨fun h => .inr ⟨h, not_le.mp hlt⟩, fun h => h.elim (fun hz => ?_) And.left⟩
    rw [hz, abs_zero] at hlt
    exact absurd htol hlt

/-! ## The constraint of two expressions -/

namespace LinearConstraint

variable (address : Nat) (lhs rhs : GSCSLinearExpression) (operator : GSCSConstraintOperator)

theorem withLeftExpression_type : (withLeftExpression tol address lhs operator rhs).type = operator.constraintType := by
  cases operator <;> rfl

theorem withLeftExpression_constant : (withLeftExpression tol address lhs operator rhs).expression.constant =
      operator.difference lhs.constant rhs.constant := by
  cases operator with
  | equal =>
    show (addExpression _ _ _ _).constant = rhs.constant - lhs.constant
    rw [addExpression_constant, copy_constant]
    ring
  | greaterThanOrEqual =>
    show (addExpression _ _ _ _).constant = lhs.constant - rhs.constant
    rw [addExpression_constant, multiply_constant, copy_constant]
    ring
  | lessThanOrEqual =>
    show (addExpression _ _ _ _).constant = rhs.constant - lhs.constant
    rw [addExpression_constant, copy_constant]
    ring

include htol

/-- Terms of the left expression take the place of those of the right one. -/
theorem withLeftExpression_coefficient (v : GSCSVariable) :
    (withLeftExpression tol address lhs operator rhs).expression.coefficientForTerm v =
      operator.difference (if |lhs.coefficientForTerm v| ≤ tol then 0 else lhs.coefficientForTerm v)
        (if |lhs.coefficientForTerm v| ≤ tol then
          if |rhs.coefficientForTerm v| ≤ tol then 0 else rhs.coefficientForTerm v else 0) := by
  cases operator with
  | equal =>
    show (addExpression _ _ _ _).coefficientForTerm v = _ - _
    rw [addExpression_coefficient _ _ htol, copy_coefficient _ _ htol, mul_neg_one, abs_neg]
    split
    · rw [sub_zero]
    · rw [zero_sub]
  | greaterThanOrEqual =>
    show (addExpression _ _ _ _).coefficientForTerm v = _ - _
    rw [addExpression_coefficient _ _ htol, multiply_coefficient, copy_coefficient _ _ htol, mul_one, mul_neg_one]
    split
    · rw [zero_sub]
    · rw [sub_zero]
  | lessThanOrEqual =>
    show (addExpression _ _ _ _).coefficientForTerm v = _ - _
    rw [addExpression_coefficient _ _ htol, copy_coefficient _ _ htol, mul_neg_one, abs_neg]
    split
    · rw [sub_zero]
    · rw [zero_sub]

end LinearConstraint

include htol in
theorem kept_eq_iff {l r : ℚ} :
    (if |l| ≤ tol then if |r| ≤ tol then 0 else r else 0) - (if |l| ≤ tol then 0 else l) = r - l ↔
      (r = 0 ∧ tol < |l|) ∨ (l = 0 ∧ tol < |r|) ∨ (l = r ∧ |l| ≤ tol) := by
  by_cases hl : |l| ≤ tol
  · rw [if_pos hl, if_pos hl, sub_zero, or_iff_right fun h => absurd hl (not_le.mpr h.2)]
    by_cases hr : |r| ≤ tol
    · rw [if_pos hr, eq_comm, sub_eq_zero, eq_comm, or_iff_right fun h => absurd hr (not_le.mpr h.2)]
      exact (and_iff_left hl).symm
    · rw [if_neg hr, eq_comm, sub_eq_self, or_iff_left]
      · exact (and_iff_left (not_le.mp hr)).symm
      · rintro ⟨rfl, -⟩
        exact hr hl
  · rw [if_neg hl, if_neg hl, sub_left_inj, eq_comm, or_iff_left]
    · exact (and_iff_left (not_le.mp hl)).symm
    · rintro (⟨rfl, -⟩ | ⟨-, h⟩)
      · rw [abs_zero] at hl
        exact hl htol
      · exact hl h

include htol in
theorem eval_withLeftExpression_iff {address : Nat} {lhs rhs : GSCSLinearExpression}
    {operator : GSCSConstraintOperator} :
    (∀ σ, eval σ (LinearConstraint.withLeftExpression tol address lhs operator rhs).expression.form =
      operator.difference (eval σ lhs.form) (eval σ rhs.form)) ↔ Separate tol lhs rhs := by
  have hf (σ : GSCSVariable → ℚ) : operator.difference (eval σ lhs.form) (eval σ rhs.form) =
      eval σ (operator.difference lhs.form rhs.form) :=
    (operator.difference_map (eval σ).toAddMonoidHom lhs.form rhs.form).symm
  have hc : (operator.difference lhs.form rhs.form).1 = operator.difference lhs.constant rhs.constant :=
    operator.difference_map (AddMonoidHom.fst ℚ (GSCSVariable →₀ ℚ)) lhs.form rhs.form
  have hcf (v : GSCSVariable) : (operator.difference lhs.form rhs.form).2 v =
      operator.difference (lhs.coefficientForTerm v) (rhs.coefficientForTerm v) := by
    rw [← form_coeff, ← form_coeff]
    exact operator.difference_map ((Finsupp.applyAddHom v).comp (AddMonoidHom.snd ℚ (GSCSVariable →₀ ℚ)))
      lhs.form rhs.form
  simp only [hf]
  rw [eval_form_eq_iff, hc, and_iff_right (LinearConstraint.withLeftExpression_constant _ _ _ _)]
  refine forall_congr' fun v => ?_
  rw [hcf, LinearConstraint.withLeftExpression_coefficient htol, GSCSConstraintOperator.difference_eq_iff]
  exact kept_eq_iff htol

end GnustepGui.Cassowary
