import Mathlib

/-!
# Affine forms

A form is a constant and a finitely supported vector of coefficients, `c + Σ aᵥ · v`. Forms are added and scaled as
elements of a product of modules, and `eval σ` is linear in the form.
-/

namespace Simplex

variable {V K : Type*} [Field K]

abbrev Form (V K : Type*) [Field K] := K × (V →₀ K)

namespace Form

/-- The value of a form under an assignment. -/
noncomputable def eval (σ : V → K) : Form V K →ₗ[K] K :=
  LinearMap.fst K K (V →₀ K) + (Finsupp.linearCombination K σ).comp (LinearMap.snd K K (V →₀ K))

theorem eval_eq (σ : V → K) (f : Form V K) : eval σ f = f.1 + f.2.sum fun v c => c * σ v := by
  simp [eval, Finsupp.linearCombination_apply]

/-- The form that is one variable. -/
noncomputable def term (v : V) : Form V K := (0, Finsupp.single v 1)

@[simp] theorem eval_term (σ : V → K) (v : V) : eval σ (term v) = σ v := by
  simp [eval, term]

@[simp] theorem term_const (v : V) : (term v : Form V K).1 = 0 := rfl

theorem term_coeff_self (v : V) : (term v : Form V K).2 v = 1 := by simp [term]

theorem term_coeff_ne {v w : V} (h : w ≠ v) : (term v : Form V K).2 w = 0 := by
  simp [term, Ne.symm h]

variable {f : Form V K}

theorem eval_congr {σ τ : V → K} (h : ∀ v, f.2 v ≠ 0 → σ v = τ v) : eval σ f = eval τ f := by
  rw [eval_eq, eval_eq]
  congr 1
  apply Finsupp.sum_congr
  intro v hv
  rw [h v (Finsupp.mem_support_iff.mp hv)]

theorem eval_single [DecidableEq V] (v : V) (f : Form V K) : eval (Pi.single v 1) f = f.1 + f.2 v := by
  rw [eval_eq, Finsupp.sum_eq_single v]
  · rw [Pi.single_eq_same, mul_one]
  · intro w _ hne
    rw [Pi.single_eq_of_ne hne, mul_zero]
  · intro _
    exact zero_mul _

/-- A form is known from its values. -/
theorem eval_inj {f g : Form V K} : (∀ σ : V → K, eval σ f = eval σ g) ↔ f = g := by
  classical
  constructor
  · intro h
    have hc : f.1 = g.1 := by
      have hz := h 0
      simpa [eval_eq] using hz
    refine Prod.ext hc (Finsupp.ext fun v => ?_)
    have hs := h (Pi.single v 1)
    rw [eval_single, eval_single, hc] at hs
    exact add_left_cancel hs
  · rintro rfl σ
    rfl

variable {σ : V → K}

theorem eval_eq_const (h : ∀ v, f.2 v ≠ 0 → σ v = 0) : eval σ f = f.1 := by
  have hz : eval σ f = eval (fun _ => 0) f := eval_congr h
  rw [hz, eval_eq]
  simp

theorem eval_update [DecidableEq V] (σ : V → K) (v : V) (t : K) (f : Form V K) :
    eval (Function.update σ v t) f = eval σ f + f.2 v * (t - σ v) := by
  have hspl : f = (f.1, f.2.erase v) + f.2 v • term v := by
    refine Prod.ext (by simp [term]) ?_
    rw [Prod.snd_add, Prod.smul_snd, term, Finsupp.smul_single, smul_eq_mul, mul_one, Finsupp.erase_add_single]
  have hr : eval (Function.update σ v t) (f.1, f.2.erase v) = eval σ (f.1, f.2.erase v) := by
    apply eval_congr
    intro w hw
    have hne : w ≠ v := by
      rintro rfl
      simp at hw
    exact Function.update_of_ne hne t σ
  have hs : eval σ f = eval σ (f.1, f.2.erase v) + f.2 v * σ v := by
    conv_lhs => rw [hspl]
    rw [map_add, map_smul, eval_term, smul_eq_mul]
  have ht : eval (Function.update σ v t) f = eval σ (f.1, f.2.erase v) + f.2 v * t := by
    conv_lhs => rw [hspl]
    rw [map_add, map_smul, eval_term, smul_eq_mul, hr, Function.update_self]
  rw [hs, ht]
  ring

/-! ## Substitution -/

/-- `g` with the variable `v` replaced by the form `f`. -/
noncomputable def substitute (v : V) (f g : Form V K) : Form V K := g + g.2 v • (f - term v)

theorem eval_substitute {v : V} (h : σ v = eval σ f) (g : Form V K) : eval σ (substitute v f g) = eval σ g := by
  unfold substitute
  rw [map_add, map_smul, map_sub, eval_term, h, sub_self, smul_zero, add_zero]

theorem substitute_const (v : V) (f g : Form V K) : (substitute v f g).1 = g.1 + g.2 v * f.1 := by
  simp [substitute]

theorem substitute_coeff_self {v : V} (hf : f.2 v = 0) (g : Form V K) : (substitute v f g).2 v = 0 := by
  simp [substitute, hf, term]

theorem substitute_coeff_ne {v w : V} (h : w ≠ v) (f g : Form V K) :
    (substitute v f g).2 w = g.2 w + g.2 v * f.2 w := by
  simp [substitute, term, Ne.symm h]

/-- A form without the variable is not changed. -/
theorem substitute_of_coeff_eq_zero {v : V} (f : Form V K) {g : Form V K} (h : g.2 v = 0) : substitute v f g = g := by
  unfold substitute
  rw [h, zero_smul, add_zero]

theorem substitute_coeff_ne_zero {v w : V} {f g : Form V K} (hf : f.2 v = 0)
    (h : (substitute v f g).2 w ≠ 0) : w ≠ v ∧ (g.2 w ≠ 0 ∨ (g.2 v ≠ 0 ∧ f.2 w ≠ 0)) := by
  have hne : w ≠ v := by
    rintro rfl
    exact h (substitute_coeff_self hf g)
  refine ⟨hne, ?_⟩
  rw [substitute_coeff_ne hne] at h
  by_contra hc
  push Not at hc
  by_cases hv : g.2 v = 0
  · rw [hc.1, hv] at h
    simp at h
  · rw [hc.1, hc.2 hv] at h
    simp at h

/-! ## Changing the subject of an equation -/

/-- The equation `u = f` solved for the variable `v` of `f`. -/
noncomputable def solveFor (u v : V) (f : Form V K) : Form V K :=
  (f.2 v)⁻¹ • (term u - f) + term v

theorem eval_solveFor {u v : V} (hv : f.2 v ≠ 0) : σ v = eval σ (solveFor u v f) ↔ σ u = eval σ f := by
  unfold solveFor
  rw [map_add, map_smul, map_sub, eval_term, eval_term, smul_eq_mul]
  constructor
  · intro h
    have h0 : (f.2 v)⁻¹ * (σ u - eval σ f) = 0 := by linear_combination -h
    rcases mul_eq_zero.mp h0 with h1 | h1
    · exact absurd h1 (inv_ne_zero hv)
    · linear_combination h1
  · intro h
    rw [h]
    ring

theorem solveFor_const (u v : V) (f : Form V K) : (solveFor u v f).1 = -f.1 / f.2 v := by
  simp [solveFor, term, div_eq_inv_mul]

theorem solveFor_coeff_self {u v : V} (hv : f.2 v ≠ 0) (hu : u ≠ v) : (solveFor u v f).2 v = 0 := by
  simp [solveFor, term, hu, hv]

theorem solveFor_coeff_subject {u v : V} (hu : f.2 u = 0) (huv : u ≠ v) : (solveFor u v f).2 u = (f.2 v)⁻¹ := by
  simp [solveFor, term, Ne.symm huv, hu]

theorem solveFor_coeff_ne {u v w : V} (f : Form V K) (hu : w ≠ u) (hv : w ≠ v) :
    (solveFor u v f).2 w = -f.2 w / f.2 v := by
  simp [solveFor, term, Ne.symm hu, Ne.symm hv, div_eq_inv_mul]

theorem solveFor_coeff_ne_zero {u v w : V} (hv : f.2 v ≠ 0) (huv : u ≠ v)
    (h : (solveFor u v f).2 w ≠ 0) : w = u ∨ (w ≠ v ∧ f.2 w ≠ 0) := by
  by_cases hu : w = u
  · exact Or.inl hu
  · right
    have hw : w ≠ v := by
      rintro rfl
      exact h (solveFor_coeff_self hv huv)
    refine ⟨hw, fun h0 => h ?_⟩
    rw [solveFor_coeff_ne f hu hw, h0]
    simp

end Form

end Simplex
