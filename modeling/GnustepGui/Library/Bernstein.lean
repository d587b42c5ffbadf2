import Mathlib

/-!
# Cubics in Bernstein form

    cubic a b c d t = (1 - t)³ a + 3 (1 - t)² t b + 3 (1 - t) t² c + t³ d

Over a unit interval such a cubic is below whatever is not below its ends and its critical points
(`cubic_le`), and its critical points are the roots of a quadratic (`eq_of_cubicSlope_eq_zero`).
-/

namespace Bernstein

section Field

variable {α : Type*} [Field α]

def cubic (a b c d t : α) : α :=
  (1 - t) * (1 - t) * (1 - t) * a + 3 * (1 - t) * (1 - t) * t * b + 3 * (1 - t) * t * t * c + t * t * t * d

/-- A third of the derivative. -/
def cubicSlope (a b c d t : α) : α :=
  (b - a) * (1 - t) * (1 - t) + 2 * (c - b) * t * (1 - t) + (d - c) * t * t

/-- The coefficient of `t³`. -/
def leading (a b c d : α) : α := d - 3 * c + 3 * b - a

/-- The discriminant of the slope, by four. -/
def discriminant (a b c d : α) : α := a * (d - c) + b * (-d - c) + c * c + b * b

@[simp] theorem cubic_zero (a b c d : α) : cubic a b c d 0 = a := by
  unfold cubic
  ring

@[simp] theorem cubic_one (a b c d : α) : cubic a b c d 1 = d := by
  unfold cubic
  ring

theorem cubic_neg (a b c d t : α) : cubic (-a) (-b) (-c) (-d) t = -cubic a b c d t := by
  unfold cubic
  ring

theorem cubicSlope_neg (a b c d t : α) : cubicSlope (-a) (-b) (-c) (-d) t = -cubicSlope a b c d t := by
  unfold cubicSlope
  ring

theorem leading_mul_cubicSlope (a b c d t : α) : leading a b c d * cubicSlope a b c d t =
      (leading a b c d * t + (c - 2 * b + a)) ^ 2 - discriminant a b c d := by
  unfold leading cubicSlope discriminant
  ring

end Field

section Real

variable {a b c d t : ℝ}

/-- The critical points, by the square root of the discriminant. -/
theorem eq_of_cubicSlope_eq_zero (hl : leading a b c d ≠ 0) (hsl : cubicSlope a b c d t = 0) :
    0 ≤ discriminant a b c d ∧ (t = (c - 2 * b + a + √(discriminant a b c d)) / -leading a b c d ∨
        t = (c - 2 * b + a - √(discriminant a b c d)) / -leading a b c d) := by
  have hs := leading_mul_cubicSlope a b c d t
  rw [hsl, mul_zero, eq_comm, sub_eq_zero] at hs
  have hp : 0 ≤ discriminant a b c d := hs ▸ sq_nonneg _
  have hn : -leading a b c d ≠ 0 := neg_ne_zero.mpr hl
  refine ⟨hp, ?_⟩
  rw [eq_div_iff hn, eq_div_iff hn]
  have hr := sq_eq_sq_iff_eq_or_eq_neg.mp (hs.trans (Real.sq_sqrt hp).symm)
  rcases hr with h | h
  · right
    linarith
  · left
    linarith

theorem hasDerivAt_cubic (a b c d t : ℝ) : HasDerivAt (cubic a b c d) (3 * cubicSlope a b c d t) t := by
  have hp : cubic a b c d = fun t => leading a b c d * t ^ 3 + 3 * (c - 2 * b + a) * t ^ 2 + 3 * (b - a) * t + a := by
    funext t
    unfold cubic leading
    ring
  have hd := ((((hasDerivAt_pow 3 t).const_mul (leading a b c d)).add
    ((hasDerivAt_pow 2 t).const_mul (3 * (c - 2 * b + a)))).add ((hasDerivAt_id t).const_mul (3 * (b - a)))).add_const a
  rw [hp]
  refine hd.congr_deriv ?_
  unfold leading cubicSlope
  push_cast
  ring

theorem cubic_le {M : ℝ} (ha : a ≤ M) (hd : d ≤ M)
    (hcr : ∀ u, 0 < u → u < 1 → cubicSlope a b c d u = 0 → cubic a b c d u ≤ M) (ht : 0 ≤ t) (ht' : t ≤ 1) :
    cubic a b c d t ≤ M := by
  have hc : ContinuousOn (cubic a b c d) (Set.Icc 0 1) := fun u _ =>
    (hasDerivAt_cubic a b c d u).continuousAt.continuousWithinAt
  obtain ⟨u, hu, hm⟩ := isCompact_Icc.exists_isMaxOn (Set.nonempty_Icc.mpr zero_le_one) hc
  refine (hm ⟨ht, ht'⟩).trans ?_
  rcases hu.1.eq_or_lt with hz | hp
  · rw [← hz, cubic_zero]
    exact ha
  rcases hu.2.eq_or_lt with ho | hlt
  · rw [ho, cubic_one]
    exact hd
  · have hl : IsLocalMax (cubic a b c d) u := hm.isLocalMax (Icc_mem_nhds hp hlt)
    have hs := hl.hasDerivAt_eq_zero (hasDerivAt_cubic a b c d u)
    exact hcr u hp hlt (by linarith)

theorem le_cubic {M : ℝ} (ha : M ≤ a) (hd : M ≤ d)
    (hc : ∀ u, 0 < u → u < 1 → cubicSlope a b c d u = 0 → M ≤ cubic a b c d u) (ht : 0 ≤ t) (ht' : t ≤ 1) :
    M ≤ cubic a b c d t := by
  have hn := cubic_le (a := -a) (b := -b) (c := -c) (d := -d) (neg_le_neg ha) (neg_le_neg hd)
    (fun u hu hu' hs => by
      rw [cubicSlope_neg, neg_eq_zero] at hs
      rw [cubic_neg]
      exact neg_le_neg (hc u hu hu' hs)) ht ht'
  rw [cubic_neg] at hn
  exact neg_le_neg_iff.mp hn

end Real

end Bernstein
