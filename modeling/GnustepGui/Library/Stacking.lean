import Mathlib.Algebra.Order.BigOperators.Group.Finset

/-!
# Stacked lengths

Lengths `h 0, h 1, …` one after the other: the `i`th begins at `top h i`, the sum of those before it, and
ends where the next one begins. Positive lengths cover every position up to their sum exactly once
(`exists_holds`, `Holds.unique`).
-/

namespace Stacking

variable {K : Type*} [AddCommGroup K] [LinearOrder K] [IsOrderedAddMonoid K] {h : Nat → K} {y : K} {i j n : Nat}

def top (h : Nat → K) (i : Nat) : K := ∑ k ∈ Finset.range i, h k

/-- The position is in the `i`th length. -/
def Holds (h : Nat → K) (y : K) (i : Nat) : Prop := top h i ≤ y ∧ y < top h (i + 1)

section

omit [LinearOrder K] [IsOrderedAddMonoid K]

@[simp] theorem top_zero : top h 0 = 0 := Finset.sum_range_zero h

theorem top_succ (h : Nat → K) (i : Nat) : top h (i + 1) = top h i + h i := Finset.sum_range_succ h i

end

theorem top_mono (hp : ∀ k < n, 0 < h k) (hi : i ≤ j) (hj : j ≤ n) : top h i ≤ top h j := by
  induction j, hi using Nat.le_induction with
  | base => exact le_rfl
  | succ j hi ih =>
    rw [top_succ]
    exact (ih (by omega)).trans (le_add_of_nonneg_right (hp j (by omega)).le)

theorem top_nonneg (hp : ∀ k < n, 0 < h k) (hi : i ≤ n) : 0 ≤ top h i := by
  rw [← top_zero (h := h)]
  exact top_mono hp (Nat.zero_le i) hi

theorem Holds.unique (hp : ∀ k < n, 0 < h k) (hi : i < n) (hj : j < n) (hy : Holds h y i)
    (hyj : Holds h y j) : i = j := by
  rcases Nat.lt_trichotomy i j with hlt | heq | hgt
  · exact absurd (hy.2.trans_le (top_mono hp hlt hj.le)) (not_lt.mpr hyj.1)
  · exact heq
  · exact absurd (hyj.2.trans_le (top_mono hp hgt hi.le)) (not_lt.mpr hy.1)

omit [IsOrderedAddMonoid K] in
theorem exists_holds (hy : 0 ≤ y) (hn : y < top h n) : ∃ i < n, Holds h y i := by
  induction n with
  | zero => exact absurd (hn.trans_eq top_zero) (not_lt.mpr hy)
  | succ n ih =>
    by_cases hlt : y < top h n
    · obtain ⟨i, hi, hh⟩ := ih hlt
      exact ⟨i, Nat.lt_succ_of_lt hi, hh⟩
    · exact ⟨n, Nat.lt_succ_self n, not_lt.mp hlt, hn⟩

/-- A position in one of the first lengths lies between the ends of them all. -/
theorem Holds.bounds (hp : ∀ k < n, 0 < h k) (hi : i < n) (hy : Holds h y i) : 0 ≤ y ∧ y < top h n :=
  ⟨(top_nonneg hp hi.le).trans hy.1, hy.2.trans_le (top_mono hp hi le_rfl)⟩

omit [LinearOrder K] [IsOrderedAddMonoid K] in
theorem top_const (c : K) (i : Nat) : top (fun _ => c) i = i • c := by
  rw [top, Finset.sum_const, Finset.card_range]

end Stacking
