import GnustepGui.Library.Bernstein

/-!
# Halves and chords of cubics

De Casteljau's construction at one half gives the control points of the two halves of a cubic, and halves the
steps between them (`StepsWithin.left`, `StepsWithin.right`). A plane cubic whose inner control points are
beside its chord, or behind it by no more than they may be beside it, stays that near to the chord
(`near_chord`).
-/

namespace Bernstein

/-! ## Halves -/

section Halves

variable {α : Type*} [Field α] [CharZero α]

theorem cubic_left (a b c d t : α) :
    cubic a ((a + b) / 2) ((a + 2 * b + c) / 4) ((a + 3 * (b + c) + d) / 8) t = cubic a b c d (t / 2) := by
  unfold cubic
  field_simp
  ring

theorem cubic_right (a b c d t : α) :
    cubic ((a + 3 * (b + c) + d) / 8) ((d + 2 * c + b) / 4) ((d + c) / 2) d t = cubic a b c d ((1 + t) / 2) := by
  unfold cubic
  field_simp
  ring

omit [CharZero α] in
theorem cubic_reversed (a b c d t : α) : cubic d c b a (1 - t) = cubic a b c d t := by
  unfold cubic
  ring

end Halves

section Steps

variable {α : Type*} [Field α] [LinearOrder α] [IsStrictOrderedRing α]

/-- No step between neighbouring control points is longer than `B`. -/
def StepsWithin (B a b c d : α) : Prop :=
  |b - a| ≤ B ∧ |c - b| ≤ B ∧ |d - c| ≤ B

variable {B a b c d : α}

omit [IsStrictOrderedRing α] in
theorem StepsWithin.mono {B' : α} (h : StepsWithin B a b c d) (hle : B ≤ B') : StepsWithin B' a b c d :=
  ⟨h.1.trans hle, h.2.1.trans hle, h.2.2.trans hle⟩

omit [IsStrictOrderedRing α] in
theorem exists_stepsWithin (a b c d : α) : ∃ B, StepsWithin B a b c d := by
  refine ⟨max |b - a| (max |c - b| |d - c|), le_max_left .., ?_, ?_⟩
  · exact (le_max_left ..).trans (le_max_right ..)
  · exact (le_max_right ..).trans (le_max_right ..)

theorem StepsWithin.left (h : StepsWithin B a b c d) :
    StepsWithin (B / 2) a ((a + b) / 2) ((a + 2 * b + c) / 4) ((a + 3 * (b + c) + d) / 8) := by
  obtain ⟨ha, hb, hc⟩ := h
  rw [abs_le] at ha hb hc
  refine ⟨?_, ?_, ?_⟩ <;> rw [abs_le] <;> constructor <;> linarith

theorem StepsWithin.right (h : StepsWithin B a b c d) :
    StepsWithin (B / 2) ((a + 3 * (b + c) + d) / 8) ((d + 2 * c + b) / 4) ((d + c) / 2) d := by
  obtain ⟨ha, hb, hc⟩ := h
  rw [abs_le] at ha hb hc
  refine ⟨?_, ?_, ?_⟩ <;> rw [abs_le] <;> constructor <;> linarith

theorem StepsWithin.chord_sq_le (h : StepsWithin B a b c d) : (d - a) * (d - a) ≤ 9 * (B * B) := by
  obtain ⟨ha, hb, hc⟩ := h
  rw [abs_le] at ha hb hc
  nlinarith [mul_nonneg (by linarith : 0 ≤ 3 * B - (d - a)) (by linarith : 0 ≤ 3 * B + (d - a))]

/-- Halving often enough makes any bound small. -/
theorem exists_lt_pow_four [Archimedean α] (x : α) : ∃ n : ℕ, x < 4 ^ n := pow_unbounded_of_one_lt x (by norm_num)

end Steps

/-! ## Chords -/

section Chords

variable {α : Type*} [Field α] [LinearOrder α] [IsStrictOrderedRing α] {U1 U2 V1 V2 D M t : α}

theorem beside_sq_le (ht : 0 ≤ t) (ht' : t ≤ 1) (hV1 : V1 * V1 ≤ M) (hV2 : V2 * V2 ≤ M) :
    cubic 0 V1 V2 0 t * cubic 0 V1 V2 0 t ≤ (3 * (1 - t) * t) * (3 * (1 - t) * t) * M := by
  have hf : cubic 0 V1 V2 0 t = 3 * (1 - t) * t * ((1 - t) * V1 + t * V2) := by
    unfold cubic
    ring
  have hc : ((1 - t) * V1 + t * V2) * ((1 - t) * V1 + t * V2) ≤ M := by
    have hcr : 0 ≤ (1 - t) * t * ((V1 - V2) * (V1 - V2)) := mul_nonneg (mul_nonneg (by linarith) ht) (mul_self_nonneg _)
    have h1 : 0 ≤ (1 - t) * (M - V1 * V1) := mul_nonneg (by linarith) (by linarith)
    have h2 : 0 ≤ t * (M - V2 * V2) := mul_nonneg ht (by linarith)
    nlinarith
  rw [hf, mul_mul_mul_comm]
  exact mul_le_mul_of_nonneg_left hc (mul_self_nonneg _)

theorem quarter_le (ht : 0 ≤ t) (ht' : t ≤ 1) : 0 ≤ (1 - t) * t ∧ (1 - t) * t ≤ 1 / 4 :=
  ⟨mul_nonneg (by linarith) ht, by nlinarith [mul_self_nonneg (t - 1 / 2)]⟩

theorem beside_le (ht : 0 ≤ t) (ht' : t ≤ 1) (hV1 : V1 * V1 ≤ M) (hV2 : V2 * V2 ≤ M) :
    cubic 0 V1 V2 0 t * cubic 0 V1 V2 0 t ≤ M := by
  refine (beside_sq_le ht ht' hV1 hV2).trans ?_
  obtain ⟨hn, hq⟩ := quarter_le ht ht'
  have hM : 0 ≤ M := (mul_self_nonneg V1).trans hV1
  have hs : (3 * (1 - t) * t) * (3 * (1 - t) * t) ≤ 1 := by nlinarith
  exact mul_le_of_le_one_left hM hs

theorem behind_sq_le (ht : 0 ≤ t) (ht' : t ≤ 1) (hU1 : U1 < 0 → U1 * U1 ≤ M) (hU2 : 0 ≤ U2) (hD : 0 ≤ D)
    (hn : cubic 0 U1 U2 D t < 0) : cubic 0 U1 U2 D t * cubic 0 U1 U2 D t ≤
      (3 * (1 - t) * t) * (3 * (1 - t) * t) * ((1 - t) * (1 - t)) * M := by
  obtain ⟨hnn, -⟩ := quarter_le ht ht'
  have hspl : cubic 0 U1 U2 D t = 3 * (1 - t) * t * (1 - t) * U1 + (3 * (1 - t) * t * t * U2 + t * t * t * D) := by
    unfold cubic
    ring
  have hr : 0 ≤ 3 * (1 - t) * t * t * U2 + t * t * t * D := by
    have h2 : 0 ≤ 3 * (1 - t) * t * t * U2 := mul_nonneg (mul_nonneg (by linarith) ht) hU2
    have h3 : 0 ≤ t * t * t * D := by positivity
    linarith
  have hw : 0 ≤ 3 * (1 - t) * t * (1 - t) := mul_nonneg (by linarith) (by linarith)
  have hf : U1 < 0 := by
    by_contra hp
    have := mul_nonneg hw (not_lt.mp hp)
    linarith
  have hlo : 3 * (1 - t) * t * (1 - t) * U1 ≤ cubic 0 U1 U2 D t := by linarith
  have hsq : cubic 0 U1 U2 D t * cubic 0 U1 U2 D t ≤
      (3 * (1 - t) * t * (1 - t) * U1) * (3 * (1 - t) * t * (1 - t) * U1) :=
    mul_le_mul_of_nonpos_of_nonpos hlo hlo (hlo.trans hn.le) hn.le
  refine hsq.trans ?_
  have hs := mul_le_mul_of_nonneg_left (hU1 hf) (mul_self_nonneg (3 * (1 - t) * t * (1 - t)))
  calc (3 * (1 - t) * t * (1 - t) * U1) * (3 * (1 - t) * t * (1 - t) * U1)
      = (3 * (1 - t) * t * (1 - t)) * (3 * (1 - t) * t * (1 - t)) * (U1 * U1) := by ring
    _ ≤ (3 * (1 - t) * t * (1 - t)) * (3 * (1 - t) * t * (1 - t)) * M := hs
    _ = (3 * (1 - t) * t) * (3 * (1 - t) * t) * ((1 - t) * (1 - t)) * M := by ring

theorem behind_beside_le (ht : 0 ≤ t) (ht' : t ≤ 1) (hU1 : U1 < 0 → U1 * U1 ≤ M) (hU2 : 0 ≤ U2) (hD : 0 ≤ D)
    (hV1 : V1 * V1 ≤ M) (hV2 : V2 * V2 ≤ M) (hn : cubic 0 U1 U2 D t < 0) :
    cubic 0 U1 U2 D t * cubic 0 U1 U2 D t + cubic 0 V1 V2 0 t * cubic 0 V1 V2 0 t ≤ M := by
  have hM : 0 ≤ M := (mul_self_nonneg V1).trans hV1
  have hb := behind_sq_le ht ht' hU1 hU2 hD hn
  have hbes := beside_sq_le ht ht' hV1 hV2
  obtain ⟨hnn, hq⟩ := quarter_le ht ht'
  -- before a third the product is small, and after it `1 - t` is
  have hw : (3 * (1 - t) * t) * (3 * (1 - t) * t) * (1 + (1 - t) * (1 - t)) ≤ 1 := by
    by_cases hth : t ≤ 1 / 3
    · have hp : 3 * (1 - t) * t ≤ 2 / 3 := by nlinarith
      have hs : (3 * (1 - t) * t) * (3 * (1 - t) * t) ≤ 4 / 9 := by nlinarith
      have hl : 1 + (1 - t) * (1 - t) ≤ 2 := by nlinarith
      have hm := mul_le_mul hs hl (by positivity) (by norm_num)
      linarith
    · have hs : (3 * (1 - t) * t) * (3 * (1 - t) * t) ≤ 9 / 16 := by nlinarith
      have hl : 1 + (1 - t) * (1 - t) ≤ 13 / 9 := by nlinarith
      have hm := mul_le_mul hs hl (by positivity) (by norm_num)
      linarith
  have htot := mul_le_mul_of_nonneg_right hw hM
  linarith

theorem near_of_products {wx wy zx zy r : α} (hc : 0 < zx * zx + zy * zy)
    (hb : (wy * zx - wx * zy) * (wy * zx - wx * zy) ≤ r * r * (zx * zx + zy * zy)) (hbhd : wx * zx + wy * zy < 0 →
      (wx * zx + wy * zy) * (wx * zx + wy * zy) + (wy * zx - wx * zy) * (wy * zx - wx * zy) ≤
        r * r * (zx * zx + zy * zy)) (hbey : zx * zx + zy * zy - (wx * zx + wy * zy) < 0 →
      (zx * zx + zy * zy - (wx * zx + wy * zy)) * (zx * zx + zy * zy - (wx * zx + wy * zy)) +
        (wy * zx - wx * zy) * (wy * zx - wx * zy) ≤ r * r * (zx * zx + zy * zy)) :
    ∃ s, 0 ≤ s ∧ s ≤ 1 ∧ (wx - s * zx) * (wx - s * zx) + (wy - s * zy) * (wy - s * zy) ≤ r * r := by
  have hs : ∀ s, ((wx - s * zx) * (wx - s * zx) + (wy - s * zy) * (wy - s * zy)) * (zx * zx + zy * zy) =
      (wx * zx + wy * zy - s * (zx * zx + zy * zy)) * (wx * zx + wy * zy - s * (zx * zx + zy * zy)) +
        (wy * zx - wx * zy) * (wy * zx - wx * zy) := fun s => by ring
  by_cases hn : wx * zx + wy * zy < 0
  · refine ⟨0, le_rfl, zero_le_one, le_of_mul_le_mul_right ?_ hc⟩
    rw [hs, zero_mul, sub_zero]
    exact hbhd hn
  by_cases hl : zx * zx + zy * zy - (wx * zx + wy * zy) < 0
  · refine ⟨1, zero_le_one, le_rfl, le_of_mul_le_mul_right ?_ hc⟩
    rw [hs, one_mul]
    have := hbey hl
    linarith
  · refine ⟨(wx * zx + wy * zy) / (zx * zx + zy * zy), div_nonneg (not_lt.mp hn) hc.le, ?_,
      le_of_mul_le_mul_right ?_ hc⟩
    · rw [div_le_one hc]
      linarith
    · rw [hs, div_mul_cancel₀ _ hc.ne', sub_self, mul_zero, zero_add]
      exact hb

theorem near_chord {x1 y1 x2 y2 zx zy r : α} (hc : 0 < zx * zx + zy * zy)
    (hp1 : (y1 * zx - x1 * zy) * (y1 * zx - x1 * zy) ≤ r * r * (zx * zx + zy * zy))
    (hp2 : (y2 * zx - x2 * zy) * (y2 * zx - x2 * zy) ≤ r * r * (zx * zx + zy * zy)) (hd1 : x1 * zx + y1 * zy < 0 →
      (x1 * zx + y1 * zy) * (x1 * zx + y1 * zy) ≤ r * r * (zx * zx + zy * zy)) (hd2 : x2 * zx + y2 * zy < 0 →
      (x2 * zx + y2 * zy) * (x2 * zx + y2 * zy) ≤ r * r * (zx * zx + zy * zy))
    (hs1 : x1 * zx + y1 * zy ≤ zx * zx + zy * zy) (hs2 : x2 * zx + y2 * zy ≤ zx * zx + zy * zy)
    (ht : 0 ≤ t) (ht' : t ≤ 1) : ∃ s, 0 ≤ s ∧ s ≤ 1 ∧
      (cubic 0 x1 (zx - x2) zx t - s * zx) * (cubic 0 x1 (zx - x2) zx t - s * zx) +
        (cubic 0 y1 (zy - y2) zy t - s * zy) * (cubic 0 y1 (zy - y2) zy t - s * zy) ≤ r * r := by
  have hb : cubic 0 y1 (zy - y2) zy t * zx - cubic 0 x1 (zx - x2) zx t * zy =
      cubic 0 (y1 * zx - x1 * zy) (-(y2 * zx - x2 * zy)) 0 t := by
    unfold cubic
    ring
  have hbhd : cubic 0 x1 (zx - x2) zx t * zx + cubic 0 y1 (zy - y2) zy t * zy =
      cubic 0 (x1 * zx + y1 * zy) (zx * zx + zy * zy - (x2 * zx + y2 * zy)) (zx * zx + zy * zy) t := by
    unfold cubic
    ring
  have hbey : zx * zx + zy * zy -
      cubic 0 (x1 * zx + y1 * zy) (zx * zx + zy * zy - (x2 * zx + y2 * zy)) (zx * zx + zy * zy) t =
      cubic 0 (x2 * zx + y2 * zy) (zx * zx + zy * zy - (x1 * zx + y1 * zy)) (zx * zx + zy * zy) (1 - t) := by
    unfold cubic
    ring
  have hp := cubic_reversed 0 (y1 * zx - x1 * zy) (-(y2 * zx - x2 * zy)) 0 t
  have hn2 : -(y2 * zx - x2 * zy) * -(y2 * zx - x2 * zy) ≤ r * r * (zx * zx + zy * zy) := by rwa [neg_mul_neg]
  refine near_of_products hc ?_ ?_ ?_
  · rw [hb]
    exact beside_le ht ht' hp1 hn2
  · rw [hb, hbhd]
    exact behind_beside_le ht ht' hd1 (sub_nonneg.mpr hs2) hc.le hp1 hn2
  · rw [hb, hbhd, hbey, ← hp]
    exact behind_beside_le (sub_nonneg.mpr ht') (sub_le_self 1 ht) hd2 (sub_nonneg.mpr hs1) hc.le hn2 hp1

end Chords

end Bernstein
