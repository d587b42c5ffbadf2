import Mathlib

/-!
# Tick marks of a slider

    linear, n > 1:   min, min + d / (n - 1), …, max           circular, n > 1:   min, min + d / n, …

`closestTickMarkValueToValue:` goes to the nearest of them, where the maximum of a circular slider stands for its first
tick (`closest_iff`). The only tick of a circular slider is none of the values that it returns.
-/

namespace GnustepGui.SliderCell

inductive SliderType
  | linear
  | circular
  deriving DecidableEq, Repr

structure NSSliderCell where
  type : SliderType
  numberOfTickMarks : Nat
  minValue : ℚ
  maxValue : ℚ
  deriving DecidableEq, Repr

/-- `GSRoundTowardsInfinity` -/
def roundTowardsInfinity (x : ℚ) : ℤ := ⌊x + 1 / 2⌋

namespace NSSliderCell

variable (s : NSSliderCell)

def effectiveTicks : Nat := if s.type = .circular then s.numberOfTickMarks + 1 else s.numberOfTickMarks

def clamp (aValue : ℚ) : ℚ :=
  if aValue < s.minValue then s.minValue else if s.maxValue < aValue then s.maxValue else aValue

def closestTickMarkValueToValue (aValue : ℚ) : ℚ :=
  if s.numberOfTickMarks = 0 then aValue
  else if s.effectiveTicks = 1 then (s.maxValue + s.minValue) / 2
  else
    let d := s.maxValue - s.minValue
    let f := ((s.clamp aValue - s.minValue) * (s.effectiveTicks - 1)) / d
    -- ties go to the lower tick
    let f := (-roundTowardsInfinity (-f) * d) / (s.effectiveTicks - 1) + s.minValue
    if s.type = .circular ∧ s.maxValue ≤ f then s.minValue else f

def tickMarkValueAtIndex (index : Int) : Except String ℚ :=
  if index < 0 ∨ (s.numberOfTickMarks : Int) ≤ index then .error "Index of tick mark out of bounds."
  else if s.numberOfTickMarks = 1 then .ok ((s.maxValue + s.minValue) / 2)
  else if index ≤ 0 then .ok s.minValue
  else
    match s.type with
    | .circular => .ok (s.minValue + index * (s.maxValue - s.minValue) / s.numberOfTickMarks)
    | .linear => .ok (s.minValue + index * (s.maxValue - s.minValue) / (s.numberOfTickMarks - 1))

/-- The ticks, and for a circular slider the maximum behind them. -/
def mark (k : Nat) : Except String ℚ := if k = s.numberOfTickMarks then .ok s.maxValue else s.tickMarkValueAtIndex k

/-- A mark `k` is the nearest to the value, and the lowest of those that are. -/
def Nearest (value : ℚ) (k : Nat) : Prop :=
  ∃ m, s.mark k = .ok m ∧ ∀ j < s.effectiveTicks, ∃ m', s.mark j = .ok m' ∧
    |s.clamp value - m| ≤ |s.clamp value - m'| ∧ (|s.clamp value - m| = |s.clamp value - m'| → k ≤ j)

/-- The tick that a mark stands for. -/
def tickOf (k : Nat) : Nat := if k = s.numberOfTickMarks then 0 else k

/-- What the value that is returned has to be. -/
structure ClosestTicks : Prop where
  nearest : ∀ value, ∃ k < s.effectiveTicks, s.Nearest value k ∧ s.tickOf k < s.numberOfTickMarks ∧
    s.tickMarkValueAtIndex (s.tickOf k) = .ok (s.closestTickMarkValueToValue value)
  idempotent : ∀ value, s.closestTickMarkValueToValue (s.closestTickMarkValueToValue value) =
    s.closestTickMarkValueToValue value
  fixed : ∀ i < s.numberOfTickMarks, ∀ t, s.tickMarkValueAtIndex i = .ok t → s.closestTickMarkValueToValue t = t
  monotone : s.type = .linear → Monotone s.closestTickMarkValueToValue

/-! ## The lattice of the marks -/

/-- The nearest integer, the lower one of two. -/
def nearestInt (u : ℚ) : ℤ := -roundTowardsInfinity (-u)

theorem nearestInt_eq (u : ℚ) : nearestInt u = -round (-u) := by rw [nearestInt, roundTowardsInfinity, round_eq]

theorem nearestInt_intCast (z : ℤ) : nearestInt z = z := by
  rw [nearestInt_eq, ← Int.cast_neg, round_intCast, neg_neg]

theorem nearestInt_mono : Monotone nearestInt := by
  intro u v h
  exact neg_le_neg (Int.floor_mono (by linarith))

theorem abs_sub_nearestInt (u : ℚ) (z : ℤ) : |u - nearestInt u| ≤ |u - z| := by
  have h := round_le (-u) (-z)
  have hn : (nearestInt u : ℚ) - u = -u - round (-u) := by
    rw [nearestInt_eq]
    push_cast
    ring
  have hz : (z : ℚ) - u = -u - ((-z : ℤ) : ℚ) := by
    push_cast
    ring
  rwa [abs_sub_comm, abs_sub_comm u, hn, hz]

/-- At a tie the other one is above. -/
theorem nearestInt_le {u : ℚ} {z : ℤ} (h : |u - nearestInt u| = |u - z|) : nearestInt u ≤ z := by
  by_contra hlt
  have hz : (z : ℚ) + 1 ≤ nearestInt u := by exact_mod_cast not_le.mp hlt
  have hl : (nearestInt u : ℚ) < u + 1 / 2 := by
    rw [nearestInt, roundTowardsInfinity]
    push_cast
    have := Int.lt_floor_add_one (-u + 1 / 2)
    linarith
  have hlt : |u - nearestInt u| < u - z := abs_lt.mpr ⟨by linarith, by linarith⟩
  rw [abs_of_pos (by linarith : 0 < u - z)] at h
  exact absurd h hlt.ne

/-- Where the mark `z` lies, when the marks are apart. -/
def position (z : ℤ) : ℚ := s.minValue + z * (s.maxValue - s.minValue) / (s.effectiveTicks - 1)

/-- The value in steps from the minimum. -/
def steps (value : ℚ) : ℚ := (s.clamp value - s.minValue) * (s.effectiveTicks - 1) / (s.maxValue - s.minValue)

theorem position_eq (z : ℤ) : s.position z = s.minValue + z * ((s.maxValue - s.minValue) / (s.effectiveTicks - 1)) := by
  rw [position, mul_div_assoc]

theorem clamp_eq {value : ℚ} (hlo : s.minValue ≤ value) (hhi : value ≤ s.maxValue) : s.clamp value = value := by
  rw [clamp, if_neg hlo.not_gt, if_neg hhi.not_gt]

/-- The marks differ, and there are two or more of them. -/
structure Apart : Prop where
  order : s.minValue < s.maxValue
  two : 2 ≤ s.effectiveTicks
  single : s.numberOfTickMarks ≠ 1
  some : s.numberOfTickMarks ≠ 0

namespace Apart

variable {s} (h : s.Apart)

include h

theorem interval_pos : (0 : ℚ) < s.effectiveTicks - 1 := by
  have : (2 : ℚ) ≤ s.effectiveTicks := by exact_mod_cast h.two
  linarith

theorem ratio_pos : 0 < (s.maxValue - s.minValue) / (s.effectiveTicks - 1) :=
  div_pos (sub_pos.mpr h.order) h.interval_pos

theorem clamp_mem (value : ℚ) : s.minValue ≤ s.clamp value ∧ s.clamp value ≤ s.maxValue := by
  have := h.order
  unfold clamp
  split_ifs <;> constructor <;> linarith

theorem clamp_eq_steps (value : ℚ) :
    s.clamp value = s.minValue + s.steps value * ((s.maxValue - s.minValue) / (s.effectiveTicks - 1)) := by
  have hm := h.interval_pos.ne'
  have hd := (sub_pos.mpr h.order).ne'
  rw [steps]
  field_simp
  ring

theorem abs_clamp_sub (value : ℚ) (z : ℤ) : |s.clamp value - s.position z| =
    |s.steps value - z| * ((s.maxValue - s.minValue) / (s.effectiveTicks - 1)) := by
  rw [h.clamp_eq_steps, position_eq, ← abs_of_pos h.ratio_pos, ← abs_mul, abs_of_pos h.ratio_pos]
  congr 1
  ring

/-- The nearest number of steps is that of a mark. -/
theorem exists_mark (value : ℚ) : ∃ k < s.effectiveTicks, nearestInt (s.steps value) = (k : ℤ) := by
  obtain ⟨hlo, hhi⟩ := h.clamp_mem value
  have hm := h.interval_pos
  have hd := sub_pos.mpr h.order
  have hzr : (0 : ℚ) ≤ s.steps value := div_nonneg (mul_nonneg (sub_nonneg.mpr hlo) hm.le) hd.le
  have hls : s.steps value ≤ ((s.effectiveTicks - 1 : ℤ) : ℚ) := by
    rw [steps, div_le_iff₀ hd]
    push_cast
    have := mul_le_mul_of_nonneg_right (sub_le_sub_right hhi s.minValue) hm.le
    linarith
  have hz := nearestInt_mono hzr
  have hl := nearestInt_mono hls
  rw [nearestInt_intCast] at hl
  have hz0 : nearestInt 0 = 0 := by exact_mod_cast nearestInt_intCast 0
  rw [hz0] at hz
  have ht := h.two
  exact ⟨(nearestInt (s.steps value)).toNat, by omega, by omega⟩

theorem position_lt {k : ℤ} (hk : k < s.effectiveTicks - 1) : s.position k < s.maxValue := by
  have hk : (k : ℚ) < s.effectiveTicks - 1 := by exact_mod_cast hk
  rw [position, ← lt_sub_iff_add_lt', div_lt_iff₀ h.interval_pos, mul_comm]
  exact mul_lt_mul_of_pos_left hk (sub_pos.mpr h.order)

theorem position_last : s.position (s.effectiveTicks - 1) = s.maxValue := by
  have hm := h.interval_pos.ne'
  rw [position]
  push_cast
  field_simp
  ring

theorem closest_eq (value : ℚ) : s.closestTickMarkValueToValue value =
    if s.type = .circular ∧ s.maxValue ≤ s.position (nearestInt (s.steps value)) then s.minValue
    else s.position (nearestInt (s.steps value)) := by
  have ho : s.effectiveTicks ≠ 1 := by
    have := h.two
    omega
  rw [closestTickMarkValueToValue, if_neg h.some, if_neg ho]
  have hf : (-roundTowardsInfinity (-((s.clamp value - s.minValue) * (s.effectiveTicks - 1) /
      (s.maxValue - s.minValue))) : ℚ) * (s.maxValue - s.minValue) / (s.effectiveTicks - 1) + s.minValue =
      s.position (nearestInt (s.steps value)) := by
    rw [position, nearestInt, steps, add_comm]
    push_cast
    rfl
  simp only [hf]

theorem tick_eq {i : Nat} (hi : i < s.numberOfTickMarks) : s.tickMarkValueAtIndex i = .ok (s.position i) := by
  rw [tickMarkValueAtIndex, if_neg (by omega), if_neg h.single, position, effectiveTicks]
  split
  · rename_i hle
    obtain rfl : i = 0 := by omega
    simp
  · split <;> rename_i ht <;> simp [ht]

theorem mark_eq {k : Nat} (hk : k < s.effectiveTicks) : s.mark k = .ok (s.position k) := by
  have he : s.effectiveTicks = if s.type = .circular then s.numberOfTickMarks + 1 else s.numberOfTickMarks := rfl
  rw [mark]
  split
  · have hc : (k : ℤ) = s.effectiveTicks - 1 := by split at he <;> omega
    rw [hc, h.position_last]
  · exact h.tick_eq (by split at he <;> omega)

theorem nearest {value : ℚ} {k : Nat} (hk : k < s.effectiveTicks) (hn : nearestInt (s.steps value) = (k : ℤ)) :
    s.Nearest value k := by
  refine ⟨_, h.mark_eq hk, fun j hj => ⟨_, h.mark_eq hj, ?_⟩⟩
  rw [h.abs_clamp_sub, h.abs_clamp_sub, ← hn]
  refine ⟨mul_le_mul_of_nonneg_right (abs_sub_nearestInt _ _) h.ratio_pos.le, fun heq => ?_⟩
  have := nearestInt_le (mul_right_cancel₀ h.ratio_pos.ne' heq)
  omega

/-- The maximum is returned as the first tick, where the slider is circular. -/
theorem tickOf_eq {k : Nat} (hk : k < s.effectiveTicks) :
    s.tickOf k < s.numberOfTickMarks ∧ s.position (s.tickOf k) =
      if s.type = .circular ∧ s.maxValue ≤ s.position k then s.minValue else s.position k := by
  have hs := h.some
  have he : s.effectiveTicks = if s.type = .circular then s.numberOfTickMarks + 1 else s.numberOfTickMarks := rfl
  by_cases hl : k = s.numberOfTickMarks
  · have hc : s.type = .circular := by
      by_contra hne
      rw [if_neg hne] at he
      omega
    have hcs : (k : ℤ) = s.effectiveTicks - 1 := by
      rw [he, if_pos hc]
      omega
    rw [tickOf, if_pos hl, if_pos ⟨hc, by rw [hcs, h.position_last]⟩, position_eq]
    exact ⟨by omega, by simp⟩
  · rw [tickOf, if_neg hl, if_neg]
    · refine ⟨?_, rfl⟩
      split at he <;> omega
    · rintro ⟨hc, hle⟩
      rw [if_pos hc] at he
      exact absurd (h.position_lt (by omega)) hle.not_gt

theorem fixed {i : Nat} (hi : i < s.numberOfTickMarks) :
    s.closestTickMarkValueToValue (s.position i) = s.position i := by
  have he : i < s.effectiveTicks := by
    rw [effectiveTicks]
    split <;> omega
  have hr := h.ratio_pos
  have hlo : s.minValue ≤ s.position i := by
    rw [position_eq]
    have := mul_nonneg (Int.cast_nonneg (by omega : (0 : ℤ) ≤ i) : (0 : ℚ) ≤ (i : ℤ)) hr.le
    linarith
  have hhi : s.position i ≤ s.maxValue := by
    by_cases hlt : (i : ℤ) < s.effectiveTicks - 1
    · exact (h.position_lt hlt).le
    · have hcs : (i : ℤ) = s.effectiveTicks - 1 := by omega
      rw [hcs, h.position_last]
  have hs : s.steps (s.position i) = (i : ℤ) := by
    have hc := h.clamp_eq_steps (s.position i)
    rw [clamp_eq s hlo hhi] at hc
    exact (mul_right_cancel₀ hr.ne' (add_left_cancel ((position_eq s i).symm.trans hc))).symm
  rw [h.closest_eq, hs, nearestInt_intCast, ← (h.tickOf_eq he).2, tickOf, if_neg hi.ne]

theorem closestTicks : s.ClosestTicks := by
  have hnr : ∀ value, ∃ k < s.effectiveTicks, s.Nearest value k ∧ s.tickOf k < s.numberOfTickMarks ∧
      s.closestTickMarkValueToValue value = s.position (s.tickOf k) := by
    intro value
    obtain ⟨k, hk, hint⟩ := h.exists_mark value
    obtain ⟨hlt, htc⟩ := h.tickOf_eq hk
    refine ⟨k, hk, h.nearest hk hint, hlt, ?_⟩
    rw [h.closest_eq, hint, htc]
  refine ⟨fun value => ?_, fun value => ?_, fun i hi t ht => ?_, fun hty u v hu => ?_⟩
  · obtain ⟨k, hk, hn, hlt, hv⟩ := hnr value
    exact ⟨k, hk, hn, hlt, by rw [h.tick_eq hlt, hv]⟩
  · obtain ⟨k, -, -, hlt, hv⟩ := hnr value
    rw [hv, h.fixed hlt]
  · rw [h.tick_eq hi] at ht
    cases ht
    exact h.fixed hi
  · have hc : s.clamp u ≤ s.clamp v := by
      have := h.order
      unfold clamp
      split_ifs <;> linarith
    have hs : s.steps u ≤ s.steps v := by
      have := mul_le_mul_of_nonneg_right (sub_le_sub_right hc s.minValue) h.interval_pos.le
      exact div_le_div_of_nonneg_right this (sub_pos.mpr h.order).le
    rw [h.closest_eq, h.closest_eq, hty, if_neg (by simp), if_neg (by simp), position_eq, position_eq]
    have hint : (nearestInt (s.steps u) : ℚ) ≤ nearestInt (s.steps v) := by exact_mod_cast nearestInt_mono hs
    have := mul_le_mul_of_nonneg_right hint h.ratio_pos.le
    linarith

end Apart

/-- A linear slider with one tick has it in the middle, and every value goes there. -/
theorem closestTicks_single (ho : s.numberOfTickMarks = 1) (hl : s.type = .linear) : s.ClosestTicks := by
  have he : s.effectiveTicks = 1 := by rw [effectiveTicks, hl, if_neg (by simp), ho]
  have hv : ∀ value, s.closestTickMarkValueToValue value = (s.maxValue + s.minValue) / 2 := by
    intro value
    rw [closestTickMarkValueToValue, if_neg (by omega), if_pos he]
  have htc : s.tickMarkValueAtIndex 0 = .ok ((s.maxValue + s.minValue) / 2) := by
    rw [tickMarkValueAtIndex, if_neg (by omega), if_pos ho]
  have hm : s.mark 0 = .ok ((s.maxValue + s.minValue) / 2) := by
    rw [mark, if_neg (by omega)]
    exact htc
  refine ⟨fun value => ⟨0, by omega, ⟨_, hm, fun j hj => ?_⟩, ?_⟩, fun value => ?_, fun i hi t ht => ?_,
    fun _ u v _ => ?_⟩
  · obtain rfl : j = 0 := by omega
    exact ⟨_, hm, le_rfl, fun _ => le_rfl⟩
  · rw [tickOf, ite_self, hv]
    exact ⟨by omega, htc⟩
  · rw [hv, hv]
  · obtain rfl : i = 0 := by omega
    rw [hv]
    exact Except.ok.inj (htc.symm.trans ht)
  · rw [hv, hv]

/-- For a circular slider with one tick the tick is in the middle, and the minimum is returned. -/
theorem not_closestTicks (ho : s.minValue < s.maxValue) (hone : s.numberOfTickMarks = 1)
    (hc : s.type = .circular) : ¬ s.ClosestTicks := by
  intro h
  have he : s.effectiveTicks = 2 := by rw [effectiveTicks, if_pos hc, hone]
  have ht : s.tickMarkValueAtIndex (0 : Nat) = .ok ((s.maxValue + s.minValue) / 2) := by
    rw [tickMarkValueAtIndex, if_neg (by omega), if_pos hone]
  have hf := h.fixed 0 (by omega) _ ht
  have hh : ((s.maxValue + s.minValue) / 2 - s.minValue) * ((2 : ℕ) - 1) / (s.maxValue - s.minValue) = (1 / 2 : ℚ) := by
    have hd := (sub_pos.mpr ho).ne'
    push_cast
    field_simp
    ring
  have hr : roundTowardsInfinity (-(1 / 2)) = 0 := by
    rw [roundTowardsInfinity, neg_add_cancel, Int.floor_zero]
  rw [closestTickMarkValueToValue, if_neg (by omega), if_neg (by omega), clamp_eq s (by linarith) (by linarith),
    he] at hf
  simp only [hh, hr, Int.cast_zero, neg_zero, zero_mul, zero_div, zero_add,
    if_neg (not_and_of_not_right _ ho.not_ge)] at hf
  linarith

/-- The value that is returned is the closest tick, unless the slider is circular and has one tick. -/
theorem closestTicks_iff (hord : s.minValue < s.maxValue) (hs : 1 ≤ s.numberOfTickMarks) :
    s.ClosestTicks ↔ ¬ (s.type = .circular ∧ s.numberOfTickMarks = 1) := by
  constructor
  · rintro h ⟨hc, ho⟩
    exact s.not_closestTicks hord ho hc h
  · intro h
    by_cases ho : s.numberOfTickMarks = 1
    · refine s.closestTicks_single ho ?_
      cases ht : s.type with
      | linear => rfl
      | circular => exact absurd ⟨ht, ho⟩ h
    · refine Apart.closestTicks ⟨hord, ?_, ho, by omega⟩
      rw [effectiveTicks]
      split <;> omega

/-- With four ticks, from 0 to 100: the values from 87.5 on go to the first one. -/
theorem closestTicks_circular : NSSliderCell.ClosestTicks ⟨.circular, 4, 0, 100⟩ :=
  (closestTicks_iff ⟨.circular, 4, 0, 100⟩ (by decide) (by decide)).mpr (by decide)

/-- The tick is at 50, and 0 is returned for every value. -/
theorem not_closestTicks_dial : ¬ NSSliderCell.ClosestTicks ⟨.circular, 1, 0, 100⟩ :=
  not_closestTicks _ (by decide) rfl rfl

end NSSliderCell

end GnustepGui.SliderCell
