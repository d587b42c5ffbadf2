import GnustepGui.View.Autoresizing

/-!
# Autoresizing into too little space

The edges that `resizeWithOldSuperviewSize:` gives a frame, in the window. A size below zero comes back mirrored
unless both edges are floored to the same place (`flooredInWindow_iff`).
-/

namespace GnustepGui.NSView

open Plane

attribute [local instance] Numerals.ten

variable {K : Type*} [Field K] [LinearOrder K]

/-- The image of an extent in the window, from its lower edge there. -/
def Extent.inWindow (scale offset : K) (extent : Extent K) : Extent K :=
  if 0 < scale then ⟨scale * extent.position + offset, scale * extent.size⟩
  else ⟨scale * (extent.position + extent.size) + offset, -scale * extent.size⟩

variable [IsStrictOrderedRing K] [FloorRing K]

/-- The floor of an edge, with the snap. -/
def floorEdge (edge : K) : K :=
  (⌊edge + 1 / 10 ^ 6⌋ : ℤ)

/-- What is claimed along an axis of the window. -/
structure FlooredAxis (ideal result : Extent K) : Prop where
  lower : result.position = floorEdge ideal.position
  length : result.size = max 0 (floorEdge (ideal.position + ideal.size) - floorEdge ideal.position)

/-- The edges are in their order, or floored to the same place. -/
def EdgesFit (ideal : Extent K) : Prop :=
  0 ≤ ideal.size ∨ floorEdge ideal.position = floorEdge (ideal.position + ideal.size)

namespace Autoresizing

variable (surroundings : Surroundings K) (state : Autoresizing K) (oldSize : Size K)

/-- The proportional redistribution of the change. -/
def idealFrame : Rect K :=
  autoresizedFrame surroundings.autoresizingMask oldSize state.superview.frame.size state.exactFrame

/-- What is claimed of a resize. -/
def FlooredInWindow : Prop :=
  let matrix := state.matrixToWindow surroundings
  let ideal := state.idealFrame surroundings oldSize
  let result := (state.resizeWithOldSuperviewSize surroundings oldSize).subview.frame
  FlooredAxis ((horizontalExtent ideal).inWindow matrix.m11 matrix.tX)
      ((horizontalExtent result).inWindow matrix.m11 matrix.tX) ∧
    FlooredAxis ((verticalExtent ideal).inWindow matrix.m22 matrix.tY)
      ((verticalExtent result).inWindow matrix.m22 matrix.tY)

/-- The ideal edges fit on both axes. -/
def SizesFit : Prop :=
  let matrix := state.matrixToWindow surroundings
  let ideal := state.idealFrame surroundings oldSize
  EdgesFit ((horizontalExtent ideal).inWindow matrix.m11 matrix.tX) ∧
    EdgesFit ((verticalExtent ideal).inWindow matrix.m22 matrix.tY)

/-- Nothing from the view up to the window is rotated, and the superview has an extent in the window. -/
structure AlongWindow : Prop where
  unrotated : state.isRotatedFromBase surroundings = false
  m12 : (state.matrixToWindow surroundings).m12 = 0
  m21 : (state.matrixToWindow surroundings).m21 = 0
  m11 : (state.matrixToWindow surroundings).m11 ≠ 0
  m22 : (state.matrixToWindow surroundings).m22 ≠ 0

end Autoresizing

/-! ## One axis -/

section Axis

variable {scale offset : K}

omit [IsStrictOrderedRing K] [FloorRing K] in
/-- The ends of an extent, whichever is the lower one. -/
theorem ends_inWindow (offset : K) (hs : scale ≠ 0) (extent : Extent K) :
    let image := extent.inWindow scale offset
    let first := scale * extent.position + offset
    let last := scale * (extent.position + extent.size) + offset
    min first last = min image.position (image.position + image.size) ∧
      max first last = max image.position (image.position + image.size) := by
  intro image first last
  rcases lt_or_gt_of_ne hs with hn | hp
  · have hi : image = ⟨last, -scale * extent.size⟩ := if_neg hn.not_gt
    have he : last + -scale * extent.size = first := by
      simp only [last, first]
      ring
    rw [hi]
    dsimp only
    rw [he, min_comm, max_comm]
    exact ⟨rfl, rfl⟩
  · have hi : image = ⟨first, scale * extent.size⟩ := if_pos hp
    have he : first + scale * extent.size = last := by
      simp only [last, first]
      ring
    rw [hi]
    dsimp only
    rw [he]
    exact ⟨rfl, rfl⟩

omit [FloorRing K] in
theorem inWindow_invert (hs : scale ≠ 0) {lower upper : K} (hle : lower ≤ upper) :
    let back (t : K) := scale⁻¹ * t + -offset / scale
    (Extent.mk (min (back lower) (back upper)) (max (back lower) (back upper) - min (back lower) (back upper))).inWindow
      scale offset = ⟨lower, upper - lower⟩ := by
  intro back
  have hb (t : K) : scale * back t + offset = t := by
    simp only [back]
    field_simp
    ring
  unfold Extent.inWindow
  rcases lt_or_gt_of_ne hs with hn | hp
  · have ho : back upper ≤ back lower := add_le_add_left (mul_le_mul_of_nonpos_left hle (inv_nonpos.mpr hn.le)) _
    rw [if_neg hn.not_gt, min_eq_right ho, max_eq_left ho]
    ext
    · rw [add_sub_cancel, hb]
    · have hlo := hb lower
      have hup := hb upper
      linear_combination hup - hlo
  · have ho : back lower ≤ back upper := add_le_add_left (mul_le_mul_of_nonneg_left hle (inv_nonneg.mpr hp.le)) _
    rw [if_pos hp, min_eq_left ho, max_eq_right ho]
    ext
    · rw [hb]
    · have hlo := hb lower
      have hup := hb upper
      linear_combination hup - hlo

theorem floorEdge_mono {edge edge' : K} (hle : edge ≤ edge') : floorEdge edge ≤ floorEdge edge' :=
  Int.cast_le.mpr (Int.floor_le_floor (add_le_add_left hle _))

theorem flooredAxis_iff (ideal : Extent K) :
    let lower := floorEdge (min ideal.position (ideal.position + ideal.size))
    let upper := floorEdge (max ideal.position (ideal.position + ideal.size))
    FlooredAxis ideal ⟨lower, upper - lower⟩ ↔ EdgesFit ideal := by
  intro lower upper
  rcases le_or_gt 0 ideal.size with hs | hs
  · have hle : ideal.position ≤ ideal.position + ideal.size := le_add_of_nonneg_right hs
    refine iff_of_true ⟨?_, ?_⟩ (.inl hs)
    · simp only [lower, min_eq_left hle]
    · simp only [lower, upper, min_eq_left hle, max_eq_right hle]
      exact (max_eq_right (sub_nonneg.mpr (floorEdge_mono hle))).symm
  · have hle : ideal.position + ideal.size ≤ ideal.position := by linarith
    have hlo : lower = floorEdge (ideal.position + ideal.size) := by simp only [lower, min_eq_right hle]
    have hup : upper = floorEdge ideal.position := by simp only [upper, max_eq_left hle]
    rw [EdgesFit, or_iff_right hs.not_ge]
    constructor
    · rintro ⟨h, -⟩
      rw [← hlo]
      exact h.symm
    · intro h
      refine ⟨hlo.trans h.symm, ?_⟩
      dsimp only
      rw [hlo, hup, ← h, sub_self, max_self]

end Axis

/-! ## Both axes -/

variable {surroundings : Surroundings K} {state : Autoresizing K} {oldSize : Size K}

theorem floorEdges_inWindow {matrix : Affine K} (hm12 : matrix.m12 = 0) (hm21 : matrix.m21 = 0)
    (hm11 : matrix.m11 ≠ 0) (hm22 : matrix.m22 ≠ 0) (frame : Rect K) :
    let horizontal := (horizontalExtent frame).inWindow matrix.m11 matrix.tX
    let vertical := (verticalExtent frame).inWindow matrix.m22 matrix.tY
    let floored (extent : Extent K) : Extent K :=
      ⟨floorEdge (min extent.position (extent.position + extent.size)),
        floorEdge (max extent.position (extent.position + extent.size)) -
          floorEdge (min extent.position (extent.position + extent.size))⟩
    (horizontalExtent (floorEdges matrix frame)).inWindow matrix.m11 matrix.tX = floored horizontal ∧
      (verticalExtent (floorEdges matrix frame)).inWindow matrix.m22 matrix.tY = floored vertical := by
  intro horizontal vertical floored
  let toX (t : K) := matrix.m11 * t + matrix.tX
  let toY (t : K) := matrix.m22 * t + matrix.tY
  let fromX (t : K) := matrix.m11⁻¹ * t + -matrix.tX / matrix.m11
  let fromY (t : K) := matrix.m22⁻¹ * t + -matrix.tY / matrix.m22
  have ht (p : Point K) : Affine.one.apply (matrix.apply p) = ⟨toX p.x, toY p.y⟩ := by
    rw [Affine.one_apply]
    ext
    · simp [Affine.apply, hm21, toX]
    · simp [Affine.apply, hm12, toY]
  have hf (p : Point K) : matrix.invert.apply (Affine.one.apply p) = ⟨fromX p.x, fromY p.y⟩ := by
    rw [Affine.one_apply, invert_of_scaling hm12 hm21 hm11 hm22]
  obtain ⟨hmn, hmx⟩ := ends_inWindow matrix.tX hm11 (horizontalExtent frame)
  obtain ⟨hmy, hma⟩ := ends_inWindow matrix.tY hm22 (verticalExtent frame)
  have hfr : floorEdges matrix frame = boundingRect (fun p => matrix.invert.apply (Affine.one.apply p))
      ⟨⟨(floored horizontal).position, (floored vertical).position⟩,
        ⟨(floored horizontal).size, (floored vertical).size⟩⟩ := by
    rw [floorEdges, convertRectUsingMatrices, convertRectUsingMatrices, boundingRect_of_axes ht]
    simp only [add_sub_cancel]
    exact congrArg (boundingRect _) (by simp only [floored, horizontal, vertical, ← hmn, ← hmx, ← hmy, ← hma]; rfl)
  have hle (extent : Extent K) : floorEdge (min extent.position (extent.position + extent.size)) ≤
      floorEdge (max extent.position (extent.position + extent.size)) := floorEdge_mono min_le_max
  rw [hfr, boundingRect_of_axes hf]
  simp only [horizontalExtent, verticalExtent, floored, add_sub_cancel]
  exact ⟨inWindow_invert hm11 (hle horizontal), inWindow_invert hm22 (hle vertical)⟩

/-- A resize does what is claimed if, and only if, the ideal edges fit. -/
theorem flooredInWindow_iff (surroundings : Surroundings K) (state : Autoresizing K) (oldSize : Size K)
    (hmask : surroundings.autoresizingMask ≠ .notSizable) (halong : state.AlongWindow surroundings) :
    state.FlooredInWindow surroundings oldSize ↔ state.SizesFit surroundings oldSize := by
  have hr : (state.resizeWithOldSuperviewSize surroundings oldSize).subview.frame =
      floorEdges (state.matrixToWindow surroundings) (state.idealFrame surroundings oldSize) := by
    rw [Autoresizing.resizeWithOldSuperviewSize, if_neg hmask]
    dsimp only
    rw [halong.unrotated, if_neg Bool.false_ne_true, Autoresizing.setFrame_frame]
    obtain ⟨hw, hht⟩ := floorEdges_size_nonneg (state.matrixToWindow surroundings)
      (state.idealFrame surroundings oldSize)
    exact congrArg (Rect.mk _) (nonNegative_eq_self hw hht)
  obtain ⟨hh, hv⟩ := floorEdges_inWindow halong.m12 halong.m21 halong.m11 halong.m22
    (state.idealFrame surroundings oldSize)
  unfold Autoresizing.FlooredInWindow Autoresizing.SizesFit
  dsimp only at hh hv ⊢
  rw [hr, hh, hv]
  exact and_congr (flooredAxis_iff _) (flooredAxis_iff _)

/-- A subview whose width alone is sizable. -/
def sizableSurroundings : Surroundings ℚ :=
  ⟨true, ⟨false, true, false, false, false, false⟩, false, none, false⟩

/-- The superview has become this wide. -/
def sizableSubview (width : ℚ) : Autoresizing ℚ :=
  ⟨newPlacement ⟨⟨0, 0⟩, ⟨width, 100⟩⟩, newPlacement ⟨⟨20, 10⟩, ⟨30, 30⟩⟩, NSZeroRect⟩

theorem flooredInWindow_shrunk : (sizableSubview 75).FlooredInWindow sizableSurroundings ⟨100, 100⟩ := by
  refine (flooredInWindow_iff sizableSurroundings (sizableSubview 75) ⟨100, 100⟩ (by decide)
    ⟨rfl, rfl, rfl, one_ne_zero, one_ne_zero⟩).mpr ⟨.inl ?_, .inl ?_⟩
  all_goals decide +kernel

/-- From 100 to nothing the frame from 20 to 50 becomes that from -50 to 20. -/
theorem not_flooredInWindow_squeezed : ¬ ∀ (surroundings : Surroundings ℚ) (state : Autoresizing ℚ) (oldSize : Size ℚ),
    (surroundings.autoresizingMask.widthSizable || surroundings.autoresizingMask.heightSizable) = true →
      state.AlongWindow surroundings → state.FlooredInWindow surroundings oldSize := by
  intro h
  have hf := h sizableSurroundings (sizableSubview 0) ⟨100, 100⟩ rfl ⟨rfl, rfl, rfl, one_ne_zero, one_ne_zero⟩
  exact absurd hf.1.length (by decide +kernel)

end GnustepGui.NSView
