import Mathlib
import GnustepGui.Library.Plane
import GnustepGui.Library.Numerals

/-!
# Frame and bounds of a view

The frame, the bounds and the bounds transform of a view that has never been rotated, with exact
arithmetic. Notifications, subviews and the cached coordinates are left out.
-/

namespace GnustepGui.NSView

open Plane

attribute [local instance] Numerals.two

variable {K : Type*} [Field K] [LinearOrder K] [IsStrictOrderedRing K]

/-- `_is_rotated_or_scaled_from_base` says that the view has been scaled. -/
structure Geometry (K : Type*) where
  frame : Rect K
  bounds : Rect K
  boundsMatrix : Option (Affine K)
  isRotatedOrScaledFromBase : Bool
  deriving DecidableEq, Repr

/-! ## The calls -/

/-- The largest finite `float`. -/
def FLT_MAX : K := (2 ^ 24 - 1) * 2 ^ 104

def computeScale (fs bs : Size K) : Size K where
  width := if bs.width = 0 then if fs.width = 0 then 1 else FLT_MAX else fs.width / bs.width
  height := if bs.height = 0 then if fs.height = 0 then 1 else FLT_MAX else fs.height / bs.height

/-- A negative width or height is given as zero. -/
def nonNegative (size : Size K) : Size K :=
  ⟨if size.width < 0 then 0 else size.width, if size.height < 0 then 0 else size.height⟩

/-- `scaleTo::` of a transform without rotation. -/
def scaleTo (matrix : Affine K) (sx sy : K) : Affine K :=
  { matrix with m11 := sx, m12 := 0, m21 := 0, m22 := sy }

/-- `boundingRectFor:result:` -/
def boundingRectFor (matrix : Affine K) (rect : Rect K) : Rect K :=
  boundingRect matrix.apply rect

def initWithFrame (frameRect : Rect K) : Geometry K :=
  let frame : Rect K := ⟨frameRect.origin, nonNegative frameRect.size⟩
  { frame := frame
    bounds := ⟨⟨0, 0⟩, frame.size⟩
    boundsMatrix := none
    isRotatedOrScaledFromBase := false }

namespace Geometry

def matrix (view : Geometry K) : Affine K :=
  view.boundsMatrix.getD .one

/-- The frame, placed at the origin, under the inverse of the bounds transform. -/
def frameInBounds (view : Geometry K) (frame : Rect K) : Rect K :=
  boundingRectFor view.matrix.invert ⟨⟨0, 0⟩, frame.size⟩

def setFrame (view : Geometry K) (frameRect : Rect K) : Geometry K :=
  let frameRect : Rect K := ⟨frameRect.origin, nonNegative frameRect.size⟩
  if view.frame.size ≠ frameRect.size then
    { view with
      frame := frameRect
      bounds :=
        if view.isRotatedOrScaledFromBase then
          match view.boundsMatrix with
          | none => view.bounds
          | some _ => view.frameInBounds frameRect
        else ⟨view.bounds.origin, frameRect.size⟩ }
  else { view with frame := frameRect }

def setFrameOrigin (view : Geometry K) (newOrigin : Point K) : Geometry K :=
  { view with frame := ⟨newOrigin, view.frame.size⟩ }

def setFrameSize (view : Geometry K) (newSize : Size K) : Geometry K :=
  let newSize := nonNegative newSize
  if view.frame.size ≠ newSize then
    let newFrame : Rect K := ⟨view.frame.origin, newSize⟩
    if view.isRotatedOrScaledFromBase then
      match view.boundsMatrix with
      | none =>
        let sx := if view.frame.size.width = 0 then 1 else view.bounds.size.width / view.frame.size.width
        let sy := if view.frame.size.height = 0 then 1 else view.bounds.size.height / view.frame.size.height
        { view with
          frame := newFrame
          bounds := ⟨view.bounds.origin, ⟨newSize.width * sx, newSize.height * sy⟩⟩ }
      | some _ => { view with frame := newFrame, bounds := view.frameInBounds newFrame }
    else { view with frame := newFrame, bounds := ⟨view.bounds.origin, newSize⟩ }
  else view

def setBounds (view : Geometry K) (aRect : Rect K) : Geometry K :=
  let aRect : Rect K := ⟨aRect.origin, nonNegative aRect.size⟩
  if view.bounds ≠ aRect then
    let scale := computeScale view.frame.size aRect.size
    let matrix := scaleTo view.matrix scale.width scale.height
    let oldOrigin := matrix.invert.apply ⟨0, 0⟩
    { view with
      bounds := aRect
      boundsMatrix := some (matrix.comp (.translation (oldOrigin.x - aRect.origin.x) (oldOrigin.y - aRect.origin.y)))
      isRotatedOrScaledFromBase :=
        if scale.width ≠ 1 ∨ scale.height ≠ 1 then true else view.isRotatedOrScaledFromBase }
  else view

def translateOriginToPoint (view : Geometry K) (point : Point K) : Geometry K :=
  if (⟨0, 0⟩ : Point K) ≠ point then
    { view with
      bounds := ⟨⟨view.bounds.origin.x - point.x, view.bounds.origin.y - point.y⟩, view.bounds.size⟩
      boundsMatrix := some (view.matrix.comp (.translation point.x point.y)) }
  else view

def setBoundsOrigin (view : Geometry K) (newOrigin : Point K) : Geometry K :=
  let oldOrigin :=
    match view.boundsMatrix with
    | none => view.bounds.origin
    | some matrix => matrix.invert.apply ⟨0, 0⟩
  view.translateOriginToPoint ⟨oldOrigin.x - newOrigin.x, oldOrigin.y - newOrigin.y⟩

def setBoundsSize (view : Geometry K) (newSize : Size K) : Geometry K :=
  let newSize := nonNegative newSize
  let scale := computeScale view.frame.size newSize
  let scaleOfBounds := computeScale view.bounds.size newSize
  { view with
    bounds :=
      ⟨⟨view.bounds.origin.x / scaleOfBounds.width, view.bounds.origin.y / scaleOfBounds.height⟩, newSize⟩
    boundsMatrix := some (scaleTo view.matrix scale.width scale.height)
    isRotatedOrScaledFromBase :=
      if scale.width ≠ 1 ∨ scale.height ≠ 1 then true else view.isRotatedOrScaledFromBase }

def scaleUnitSquareToSize (view : Geometry K) (newSize : Size K) : Geometry K :=
  if newSize.width ≠ 1 ∨ newSize.height ≠ 1 then
    let newSize := nonNegative newSize
    { view with
      bounds :=
        ⟨⟨view.bounds.origin.x / newSize.width, view.bounds.origin.y / newSize.height⟩,
          ⟨view.bounds.size.width / newSize.width, view.bounds.size.height / newSize.height⟩⟩
      boundsMatrix := some (view.matrix.comp (.scaling newSize.width newSize.height))
      isRotatedOrScaledFromBase := true }
  else view

end Geometry

/-! ## Runs -/

inductive GeometryCall (K : Type*) where
  | setFrame (frameRect : Rect K)
  | setFrameOrigin (newOrigin : Point K)
  | setFrameSize (newSize : Size K)
  | setBounds (aRect : Rect K)
  | setBoundsOrigin (newOrigin : Point K)
  | setBoundsSize (newSize : Size K)
  | translateOriginToPoint (point : Point K)
  | scaleUnitSquareToSize (newSize : Size K)
  deriving DecidableEq, Repr

def GeometryCall.perform : GeometryCall K → Geometry K → Geometry K
  | setFrame frameRect, view => view.setFrame frameRect
  | setFrameOrigin newOrigin, view => view.setFrameOrigin newOrigin
  | setFrameSize newSize, view => view.setFrameSize newSize
  | setBounds aRect, view => view.setBounds aRect
  | setBoundsOrigin newOrigin, view => view.setBoundsOrigin newOrigin
  | setBoundsSize newSize, view => view.setBoundsSize newSize
  | translateOriginToPoint point, view => view.translateOriginToPoint point
  | scaleUnitSquareToSize newSize, view => view.scaleUnitSquareToSize newSize

def Positive (size : Size K) : Prop :=
  0 < size.width ∧ 0 < size.height

/-- The sizes of a call are positive. -/
def GeometryCall.Positive : GeometryCall K → Prop
  | setFrame frameRect => NSView.Positive frameRect.size
  | setFrameSize newSize | setBoundsSize newSize | scaleUnitSquareToSize newSize => NSView.Positive newSize
  | setBounds aRect => NSView.Positive aRect.size
  | _ => True

/-! ## What is claimed -/

/-- The bounds are the points that the bounds transform takes into the frame, placed at the origin. -/
def ImageOfFrame (view : Geometry K) : Prop :=
  ∀ p, view.bounds.Contains p ↔ (⟨⟨0, 0⟩, view.frame.size⟩ : Rect K).Contains (view.matrix.apply p)

/-- The lengths of the bounds for those of the frame. -/
def SameScale (view view' : Geometry K) : Prop :=
  view'.bounds.size.width / view'.frame.size.width = view.bounds.size.width / view.frame.size.width ∧
    view'.bounds.size.height / view'.frame.size.height = view.bounds.size.height / view.frame.size.height

def GeometryCall.Kept : GeometryCall K → Geometry K → Geometry K → Prop
  | setFrame _, view, view' | setFrameOrigin _, view, view' | setFrameSize _, view, view' =>
    SameScale view view' ∧ view'.boundsMatrix = view.boundsMatrix
  | setBounds aRect, _, view' => view'.bounds = aRect
  | _, _, _ => True

/-- Every state of a run has the bounds of its frame, and every call keeps what it has to. -/
def BoundsKept : Geometry K → List (GeometryCall K) → Prop
  | view, [] => ImageOfFrame view
  | view, call :: calls =>
    ImageOfFrame view ∧ call.Kept view (call.perform view) ∧ BoundsKept (call.perform view) calls

/-! ## The invariant -/

/-- The transform scales and translates, and the bounds are read off it. -/
structure BoundsFit (view : Geometry K) : Prop where
  size : Positive view.frame.size
  m12 : view.matrix.m12 = 0
  m21 : view.matrix.m21 = 0
  m11_pos : 0 < view.matrix.m11
  m22_pos : 0 < view.matrix.m22
  bounds : view.bounds = ⟨⟨-view.matrix.tX / view.matrix.m11, -view.matrix.tY / view.matrix.m22⟩,
    ⟨view.frame.size.width / view.matrix.m11, view.frame.size.height / view.matrix.m22⟩⟩
  unscaled : view.isRotatedOrScaledFromBase = false → view.matrix.m11 = 1 ∧ view.matrix.m22 = 1
  scaled : view.isRotatedOrScaledFromBase = true → view.boundsMatrix.isSome

variable {view : Geometry K}

section

omit [IsStrictOrderedRing K]

theorem nonNegative_of_positive {size : Size K} (h : Positive size) : nonNegative size = size := by
  rw [nonNegative, if_neg (not_lt.mpr h.1.le), if_neg (not_lt.mpr h.2.le)]

theorem computeScale_of_positive {fs bs : Size K} (h : Positive bs) :
    computeScale fs bs = ⟨fs.width / bs.width, fs.height / bs.height⟩ := by
  rw [computeScale, if_neg h.1.ne', if_neg h.2.ne']

theorem invert_of_scaling {m : Affine K} (h12 : m.m12 = 0) (h21 : m.m21 = 0) (hm11 : m.m11 ≠ 0) (hm22 : m.m22 ≠ 0)
    (p : Point K) : m.invert.apply p = ⟨m.m11⁻¹ * p.x + -m.tX / m.m11, m.m22⁻¹ * p.y + -m.tY / m.m22⟩ := by
  have hd : m.det = m.m11 * m.m22 := by rw [Affine.det, h12, zero_mul, sub_zero]
  have hne : m.det ≠ 0 := by
    rw [hd]
    exact mul_ne_zero hm11 hm22
  rw [Affine.invert, if_neg hne, hd]
  ext
  · simp only [Affine.apply, h12, h21]
    field_simp
    ring
  · simp only [Affine.apply, h12, h21]
    field_simp
    ring

end

theorem BoundsFit.frameInBounds (h : BoundsFit view) {frame : Rect K} (hf : Positive frame.size) :
    view.frameInBounds frame = ⟨⟨-view.matrix.tX / view.matrix.m11, -view.matrix.tY / view.matrix.m22⟩,
      ⟨frame.size.width / view.matrix.m11, frame.size.height / view.matrix.m22⟩⟩ := by
  have hb := boundingRect_of_scaling (r := ⟨⟨0, 0⟩, frame.size⟩)
    (invert_of_scaling h.m12 h.m21 h.m11_pos.ne' h.m22_pos.ne') (inv_pos.mpr h.m11_pos).le (inv_pos.mpr h.m22_pos).le
    hf.1.le hf.2.le
  rw [Geometry.frameInBounds, boundingRectFor, hb]
  ext
  · simp
  · simp
  · exact inv_mul_eq_div _ _
  · exact inv_mul_eq_div _ _

theorem BoundsFit.imageOfFrame (h : BoundsFit view) : ImageOfFrame view := by
  intro p
  have hm11 := h.m11_pos
  have hm22 := h.m22_pos
  have hx : view.matrix.apply p = ⟨view.matrix.m11 * p.x + view.matrix.tX, view.matrix.m22 * p.y + view.matrix.tY⟩ := by
    ext
    · simp [Affine.apply, h.m21]
    · simp [Affine.apply, h.m12]
  rw [hx, h.bounds]
  simp only [Rect.Contains]
  rw [← add_div, ← add_div, div_le_iff₀ hm11, le_div_iff₀ hm11, div_le_iff₀ hm22, le_div_iff₀ hm22]
  constructor
  · rintro ⟨h1, h2, h3, h4⟩
    exact ⟨by linarith, by linarith, by linarith, by linarith⟩
  · rintro ⟨h1, h2, h3, h4⟩
    exact ⟨by linarith, by linarith, by linarith, by linarith⟩

/-! ## The calls keep it -/

theorem BoundsFit.resized (h : BoundsFit view) (frame : Rect K) (hfr : Positive frame.size) :
    (if view.isRotatedOrScaledFromBase then
      match view.boundsMatrix with
      | none => view.bounds
      | some _ => view.frameInBounds frame
    else ⟨view.bounds.origin, frame.size⟩) =
      ⟨⟨-view.matrix.tX / view.matrix.m11, -view.matrix.tY / view.matrix.m22⟩,
        ⟨frame.size.width / view.matrix.m11, frame.size.height / view.matrix.m22⟩⟩ := by
  cases hf : view.isRotatedOrScaledFromBase with
  | true =>
    obtain ⟨matrix, hmat⟩ := Option.isSome_iff_exists.mp (h.scaled hf)
    rw [if_pos rfl, hmat]
    exact h.frameInBounds hfr
  | false =>
    obtain ⟨hm11, hm22⟩ := h.unscaled hf
    simp only [Bool.false_eq_true, if_false, h.bounds, hm11, hm22, div_one]

omit [IsStrictOrderedRing K] in
/-- A new frame, with the bounds for it. -/
theorem BoundsFit.withFrame (h : BoundsFit view) (frame : Rect K) (hf : Positive frame.size) {bounds : Rect K}
    (hb : bounds = ⟨⟨-view.matrix.tX / view.matrix.m11, -view.matrix.tY / view.matrix.m22⟩,
      ⟨frame.size.width / view.matrix.m11, frame.size.height / view.matrix.m22⟩⟩) :
    BoundsFit { view with frame := frame, bounds := bounds } :=
  ⟨hf, h.m12, h.m21, h.m11_pos, h.m22_pos, hb, h.unscaled, h.scaled⟩

theorem BoundsFit.setFrame (h : BoundsFit view) {frameRect : Rect K} (hp : Positive frameRect.size) :
    BoundsFit (view.setFrame frameRect) ∧ (view.setFrame frameRect).boundsMatrix = view.boundsMatrix := by
  rw [Geometry.setFrame, nonNegative_of_positive hp]
  dsimp only
  split
  · exact ⟨h.withFrame frameRect hp (h.resized frameRect hp), rfl⟩
  · rename_i hs
    refine ⟨h.withFrame frameRect hp ?_, rfl⟩
    rw [h.bounds, not_not.mp hs]

omit [IsStrictOrderedRing K] in
theorem BoundsFit.setFrameOrigin (h : BoundsFit view) (newOrigin : Point K) : BoundsFit (view.setFrameOrigin newOrigin) :=
  h.withFrame ⟨newOrigin, view.frame.size⟩ h.size h.bounds

variable {newSize : Size K}

theorem BoundsFit.setFrameSize (h : BoundsFit view) (hp : Positive newSize) :
    BoundsFit (view.setFrameSize newSize) ∧ (view.setFrameSize newSize).boundsMatrix = view.boundsMatrix := by
  have hr := h.resized ⟨view.frame.origin, newSize⟩ hp
  rw [Geometry.setFrameSize, nonNegative_of_positive hp]
  dsimp only
  split
  · cases hfl : view.isRotatedOrScaledFromBase with
    | true =>
      obtain ⟨matrix, hm⟩ := Option.isSome_iff_exists.mp (h.scaled hfl)
      rw [hfl, if_pos rfl, hm] at hr
      rw [if_pos rfl, hm]
      have hv : view = { view with boundsMatrix := some matrix, isRotatedOrScaledFromBase := true } := by
        rw [← hm, ← hfl]
      have hf := h.withFrame ⟨view.frame.origin, newSize⟩ hp hr
      rw [hm, hfl] at hf
      exact ⟨hf, rfl⟩
    | false =>
      rw [hfl, if_neg Bool.false_ne_true] at hr
      have hf := h.withFrame ⟨view.frame.origin, newSize⟩ hp hr
      rw [hfl] at hf
      rw [if_neg Bool.false_ne_true]
      exact ⟨hf, rfl⟩
  · exact ⟨h, rfl⟩

omit [IsStrictOrderedRing K] in
theorem BoundsFit.sameScale {view' : Geometry K} (h : BoundsFit view) (h' : BoundsFit view')
    (hmat : view'.boundsMatrix = view.boundsMatrix) : SameScale view view' := by
  have hm : view'.matrix = view.matrix := congrArg (·.getD .one) hmat
  have hm11 := h.m11_pos.ne'
  have hm22 := h.m22_pos.ne'
  have hw := h.size.1.ne'
  have hh := h.size.2.ne'
  have hw' := h'.size.1.ne'
  have hh' := h'.size.2.ne'
  rw [SameScale, h.bounds, h'.bounds, hm]
  constructor
  · field_simp
  · field_simp

omit [IsStrictOrderedRing K] in
theorem BoundsFit.withMatrix (h : BoundsFit view) {sx sy tX tY : K} (hx : 0 < sx) (hy : 0 < sy) {bounds : Rect K}
    (hb : bounds = ⟨⟨-tX / sx, -tY / sy⟩, ⟨view.frame.size.width / sx, view.frame.size.height / sy⟩⟩)
    {scaled : Bool} (hs : scaled = false → sx = 1 ∧ sy = 1) :
    BoundsFit ⟨view.frame, bounds, some ⟨sx, 0, 0, sy, tX, tY⟩, scaled⟩ :=
  ⟨h.size, rfl, rfl, hx, hy, hb, hs, fun _ => rfl⟩

theorem BoundsFit.setBounds (h : BoundsFit view) {aRect : Rect K} (hp : Positive aRect.size) :
    BoundsFit (view.setBounds aRect) ∧ (view.setBounds aRect).bounds = aRect := by
  have hx := div_pos h.size.1 hp.1
  have hy := div_pos h.size.2 hp.2
  rw [Geometry.setBounds, nonNegative_of_positive hp, computeScale_of_positive hp]
  dsimp only
  generalize hsx : view.frame.size.width / aRect.size.width = sx at hx
  generalize hsy : view.frame.size.height / aRect.size.height = sy at hy
  have hsx' := hx.ne'
  have hsy' := hy.ne'
  have hw : view.frame.size.width = sx * aRect.size.width := by rw [← hsx, div_mul_cancel₀ _ hp.1.ne']
  have hh : view.frame.size.height = sy * aRect.size.height := by rw [← hsy, div_mul_cancel₀ _ hp.2.ne']
  split
  · have ho := invert_of_scaling (m := scaleTo view.matrix sx sy) rfl rfl hsx' hsy' ⟨0, 0⟩
    have hm : (scaleTo view.matrix sx sy).comp
        (.translation (((scaleTo view.matrix sx sy).invert.apply ⟨0, 0⟩).x - aRect.origin.x)
          (((scaleTo view.matrix sx sy).invert.apply ⟨0, 0⟩).y - aRect.origin.y)) =
        ⟨sx, 0, 0, sy, -(sx * aRect.origin.x), -(sy * aRect.origin.y)⟩ := by
      rw [ho]
      ext
      · simp [Affine.comp, Affine.translation, scaleTo]
      · simp [Affine.comp, Affine.translation, scaleTo]
      · simp [Affine.comp, Affine.translation, scaleTo]
      · simp [Affine.comp, Affine.translation, scaleTo]
      · simp only [Affine.comp, Affine.translation, scaleTo]
        field_simp
        ring
      · simp only [Affine.comp, Affine.translation, scaleTo]
        field_simp
        ring
    rw [hm]
    refine ⟨h.withMatrix hx hy ?_ fun hs => ?_, rfl⟩
    · ext
      · simp only
        field_simp
      · simp only
        field_simp
      · simp only [hw]
        field_simp
      · simp only [hh]
        field_simp
    · by_contra hne
      rw [if_pos (not_and_or.mp hne)] at hs
      cases hs
  · rename_i hsm
    exact ⟨h, not_not.mp hsm⟩

omit [IsStrictOrderedRing K] in
theorem BoundsFit.translateOriginToPoint (h : BoundsFit view) (point : Point K) :
    BoundsFit (view.translateOriginToPoint point) := by
  have hm11 := h.m11_pos.ne'
  have hm22 := h.m22_pos.ne'
  rw [Geometry.translateOriginToPoint]
  split
  · have hmat : view.matrix.comp (.translation point.x point.y) =
        ⟨view.matrix.m11, 0, 0, view.matrix.m22, view.matrix.m11 * point.x + view.matrix.tX,
          view.matrix.m22 * point.y + view.matrix.tY⟩ := by
      ext <;> simp [Affine.comp, Affine.translation, h.m12, h.m21]
    rw [hmat]
    refine h.withMatrix h.m11_pos h.m22_pos ?_ h.unscaled
    rw [h.bounds]
    ext
    · simp only
      field_simp
      ring
    · simp only
      field_simp
      ring
    · rfl
    · rfl
  · exact h

theorem BoundsFit.setBoundsSize (h : BoundsFit view) (hp : Positive newSize) :
    BoundsFit (view.setBoundsSize newSize) := by
  have hx := div_pos h.size.1 hp.1
  have hy := div_pos h.size.2 hp.2
  have hm11 := h.m11_pos.ne'
  have hm22 := h.m22_pos.ne'
  have hf := h.size.1.ne'
  have hfm := h.size.2.ne'
  have hnw := hp.1.ne'
  have hn := hp.2.ne'
  rw [Geometry.setBoundsSize, nonNegative_of_positive hp, computeScale_of_positive hp, computeScale_of_positive hp]
  refine h.withMatrix hx hy ?_ fun hs => ?_
  · rw [h.bounds]
    ext
    · simp only
      field_simp
    · simp only
      field_simp
    · simp only
      field_simp
    · simp only
      field_simp
  · by_contra hne
    rw [if_pos (not_and_or.mp hne)] at hs
    cases hs

theorem BoundsFit.scaleUnitSquareToSize (h : BoundsFit view) (hp : Positive newSize) :
    BoundsFit (view.scaleUnitSquareToSize newSize) := by
  have hm11 := h.m11_pos.ne'
  have hm22 := h.m22_pos.ne'
  have hnw := hp.1.ne'
  have hn := hp.2.ne'
  rw [Geometry.scaleUnitSquareToSize, nonNegative_of_positive hp]
  split
  · have hmat : view.matrix.comp (.scaling newSize.width newSize.height) =
        ⟨view.matrix.m11 * newSize.width, 0, 0, view.matrix.m22 * newSize.height, view.matrix.tX, view.matrix.tY⟩ := by
      ext <;> simp [Affine.comp, Affine.scaling, h.m12, h.m21]
    dsimp only
    rw [hmat]
    refine h.withMatrix (mul_pos h.m11_pos hp.1) (mul_pos h.m22_pos hp.2) ?_ fun h => by cases h
    rw [h.bounds]
    ext
    · simp only
      field_simp
    · simp only
      field_simp
    · simp only
      field_simp
    · simp only
      field_simp
  · exact h

theorem GeometryCall.fits (h : BoundsFit view) {call : GeometryCall K} (hp : call.Positive) :
    BoundsFit (call.perform view) ∧ call.Kept view (call.perform view) := by
  cases call with
  | setFrame frameRect =>
    obtain ⟨hf, hm⟩ := h.setFrame hp
    exact ⟨hf, h.sameScale hf hm, hm⟩
  | setFrameOrigin newOrigin =>
    have hf := h.setFrameOrigin newOrigin
    exact ⟨hf, h.sameScale hf rfl, rfl⟩
  | setFrameSize newSize =>
    obtain ⟨hf, hm⟩ := h.setFrameSize hp
    exact ⟨hf, h.sameScale hf hm, hm⟩
  | setBounds aRect => exact h.setBounds hp
  | setBoundsOrigin newOrigin => exact ⟨h.translateOriginToPoint _, trivial⟩
  | setBoundsSize newSize => exact ⟨h.setBoundsSize hp, trivial⟩
  | translateOriginToPoint point => exact ⟨h.translateOriginToPoint point, trivial⟩
  | scaleUnitSquareToSize newSize => exact ⟨h.scaleUnitSquareToSize hp, trivial⟩

theorem boundsFit_initWithFrame {frameRect : Rect K} (hp : Positive frameRect.size) :
    BoundsFit (initWithFrame frameRect) := by
  rw [initWithFrame, nonNegative_of_positive hp]
  refine ⟨hp, rfl, rfl, zero_lt_one, zero_lt_one, ?_, fun _ => ⟨rfl, rfl⟩, (nomatch ·)⟩
  ext <;> simp [Geometry.matrix, Affine.one]

theorem BoundsFit.run (h : BoundsFit view) {calls : List (GeometryCall K)} (hp : ∀ call ∈ calls, call.Positive) :
    BoundsKept view calls := by
  induction calls generalizing view with
  | nil => exact h.imageOfFrame
  | cons call calls ih =>
    obtain ⟨hf, hk⟩ := GeometryCall.fits h (hp call List.mem_cons_self)
    exact ⟨h.imageOfFrame, hk, ih hf fun c hc => hp c (List.mem_cons_of_mem _ hc)⟩

/-- The bounds of a view with positive sizes are always those of its frame. -/
theorem bounds_kept {frameRect : Rect K} (hframe : Positive frameRect.size) {calls : List (GeometryCall K)}
    (hpos : ∀ call ∈ calls, call.Positive) : BoundsKept (initWithFrame frameRect) calls :=
  (boundsFit_initWithFrame hframe).run hpos

theorem bounds_kept_scaled : BoundsKept (initWithFrame (⟨⟨1, 2⟩, ⟨10, 20⟩⟩ : Rect ℚ))
    [.setBounds ⟨⟨3, 4⟩, ⟨5, 5⟩⟩, .setFrameSize ⟨30, 10⟩, .scaleUnitSquareToSize ⟨2, 4⟩, .setBoundsOrigin ⟨0, 1⟩] := by
  refine bounds_kept ⟨by decide, by decide⟩ fun call hc => ?_
  simp only [List.mem_cons, List.not_mem_nil, or_false] at hc
  obtain rfl | rfl | rfl | rfl := hc
  · exact ⟨by decide, by decide⟩
  · exact ⟨by decide, by decide⟩
  · exact ⟨by decide, by decide⟩
  · trivial

end GnustepGui.NSView
