import GnustepGui.View.Coordinates

/-!
# Autoresizing

A subview that is resized with its superview, with exact arithmetic apart from the floor of its edges. What
stands above the superview does not change. Several new frames give what the last gives at once (`not_drifting`).
-/

namespace GnustepGui.NSView

open Plane

attribute [local instance] Numerals.ten

/-! ## One axis -/

/-- The parts of an axis that a new size is distributed over. -/
structure Flexible where
  minMargin : Bool
  size : Bool
  maxMargin : Bool
  deriving DecidableEq, Repr

/-- Position and size along an axis. -/
@[ext]
structure Extent (K : Type*) where
  position : K
  size : K
  deriving DecidableEq, Repr

section Axis

variable {K : Type*} [Field K]

def Flexible.space (flexible : Flexible) (containerSize : K) (content : Extent K) : K :=
  (if flexible.size then content.size else 0) + (if flexible.minMargin then content.position else 0) +
    (if flexible.maxMargin then containerSize - content.position - content.size else 0)

def Flexible.subdivisions (flexible : Flexible) : Nat :=
  flexible.size.toNat + flexible.minMargin.toNat + flexible.maxMargin.toNat

def autoresize [LinearOrder K] (oldContainerSize newContainerSize : K) (content : Extent K) (flexible : Flexible) :
    Extent K :=
  let change := newContainerSize - oldContainerSize
  let flexibleSpace := flexible.space oldContainerSize content
  if flexibleSpace ≤ 0 then
    if flexible.subdivisions > 0 then
      let changePerOption := change / flexible.subdivisions
      { position := if flexible.minMargin then content.position + changePerOption else content.position
        size := if flexible.size then content.size + changePerOption else content.size }
    else content
  else
    let changePerPoint := change / flexibleSpace
    { position :=
        if flexible.minMargin then content.position + changePerPoint * content.position else content.position
      size := if flexible.size then content.size + changePerPoint * content.size else content.size }

/-- Nothing is flexible, or the flexible space is positive in a container of this size. -/
def Flexible.Fits [LinearOrder K] (flexible : Flexible) (firstSize : K) (content : Extent K) (containerSize : K) :
    Prop :=
  flexible.subdivisions = 0 ∨ 0 < flexible.space firstSize content + (containerSize - firstSize)

variable [LinearOrder K] [IsStrictOrderedRing K] {a b c : K} {content : Extent K} {flexible : Flexible}

omit [IsStrictOrderedRing K] in
theorem autoresize_of_subdivisions_eq_zero (h : flexible.subdivisions = 0) : autoresize a b content flexible = content := by
  obtain ⟨minMargin, size, maxMargin⟩ := flexible
  cases minMargin <;> cases size <;> cases maxMargin <;> simp_all [Flexible.subdivisions, autoresize]

omit [IsStrictOrderedRing K] in
theorem autoresize_of_pos (h : 0 < flexible.space a content) :
    autoresize a b content flexible =
      ⟨if flexible.minMargin then content.position * (1 + (b - a) / flexible.space a content) else content.position,
        if flexible.size then content.size * (1 + (b - a) / flexible.space a content) else content.size⟩ := by
  simp only [autoresize, if_neg (not_le.mpr h)]
  ext
  · simp only
    split
    · ring
    · rfl
  · simp only
    split
    · ring
    · rfl

theorem space_autoresize (h : 0 < flexible.space a content) :
    flexible.space b (autoresize a b content flexible) = flexible.space a content + (b - a) := by
  have hk : (b - a) / flexible.space a content * flexible.space a content = b - a := div_mul_cancel₀ _ h.ne'
  rw [autoresize_of_pos h]
  generalize (b - a) / flexible.space a content = k at hk ⊢
  generalize hs : flexible.space a content = space at hk ⊢
  obtain ⟨minMargin, size, maxMargin⟩ := flexible
  cases maxMargin with
  | false =>
    cases minMargin <;> cases size <;>
      simp only [Flexible.space, Bool.false_eq_true, if_false, if_true] at hs ⊢ <;>
      linear_combination hk + (1 + k) * hs
  | true =>
    cases minMargin <;> cases size <;>
      simp only [Flexible.space, Bool.false_eq_true, if_false, if_true] at hs ⊢ <;>
      linear_combination hs

/-- Two resizes are the one from the first size to the last. -/
theorem autoresize_autoresize (ha : flexible.Fits a content a) (hb : flexible.Fits a content b) :
    autoresize b c (autoresize a b content flexible) flexible = autoresize a c content flexible := by
  by_cases hn : flexible.subdivisions = 0
  · simp only [autoresize_of_subdivisions_eq_zero hn]
  · have hp : 0 < flexible.space a content := by
      have := ha.resolve_left hn
      rwa [sub_self, add_zero] at this
    have hp' : 0 < flexible.space b (autoresize a b content flexible) := by
      rw [space_autoresize hp]
      exact hb.resolve_left hn
    have hs := hp'
    rw [autoresize_of_pos hp', space_autoresize hp, autoresize_of_pos hp, autoresize_of_pos hp]
    rw [space_autoresize hp] at hs
    have hne := hp.ne'
    have hne' := hs.ne'
    generalize flexible.space a content = space at hne hne' ⊢
    have hf (x : K) : x * (1 + (b - a) / space) * (1 + (c - b) / (space + (b - a))) = x * (1 + (c - a) / space) := by
      field_simp
      ring
    ext
    · simp only
      split
      · exact hf content.position
      · rfl
    · simp only
      split
      · exact hf content.size
      · rfl

omit [IsStrictOrderedRing K] in
theorem autoresize_self (h : flexible.Fits a content a) : autoresize a a content flexible = content := by
  by_cases hn : flexible.subdivisions = 0
  · exact autoresize_of_subdivisions_eq_zero hn
  · have hp := h.resolve_left hn
    rw [sub_self, add_zero] at hp
    rw [autoresize_of_pos hp, sub_self, zero_div, add_zero, mul_one, mul_one, ite_self, ite_self]

theorem size_autoresize_nonneg (ha : flexible.Fits a content a) (hb : flexible.Fits a content b)
    (hsz : 0 ≤ content.size) : 0 ≤ (autoresize a b content flexible).size := by
  by_cases hn : flexible.subdivisions = 0
  · rw [autoresize_of_subdivisions_eq_zero hn]
    exact hsz
  · have hp : 0 < flexible.space a content := by
      have := ha.resolve_left hn
      rwa [sub_self, add_zero] at this
    have hs := hb.resolve_left hn
    rw [autoresize_of_pos hp]
    simp only
    split
    · refine mul_nonneg hsz ?_
      rw [one_add_div hp.ne']
      exact (div_pos hs hp).le
    · exact hsz

end Axis

/-! ## The subview -/

/-- `_autoresizingMask` -/
structure AutoresizingMask where
  minXMargin : Bool
  widthSizable : Bool
  maxXMargin : Bool
  minYMargin : Bool
  heightSizable : Bool
  maxYMargin : Bool
  deriving DecidableEq, Repr

namespace AutoresizingMask

def notSizable : AutoresizingMask :=
  ⟨false, false, false, false, false, false⟩

def horizontal (mask : AutoresizingMask) : Flexible :=
  ⟨mask.minXMargin, mask.widthSizable, mask.maxXMargin⟩

def vertical (mask : AutoresizingMask) : Flexible :=
  ⟨mask.minYMargin, mask.heightSizable, mask.maxYMargin⟩

end AutoresizingMask

/-- What does not change in a run. `above` is missing for a superview that is the root of no window, and else
has the flip and the matrix to the window of what the superview stands in. -/
structure Surroundings (K : Type*) where
  autoresizesSubviews : Bool
  autoresizingMask : AutoresizingMask
  isFlipped : Bool
  above : Option (Bool × Affine K)
  isRotatedAbove : Bool

structure Autoresizing (K : Type*) [Field K] where
  superview : Placement K
  subview : Placement K
  autoresizingFrameError : Rect K

variable {K : Type*} [Field K] [LinearOrder K]

def horizontalExtent (frame : Rect K) : Extent K :=
  ⟨frame.origin.x, frame.size.width⟩

def verticalExtent (frame : Rect K) : Extent K :=
  ⟨frame.origin.y, frame.size.height⟩

/-- The frame that `autoresize` gives on both axes. -/
def autoresizedFrame (mask : AutoresizingMask) (oldSize newSize : Size K) (frame : Rect K) : Rect K :=
  let horizontal := autoresize oldSize.width newSize.width (horizontalExtent frame) mask.horizontal
  let vertical := autoresize oldSize.height newSize.height (verticalExtent frame) mask.vertical
  ⟨⟨horizontal.position, vertical.position⟩, ⟨horizontal.size, vertical.size⟩⟩

/-- The edges are floored in the window, with a snap. -/
def floorEdges [IsStrictOrderedRing K] [FloorRing K] (matrix : Affine K) (frame : Rect K) : Rect K :=
  let win := convertRectUsingMatrices frame matrix .one
  let floor (edge : K) : K := (⌊edge + 1 / 10 ^ 6⌋ : ℤ)
  let minX := floor win.origin.x
  let minY := floor win.origin.y
  let maxX := floor (win.origin.x + win.size.width)
  let maxY := floor (win.origin.y + win.size.height)
  convertRectUsingMatrices ⟨⟨minX, minY⟩, ⟨maxX - minX, maxY - minY⟩⟩ .one matrix.invert

def rectDifference (a b : Rect K) : Rect K :=
  ⟨⟨a.origin.x - b.origin.x, a.origin.y - b.origin.y⟩, ⟨a.size.width - b.size.width, a.size.height - b.size.height⟩⟩

namespace Autoresizing

variable (surroundings : Surroundings K)

/-- The matrix from the superview to the window. -/
def matrixToWindow (state : Autoresizing K) : Affine K :=
  match surroundings.above with
  | none => .one
  | some (superFlipped, pMatrix) =>
    prependPlacement state.superview surroundings.isFlipped superFlipped pMatrix

def isRotatedFromBase (state : Autoresizing K) : Bool :=
  state.subview.isRotatedFromBase || state.superview.isRotatedFromBase || surroundings.isRotatedAbove

/-- The frame without the error of its rounding. -/
def exactFrame (state : Autoresizing K) : Rect K :=
  if state.autoresizingFrameError ≠ NSZeroRect then
    rectDifference state.subview.frame state.autoresizingFrameError
  else state.subview.frame

variable [IsStrictOrderedRing K] [FloorRing K]

def resizeWithOldSuperviewSize (state : Autoresizing K) (oldSize : Size K) : Autoresizing K :=
  if surroundings.autoresizingMask = .notSizable then state
  else
    let newFrame :=
      autoresizedFrame surroundings.autoresizingMask oldSize state.superview.frame.size state.exactFrame
    let newFrameRounded :=
      if state.isRotatedFromBase surroundings then newFrame
      else floorEdges (state.matrixToWindow surroundings) newFrame
    { state with
      subview := { state.subview with toGeometry := state.subview.setFrame newFrameRounded }
      autoresizingFrameError := rectDifference newFrameRounded newFrame }

def resizeSubviewsWithOldSize (state : Autoresizing K) (oldSize : Size K) : Autoresizing K :=
  if surroundings.autoresizesSubviews = false ∨ state.superview.isRotatedFromBase = true then state
  else state.resizeWithOldSuperviewSize surroundings oldSize

/-- `setFrame:` of the superview. -/
def setFrame (state : Autoresizing K) (frameRect : Rect K) : Autoresizing K :=
  if state.superview.frame.origin ≠ frameRect.origin ∨ state.superview.frame.size ≠ nonNegative frameRect.size then
    resizeSubviewsWithOldSize surroundings
      { state with superview := { state.superview with toGeometry := state.superview.setFrame frameRect } }
      state.superview.frame.size
  else state

/-- `setFrameSize:` of the superview. -/
def setFrameSize (state : Autoresizing K) (newSize : Size K) : Autoresizing K :=
  if state.superview.frame.size ≠ nonNegative newSize then
    resizeSubviewsWithOldSize surroundings
      { state with superview := { state.superview with toGeometry := state.superview.setFrameSize newSize } }
      state.superview.frame.size
  else state

end Autoresizing

/-! ## Runs -/

inductive ResizeCall (K : Type*) where
  | setFrame (frameRect : Rect K)
  | setFrameSize (newSize : Size K)

namespace ResizeCall

def size : ResizeCall K → Size K
  | setFrame frameRect => nonNegative frameRect.size
  | setFrameSize newSize => nonNegative newSize

variable [IsStrictOrderedRing K] [FloorRing K]

def perform (surroundings : Surroundings K) (state : Autoresizing K) : ResizeCall K → Autoresizing K
  | setFrame frameRect => state.setFrame surroundings frameRect
  | setFrameSize newSize => state.setFrameSize surroundings newSize

end ResizeCall

def Autoresizing.run [IsStrictOrderedRing K] [FloorRing K] (surroundings : Surroundings K) (state : Autoresizing K)
    (calls : List (ResizeCall K)) : Autoresizing K :=
  calls.foldl (fun state call => call.perform surroundings state) state

/-! ## What is claimed -/

section Claim

variable [IsStrictOrderedRing K] [FloorRing K]

/-- The edges of the frame are along the axes of the window, and at integers there. -/
structure OnPixelBoundaries (matrix : Affine K) (frame : Rect K) : Prop where
  m12 : matrix.m12 = 0
  m21 : matrix.m21 = 0
  m11 : matrix.m11 ≠ 0
  m22 : matrix.m22 ≠ 0
  minX : ∃ edge : ℤ, matrix.m11 * frame.origin.x + matrix.tX = edge
  maxX : ∃ edge : ℤ, matrix.m11 * (frame.origin.x + frame.size.width) + matrix.tX = edge
  minY : ∃ edge : ℤ, matrix.m22 * frame.origin.y + matrix.tY = edge
  maxY : ∃ edge : ℤ, matrix.m22 * (frame.origin.y + frame.size.height) + matrix.tY = edge

/-- The frame after a run is the one after a single resize, from the first frame of the superview to the last,
and a frame on pixel boundaries is restored. -/
structure NotDrifted (surroundings : Surroundings K) (start state : Autoresizing K) : Prop where
  resized : state = start ∨ state.subview.frame =
    (Autoresizing.resizeSubviewsWithOldSize surroundings { start with superview := state.superview }
      start.superview.frame.size).subview.frame
  single : state.superview.frame ≠ start.superview.frame →
    state.subview.frame = (start.setFrame surroundings state.superview.frame).subview.frame
  singleSize : state.superview.frame.origin = start.superview.frame.origin →
    state.superview.frame.size ≠ start.superview.frame.size →
      state.subview.frame = (start.setFrameSize surroundings state.superview.frame.size).subview.frame
  restored : state.superview.frame = start.superview.frame →
    start.isRotatedFromBase surroundings = true ∨
        OnPixelBoundaries (start.matrixToWindow surroundings) start.subview.frame →
      state.subview.frame = start.subview.frame

/-- The flexible space of a frame is positive where the superview has this size. -/
def AutoresizingMask.Fits (mask : AutoresizingMask) (firstSize : Size K) (frame : Rect K) (size : Size K) : Prop :=
  mask.horizontal.Fits firstSize.width (horizontalExtent frame) size.width ∧
    mask.vertical.Fits firstSize.height (verticalExtent frame) size.height

/-- A frame without a rounding error, with flexible space. -/
structure Autoresizing.Starts (surroundings : Surroundings K) (start : Autoresizing K) : Prop where
  error : start.autoresizingFrameError = NSZeroRect
  width : 0 ≤ start.subview.frame.size.width
  height : 0 ≤ start.subview.frame.size.height
  fits : surroundings.autoresizingMask.Fits start.superview.frame.size start.subview.frame start.superview.frame.size

/-! ## Rounding -/

omit [IsStrictOrderedRing K] [FloorRing K] in
theorem nonNegative_eq_self {size : Size K} (hw : 0 ≤ size.width) (hh : 0 ≤ size.height) : nonNegative size = size := by
  rw [nonNegative, if_neg (not_lt.mpr hw), if_neg (not_lt.mpr hh)]

theorem floor_add_snap (edge : ℤ) : ⌊(edge : K) + 1 / 10 ^ 6⌋ = edge := by
  rw [Int.floor_eq_iff]
  constructor
  · exact le_add_of_nonneg_right (by positivity)
  · have : (1 : K) / 10 ^ 6 < 1 := by norm_num
    linarith

theorem floor_minmax {edge edge' : K} (h : ∃ n : ℤ, edge = n) (h' : ∃ n : ℤ, edge' = n) :
    ((⌊min edge edge' + 1 / 10 ^ 6⌋ : ℤ) : K) = min edge edge' ∧
      ((⌊max edge edge' + 1 / 10 ^ 6⌋ : ℤ) : K) = max edge edge' := by
  obtain ⟨n, rfl⟩ := h
  obtain ⟨n', rfl⟩ := h'
  rw [← Int.cast_min, ← Int.cast_max, floor_add_snap, floor_add_snap]
  exact ⟨rfl, rfl⟩

theorem floorEdges_eq_self {matrix : Affine K} {frame : Rect K} (h : OnPixelBoundaries matrix frame)
    (hw : 0 ≤ frame.size.width) (hh : 0 ≤ frame.size.height) : floorEdges matrix frame = frame := by
  have hm11 := h.m11
  have hm22 := h.m22
  let toX (t : K) := matrix.m11 * t + matrix.tX
  let toY (t : K) := matrix.m22 * t + matrix.tY
  let fromX (t : K) := matrix.m11⁻¹ * t + -matrix.tX / matrix.m11
  let fromY (t : K) := matrix.m22⁻¹ * t + -matrix.tY / matrix.m22
  have ht (p : Point K) : Affine.one.apply (matrix.apply p) = ⟨toX p.x, toY p.y⟩ := by
    rw [Affine.one_apply]
    ext
    · simp [Affine.apply, h.m21, toX]
    · simp [Affine.apply, h.m12, toY]
  have hf (p : Point K) : matrix.invert.apply (Affine.one.apply p) = ⟨fromX p.x, fromY p.y⟩ := by
    rw [Affine.one_apply, invert_of_scaling h.m12 h.m21 hm11 hm22]
  obtain ⟨hmn, hmx⟩ := floor_minmax h.minX h.maxX
  obtain ⟨hmy, hma⟩ := floor_minmax h.minY h.maxY
  have hwin := boundingRect_of_axes ht frame
  have hb : boundingRect (fun p => matrix.invert.apply (Affine.one.apply p))
      (boundingRect (fun p => Affine.one.apply (matrix.apply p)) frame) = frame := by
    refine boundingRect_boundingRect ht hf (fun t => ?_) (fun t => ?_) hw hh
    · simp only [toX, fromX]
      field_simp
      ring
    · simp only [toY, fromY]
      field_simp
      ring
  rw [floorEdges, convertRectUsingMatrices, convertRectUsingMatrices]
  rw [hwin] at hb ⊢
  simp only [toX, toY, add_sub_cancel, hmn, hmx, hmy, hma] at hb ⊢
  exact hb

theorem floorEdges_size_nonneg (matrix : Affine K) (frame : Rect K) :
    0 ≤ (floorEdges matrix frame).size.width ∧ 0 ≤ (floorEdges matrix frame).size.height :=
  boundingRect_size_nonneg _ _

/-! ## One resize -/

namespace Autoresizing

variable {surroundings : Surroundings K} {start state : Autoresizing K}

section

omit [IsStrictOrderedRing K] [FloorRing K]

theorem exactFrame_eq (state : Autoresizing K) :
    state.exactFrame = rectDifference state.subview.frame state.autoresizingFrameError := by
  rw [exactFrame]
  split
  · rfl
  · rename_i h
    rw [not_not.mp h]
    ext
    all_goals simp [rectDifference, NSZeroRect]

theorem setFrame_frame (view : Geometry K) (frameRect : Rect K) :
    (view.setFrame frameRect).frame = ⟨frameRect.origin, nonNegative frameRect.size⟩ := by
  rw [Geometry.setFrame]
  dsimp only
  split
  · rfl
  · rfl

theorem setFrame_boundsMatrix (view : Geometry K) (frameRect : Rect K) :
    (view.setFrame frameRect).boundsMatrix = view.boundsMatrix := by
  rw [Geometry.setFrame]
  dsimp only
  split
  · rfl
  · rfl

theorem setFrameSize_frame (view : Geometry K) (newSize : Size K) :
    (view.setFrameSize newSize).frame = ⟨view.frame.origin, nonNegative newSize⟩ := by
  rw [Geometry.setFrameSize]
  dsimp only
  split
  · split
    · split
      · rfl
      · rfl
    · rfl
  · rename_i h
    rw [← not_not.mp h]

theorem setFrameSize_boundsMatrix (view : Geometry K) (newSize : Size K) :
    (view.setFrameSize newSize).boundsMatrix = view.boundsMatrix := by
  rw [Geometry.setFrameSize]
  dsimp only
  split
  · split
    · split
      · rfl
      · rfl
    · rfl
  · rfl

end

/-- The subview follows the superview. -/
def Follows (surroundings : Surroundings K) (state : Autoresizing K) : Prop :=
  surroundings.autoresizingMask ≠ .notSizable ∧ surroundings.autoresizesSubviews = true ∧
    state.superview.isRotatedFromBase = false

/-- The superview is the one at the start, with another frame. -/
structure SameSuperview (start : Autoresizing K) (superview : Placement K) : Prop where
  boundsMatrix : superview.boundsMatrix = start.superview.boundsMatrix
  frameMatrix : superview.frameMatrix = start.superview.frameMatrix
  isRotatedFromBase : superview.isRotatedFromBase = start.superview.isRotatedFromBase

/-- The frame that the subview has where the superview is this one. -/
def roundedFrame (surroundings : Surroundings K) (start : Autoresizing K) (superview : Placement K) : Rect K :=
  let newFrame := autoresizedFrame surroundings.autoresizingMask start.superview.frame.size superview.frame.size
    start.subview.frame
  if start.isRotatedFromBase surroundings then newFrame
  else floorEdges (({ start with superview := superview } : Autoresizing K).matrixToWindow surroundings) newFrame

/-- What holds of a subview that follows. -/
structure Settled (surroundings : Surroundings K) (start state : Autoresizing K) : Prop where
  superview : SameSuperview start state.superview
  isRotatedFromBase : state.subview.isRotatedFromBase = start.subview.isRotatedFromBase
  exactFrame : state.exactFrame = autoresizedFrame surroundings.autoresizingMask start.superview.frame.size
    state.superview.frame.size start.subview.frame
  fits : surroundings.autoresizingMask.Fits start.superview.frame.size start.subview.frame state.superview.frame.size
  frame : state = start ∨ nonNegative state.superview.frame.size = state.superview.frame.size ∧
    state.subview.frame = roundedFrame surroundings start state.superview

omit [IsStrictOrderedRing K] [FloorRing K] in
theorem autoresizedFrame_self {mask : AutoresizingMask} {size : Size K} {frame : Rect K}
    (h : mask.Fits size frame size) : autoresizedFrame mask size size frame = frame := by
  rw [autoresizedFrame, autoresize_self h.1, autoresize_self h.2]
  rfl

omit [FloorRing K] in
theorem autoresizedFrame_autoresizedFrame {mask : AutoresizingMask} {a b : Size K} {frame : Rect K}
    (ha : mask.Fits a frame a) (hb : mask.Fits a frame b) (c : Size K) :
    autoresizedFrame mask b c (autoresizedFrame mask a b frame) = autoresizedFrame mask a c frame := by
  have hh := autoresize_autoresize (c := c.width) ha.1 hb.1
  have hv := autoresize_autoresize (c := c.height) ha.2 hb.2
  rw [autoresizedFrame]
  simp only [horizontalExtent, verticalExtent, autoresizedFrame] at hh hv ⊢
  rw [hh, hv]

variable {superview : Placement K}

theorem roundedFrame_size_nonneg (hs : Starts surroundings start)
    (hf : surroundings.autoresizingMask.Fits start.superview.frame.size start.subview.frame superview.frame.size) :
    0 ≤ (roundedFrame surroundings start superview).size.width ∧
      0 ≤ (roundedFrame surroundings start superview).size.height := by
  rw [roundedFrame]
  split
  · exact ⟨size_autoresize_nonneg hs.fits.1 hf.1 hs.width, size_autoresize_nonneg hs.fits.2 hf.2 hs.height⟩
  · exact floorEdges_size_nonneg _ _

theorem Starts.settled (h : Starts surroundings start) : Settled surroundings start start where
  superview := ⟨rfl, rfl, rfl⟩
  isRotatedFromBase := rfl
  exactFrame := by
    rw [exactFrame_eq, h.error, autoresizedFrame_self h.fits, rectDifference, NSZeroRect]
    simp only [sub_zero]
  fits := h.fits
  frame := .inl rfl

theorem roundedFrame_congr {superview superview' : Placement K} (h : SameSuperview start superview)
    (h' : SameSuperview start superview') (hf : superview.frame = superview'.frame) :
    roundedFrame surroundings start superview = roundedFrame surroundings start superview' := by
  have hm : ({ start with superview := superview } : Autoresizing K).matrixToWindow surroundings =
      ({ start with superview := superview' } : Autoresizing K).matrixToWindow surroundings := by
    simp only [matrixToWindow, prependPlacement, hf, h.boundsMatrix, h'.boundsMatrix, h.frameMatrix, h'.frameMatrix]
  rw [roundedFrame, roundedFrame, hm, hf]

theorem Settled.resize (h : Settled surroundings start state) (hst : Starts surroundings start)
    (hf : Follows surroundings start) (hs : SameSuperview start superview)
    (hn : nonNegative superview.frame.size = superview.frame.size)
    (hft : surroundings.autoresizingMask.Fits start.superview.frame.size start.subview.frame superview.frame.size) :
    Settled surroundings start
        (resizeSubviewsWithOldSize surroundings { state with superview := superview } state.superview.frame.size) ∧
      (resizeSubviewsWithOldSize surroundings { state with superview := superview }
        state.superview.frame.size).subview.frame = roundedFrame surroundings start superview := by
  obtain ⟨hm, hr, hrt⟩ := hf
  have ho : ¬ (surroundings.autoresizesSubviews = false ∨ superview.isRotatedFromBase = true) := by
    rw [hs.isRotatedFromBase, hrt, hr]
    simp
  have hnew : autoresizedFrame surroundings.autoresizingMask state.superview.frame.size superview.frame.size
      ({ state with superview := superview } : Autoresizing K).exactFrame =
      autoresizedFrame surroundings.autoresizingMask start.superview.frame.size superview.frame.size
        start.subview.frame := by
    have hexact : ({ state with superview := superview } : Autoresizing K).exactFrame = state.exactFrame := rfl
    rw [hexact, h.exactFrame, autoresizedFrame_autoresizedFrame hst.fits h.fits]
  have hrn : (if ({ state with superview := superview } : Autoresizing K).isRotatedFromBase surroundings then
        autoresizedFrame surroundings.autoresizingMask start.superview.frame.size superview.frame.size
          start.subview.frame
      else floorEdges (({ state with superview := superview } : Autoresizing K).matrixToWindow surroundings)
        (autoresizedFrame surroundings.autoresizingMask start.superview.frame.size superview.frame.size
          start.subview.frame)) = roundedFrame surroundings start superview := by
    have hrot : ({ state with superview := superview } : Autoresizing K).isRotatedFromBase surroundings =
        start.isRotatedFromBase surroundings := by
      simp only [Autoresizing.isRotatedFromBase, h.isRotatedFromBase, hs.isRotatedFromBase]
    rw [roundedFrame, hrot]
    rfl
  obtain ⟨hw, hh⟩ := roundedFrame_size_nonneg hst hft
  rw [resizeSubviewsWithOldSize, if_neg ho, resizeWithOldSuperviewSize, if_neg hm]
  dsimp only
  rw [hnew, hrn]
  have hfr : (state.subview.setFrame (roundedFrame surroundings start superview)).frame =
      roundedFrame surroundings start superview := by
    rw [setFrame_frame, nonNegative_eq_self hw hh]
  refine ⟨⟨hs, h.isRotatedFromBase, ?_, hft, .inr ⟨hn, hfr⟩⟩, hfr⟩
  rw [exactFrame_eq]
  dsimp only
  rw [hfr]
  ext
  all_goals simp [rectDifference]

omit [IsStrictOrderedRing K] [FloorRing K] in
theorem nonNegative_nonNegative (size : Size K) : nonNegative (nonNegative size) = nonNegative size := by
  refine nonNegative_eq_self ?_ ?_
  · rw [nonNegative]
    dsimp only
    split
    · exact le_refl 0
    · rename_i h
      exact not_lt.mp h
  · rw [nonNegative]
    dsimp only
    split
    · exact le_refl 0
    · rename_i h
      exact not_lt.mp h

/-! ## Runs -/

variable (surroundings) in
/-- A call gives the superview a frame of its size, and has the subview follow where that changes. -/
theorem perform_cases (call : ResizeCall K) (state : Autoresizing K) :
    call.perform surroundings state = state ∨
      ∃ superview : Placement K, SameSuperview state superview ∧ superview.frame.size = call.size ∧
        call.perform surroundings state =
          resizeSubviewsWithOldSize surroundings { state with superview := superview } state.superview.frame.size := by
  cases call with
  | setFrame frameRect =>
    rw [ResizeCall.perform, Autoresizing.setFrame]
    split
    · refine .inr ⟨{ state.superview with toGeometry := state.superview.setFrame frameRect },
        ⟨setFrame_boundsMatrix .., rfl, rfl⟩, ?_, rfl⟩
      exact congrArg Rect.size (setFrame_frame _ frameRect)
    · exact .inl rfl
  | setFrameSize newSize =>
    rw [ResizeCall.perform, Autoresizing.setFrameSize]
    split
    · refine .inr ⟨{ state.superview with toGeometry := state.superview.setFrameSize newSize },
        ⟨setFrameSize_boundsMatrix .., rfl, rfl⟩, ?_, rfl⟩
      exact congrArg Rect.size (setFrameSize_frame _ newSize)
    · exact .inl rfl

omit [IsStrictOrderedRing K] [FloorRing K] in
theorem nonNegative_size (call : ResizeCall K) : nonNegative call.size = call.size := by
  cases call with
  | setFrame frameRect => exact nonNegative_nonNegative _
  | setFrameSize newSize => exact nonNegative_nonNegative _

omit [LinearOrder K] [IsStrictOrderedRing K] [FloorRing K] in
theorem SameSuperview.trans (h : SameSuperview start state.superview)
    (h' : SameSuperview state superview) : SameSuperview start superview :=
  ⟨h'.boundsMatrix.trans h.boundsMatrix, h'.frameMatrix.trans h.frameMatrix,
    h'.isRotatedFromBase.trans h.isRotatedFromBase⟩

theorem Settled.perform (h : Settled surroundings start state) (hst : Starts surroundings start)
    (hf : Follows surroundings start) {call : ResizeCall K}
    (hft : surroundings.autoresizingMask.Fits start.superview.frame.size start.subview.frame call.size) :
    Settled surroundings start (call.perform surroundings state) := by
  obtain heq | ⟨superview, hsm, hs, heq⟩ := perform_cases surroundings call state
  · rw [heq]
    exact h
  · rw [heq]
    refine (h.resize hst hf (h.superview.trans hsm) ?_ ?_).1
    · rw [hs, nonNegative_size]
    · rw [hs]
      exact hft

theorem Settled.run (h : Settled surroundings start state) (hs : Starts surroundings start)
    (hf : Follows surroundings start) {calls : List (ResizeCall K)} (hft : ∀ call ∈ calls,
      surroundings.autoresizingMask.Fits start.superview.frame.size start.subview.frame call.size) :
    Settled surroundings start (state.run surroundings calls) := by
  induction calls generalizing state with
  | nil => exact h
  | cons call calls ih =>
    exact ih (h.perform hs hf (hft call List.mem_cons_self)) fun c hc => hft c (List.mem_cons_of_mem _ hc)

theorem Settled.frame_of_ne (h : Settled surroundings start state) (hst : Starts surroundings start)
    (hf : Follows surroundings start) (hne : state ≠ start)
    (hs : SameSuperview start superview) (hfr : superview.frame = state.superview.frame) :
    state.subview.frame = (resizeSubviewsWithOldSize surroundings { start with superview := superview }
      start.superview.frame.size).subview.frame := by
  obtain ⟨hn, hr⟩ := h.frame.resolve_left hne
  rw [← hfr] at hn
  have hft := h.fits
  rw [← hfr] at hft
  rw [hr, (hst.settled.resize hst hf hs hn hft).2]
  exact roundedFrame_congr h.superview hs hfr.symm

theorem Settled.notDrifted (h : Settled surroundings start state) (hs : Starts surroundings start)
    (hf : Follows surroundings start) : NotDrifted surroundings start state where
  resized := by
    by_cases hne : state = start
    · exact .inl hne
    · exact .inr (h.frame_of_ne hs hf hne h.superview rfl)
  single hfr := by
    have hne : state ≠ start := fun heq => hfr (heq ▸ rfl)
    obtain ⟨hn, -⟩ := h.frame.resolve_left hne
    have hc : start.superview.frame.origin ≠ state.superview.frame.origin ∨
        start.superview.frame.size ≠ nonNegative state.superview.frame.size := by
      rw [hn]
      by_contra hsm
      obtain ⟨ho, hsz⟩ := not_or.mp hsm
      exact hfr (Rect.ext (not_not.mp ho).symm (not_not.mp hsz).symm)
    rw [Autoresizing.setFrame, if_pos hc]
    refine h.frame_of_ne hs hf hne ⟨setFrame_boundsMatrix .., rfl, rfl⟩ ?_
    rw [setFrame_frame, hn]
  singleSize ho hsz := by
    have hne : state ≠ start := fun heq => hsz (heq ▸ rfl)
    obtain ⟨hn, -⟩ := h.frame.resolve_left hne
    rw [Autoresizing.setFrameSize, if_pos (by rw [hn]; exact hsz.symm)]
    refine h.frame_of_ne hs hf hne ⟨setFrameSize_boundsMatrix .., rfl, rfl⟩ ?_
    rw [setFrameSize_frame, hn, ← ho]
  restored hfr hexact := by
    obtain rfl | ⟨-, hr⟩ := h.frame
    · rfl
    · rw [hr, roundedFrame_congr h.superview ⟨rfl, rfl, rfl⟩ hfr, roundedFrame, autoresizedFrame_self hs.fits]
      split
      · rfl
      · rename_i hrt
        exact floorEdges_eq_self (hexact.resolve_left hrt) hs.width hs.height

theorem resizeSubviews_of_not_follows (hf : ¬ Follows surroundings start)
    (hrt : state.superview.isRotatedFromBase = start.superview.isRotatedFromBase) (oldSize : Size K) :
    resizeSubviewsWithOldSize surroundings state oldSize = state := by
  rw [resizeSubviewsWithOldSize]
  split
  · rfl
  · rename_i hon
    obtain ⟨hr, hu⟩ := not_or.mp hon
    rw [resizeWithOldSuperviewSize]
    split
    · rfl
    · rename_i hm
      refine absurd ⟨hm, Bool.not_eq_false _ ▸ hr, ?_⟩ hf
      rw [← hrt]
      exact Bool.not_eq_true _ ▸ hu

theorem perform_of_not_follows (hf : ¬ Follows surroundings start) (call : ResizeCall K)
    (hr : state.superview.isRotatedFromBase = start.superview.isRotatedFromBase) :
    (call.perform surroundings state).subview = state.subview ∧
      (call.perform surroundings state).superview.isRotatedFromBase = start.superview.isRotatedFromBase := by
  obtain heq | ⟨superview, hsm, -, heq⟩ := perform_cases surroundings call state
  · rw [heq]
    exact ⟨rfl, hr⟩
  · have hs := hsm.isRotatedFromBase.trans hr
    rw [heq, resizeSubviews_of_not_follows hf hs]
    exact ⟨rfl, hs⟩

theorem run_of_not_follows (hf : ¬ Follows surroundings start) (calls : List (ResizeCall K))
    (hrt : state.superview.isRotatedFromBase = start.superview.isRotatedFromBase) :
    (state.run surroundings calls).subview = state.subview ∧
      (state.run surroundings calls).superview.isRotatedFromBase = start.superview.isRotatedFromBase := by
  induction calls generalizing state with
  | nil => exact ⟨rfl, hrt⟩
  | cons call calls ih =>
    obtain ⟨hs, hrt⟩ := perform_of_not_follows hf call hrt
    obtain ⟨hr, hrt'⟩ := ih hrt
    exact ⟨hr.trans hs, hrt'⟩

theorem notDrifted_of_not_follows (hf : ¬ Follows surroundings start) (hs : state.subview = start.subview)
    (hr : state.superview.isRotatedFromBase = start.superview.isRotatedFromBase) :
    NotDrifted surroundings start state where
  resized := by
    have hst : resizeSubviewsWithOldSize surroundings { start with superview := state.superview }
        start.superview.frame.size = { start with superview := state.superview } :=
      resizeSubviews_of_not_follows hf (by exact hr) _
    rw [hst, hs]
    exact .inr rfl
  single _ := by
    rw [hs]
    exact congrArg (·.frame) (perform_of_not_follows hf (.setFrame state.superview.frame) rfl).1.symm
  singleSize _ _ := by
    rw [hs]
    exact congrArg (·.frame) (perform_of_not_follows hf (.setFrameSize state.superview.frame.size) rfl).1.symm
  restored _ _ := congrArg (·.frame) hs

end Autoresizing

open Autoresizing

/-- However many sizes lie between, the subview has the frame of a single resize. -/
theorem not_drifting {surroundings : Surroundings K} {start : Autoresizing K} (hstart : start.Starts surroundings)
    {calls : List (ResizeCall K)} (hfits : ∀ call ∈ calls,
      surroundings.autoresizingMask.Fits start.superview.frame.size start.subview.frame call.size) :
    NotDrifted surroundings start (start.run surroundings calls) := by
  by_cases hf : Follows surroundings start
  · exact (hstart.settled.run hstart hf hfits).notDrifted hstart hf
  · obtain ⟨hs, hr⟩ := run_of_not_follows hf calls (Eq.refl start.superview.isRotatedFromBase)
    exact notDrifted_of_not_follows hf hs hr

end Claim

def someSurroundings : Surroundings ℚ where
  autoresizesSubviews := true
  autoresizingMask := ⟨false, true, true, true, true, false⟩
  isFlipped := true
  above := some (false, .scaling 2 2)
  isRotatedAbove := false

def someSubview : Autoresizing ℚ where
  superview := newPlacement ⟨⟨0, 0⟩, ⟨100, 100⟩⟩
  subview := newPlacement ⟨⟨10, 10⟩, ⟨30, 30⟩⟩
  autoresizingFrameError := NSZeroRect

theorem not_drifting_somewhere : NotDrifted someSurroundings someSubview (someSubview.run someSurroundings
    [.setFrameSize ⟨77, 154⟩, .setFrame ⟨⟨3, 4⟩, ⟨200, 75⟩⟩, .setFrame ⟨⟨0, 0⟩, ⟨100, 100⟩⟩]) := by
  have hfr (frameRect : Rect ℚ) (h : Positive frameRect.size) : (newPlacement frameRect).frame = frameRect := by
    simp only [newPlacement, initWithFrame, nonNegative_of_positive h]
  have hsp : someSubview.superview.frame = ⟨⟨0, 0⟩, ⟨100, 100⟩⟩ := hfr _ ⟨by decide, by decide⟩
  have hs : someSubview.subview.frame = ⟨⟨10, 10⟩, ⟨30, 30⟩⟩ := hfr _ ⟨by decide, by decide⟩
  have hf {size : Size ℚ} (hw : 10 < size.width) (hh : 60 < size.height) :
      someSurroundings.autoresizingMask.Fits someSubview.superview.frame.size someSubview.subview.frame size := by
    rw [hsp, hs]
    constructor
    · right
      simp only [someSurroundings, AutoresizingMask.horizontal, Flexible.space, horizontalExtent]
      norm_num
      linarith
    · right
      simp only [someSurroundings, AutoresizingMask.vertical, Flexible.space, verticalExtent]
      norm_num
      linarith
  refine not_drifting ⟨rfl, ?_, ?_, hf ?_ ?_⟩ fun call hc => ?_
  · rw [hs]
    decide
  · rw [hs]
    decide
  · rw [hsp]
    decide
  · rw [hsp]
    decide
  · have hp {size : Size ℚ} (h : Positive size) : nonNegative size = size := nonNegative_of_positive h
    simp only [List.mem_cons, List.not_mem_nil, or_false] at hc
    obtain rfl | rfl | rfl := hc
    · rw [ResizeCall.size, hp ⟨by decide, by decide⟩]
      exact hf (by decide) (by decide)
    · rw [ResizeCall.size, hp ⟨by decide, by decide⟩]
      exact hf (by decide) (by decide)
    · rw [ResizeCall.size, hp ⟨by decide, by decide⟩]
      exact hf (by decide) (by decide)

end GnustepGui.NSView
