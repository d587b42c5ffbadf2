import GnustepGui.Library.LinkedCache
import GnustepGui.View.Bounds
import GnustepGui.View.Tree

/-!
# Coordinates of views

The matrices to and from the window and the visible rectangle, which every view caches with a mark that they
are valid. `isFlipped` of a view is constant. Autoresizing, display and cursor rectangles are left out: what
they do to the coordinates are further calls and queries. Every answer is as computed from scratch
(`coordinates_coherent`).
-/

namespace GnustepGui.NSView

open Plane Links

attribute [local instance] Numerals.two

variable {K : Type*} [Field K] [LinearOrder K]

/-! ## Rotation -/

/-- `rotateByDegrees:` prepends a rotation, and `rotationAngle` reads one off a transform. -/
structure Rotations (K : Type*) [Field K] where
  rotation : K → Affine K
  rotationAngle : Affine K → K
  det_rotation : ∀ angle, (rotation angle).det = 1

/-- `_frameMatrix` is made of rotations. -/
structure Placement (K : Type*) [Field K] extends Geometry K where
  isRotatedFromBase : Bool
  frameMatrix : Option (Affine K)
  det_frameMatrix : ∀ m ∈ frameMatrix, m.det = 1

def Rotations.scaleTo (rotations : Rotations K) (matrix : Affine K) (sx sy : K) : Affine K :=
  if matrix.m12 ≠ 0 ∨ matrix.m21 ≠ 0 then
    (NSView.scaleTo matrix sx sy).comp (rotations.rotation (rotations.rotationAngle matrix))
  else NSView.scaleTo matrix sx sy

namespace Placement

variable (rotations : Rotations K)

def setFrameRotation (view : Placement K) (angle : K) : Placement K :=
  let oldAngle :=
    match view.frameMatrix with
    | none => 0
    | some matrix => rotations.rotationAngle matrix
  { view with
    isRotatedFromBase := true
    isRotatedOrScaledFromBase := true
    frameMatrix := some ((view.frameMatrix.getD .one).comp (rotations.rotation (angle - oldAngle)))
    det_frameMatrix := by
      intro m hm
      obtain rfl := Option.some.inj hm
      rw [Affine.det_comp, rotations.det_rotation, mul_one]
      cases hmatrix : view.frameMatrix with
      | none => exact Affine.det_one
      | some matrix => exact view.det_frameMatrix matrix hmatrix }

def boundsRotation (view : Placement K) : K :=
  match view.boundsMatrix with
  | none => 0
  | some matrix => rotations.rotationAngle matrix

def rotateByAngle (view : Placement K) (angle : K) : Placement K :=
  let matrix := view.matrix.comp (rotations.rotation angle)
  { view with
    bounds := boundingRectFor matrix.invert ⟨⟨0, 0⟩, view.frame.size⟩
    boundsMatrix := some matrix
    isRotatedFromBase := true
    isRotatedOrScaledFromBase := true }

/-- `setBounds:` of a rotated view. -/
def setBoundsRotated (view : Placement K) (aRect : Rect K) : Placement K :=
  let size := nonNegative aRect.size
  let scale := computeScale view.frame.size size
  let scaled := rotations.scaleTo view.matrix scale.width scale.height
  let oldOrigin := scaled.invert.apply ⟨0, 0⟩
  let matrix := scaled.comp (.translation (oldOrigin.x - aRect.origin.x) (oldOrigin.y - aRect.origin.y))
  { view with
    bounds := boundingRectFor matrix.invert ⟨⟨0, 0⟩, view.frame.size⟩
    boundsMatrix := some matrix
    isRotatedOrScaledFromBase :=
      if scale.width ≠ 1 ∨ scale.height ≠ 1 then true else view.isRotatedOrScaledFromBase }

/-- `setBoundsSize:` of a rotated view. -/
def setBoundsSizeRotated (view : Placement K) (newSize : Size K) : Placement K :=
  let scale := computeScale view.frame.size (nonNegative newSize)
  let matrix := rotations.scaleTo view.matrix scale.width scale.height
  { view with
    bounds := boundingRectFor matrix.invert ⟨⟨0, 0⟩, view.frame.size⟩
    boundsMatrix := some matrix
    isRotatedOrScaledFromBase :=
      if scale.width ≠ 1 ∨ scale.height ≠ 1 then true else view.isRotatedOrScaledFromBase }

end Placement

inductive PlacementCall (K : Type*) where
  | unrotated (call : GeometryCall K)
  | setFrameRotation (angle : K)
  | setBoundsRotation (angle : K)
  | rotateByAngle (angle : K)

/-- What a call makes of the view, and `none` where the call finds that nothing changes. -/
def PlacementCall.perform (rotations : Rotations K) (view : Placement K) : PlacementCall K → Option (Placement K)
  | .unrotated (.setFrame frameRect) =>
    if view.frame.origin ≠ frameRect.origin ∨ view.frame.size ≠ nonNegative frameRect.size then
      some { view with toGeometry := view.setFrame frameRect }
    else none
  | .unrotated (.setFrameOrigin newOrigin) =>
    if view.frame.origin ≠ newOrigin then some { view with toGeometry := view.setFrameOrigin newOrigin } else none
  | .unrotated (.setFrameSize newSize) =>
    if view.frame.size ≠ nonNegative newSize then some { view with toGeometry := view.setFrameSize newSize }
    else none
  | .unrotated (.setBounds aRect) =>
    if view.isRotatedFromBase then some (view.setBoundsRotated rotations aRect)
    else if view.bounds ≠ ⟨aRect.origin, nonNegative aRect.size⟩ then
      some { view with toGeometry := view.setBounds aRect }
    else none
  | .unrotated (.setBoundsOrigin newOrigin) =>
    let oldOrigin :=
      match view.boundsMatrix with
      | none => view.bounds.origin
      | some matrix => matrix.invert.apply ⟨0, 0⟩
    if (⟨0, 0⟩ : Point K) ≠ ⟨oldOrigin.x - newOrigin.x, oldOrigin.y - newOrigin.y⟩ then
      some { view with toGeometry := view.setBoundsOrigin newOrigin }
    else none
  | .unrotated (.setBoundsSize newSize) =>
    if view.isRotatedFromBase then some (view.setBoundsSizeRotated rotations newSize)
    else some { view with toGeometry := view.setBoundsSize newSize }
  | .unrotated (.translateOriginToPoint point) =>
    if (⟨0, 0⟩ : Point K) ≠ point then some { view with toGeometry := view.translateOriginToPoint point } else none
  | .unrotated (.scaleUnitSquareToSize newSize) =>
    if newSize.width ≠ 1 ∨ newSize.height ≠ 1 then
      some { view with toGeometry := view.scaleUnitSquareToSize newSize }
    else none
  | .setFrameRotation angle =>
    let oldAngle :=
      match view.frameMatrix with
      | none => 0
      | some matrix => rotations.rotationAngle matrix
    if oldAngle ≠ angle then some (view.setFrameRotation rotations angle) else none
  | .setBoundsRotation angle =>
    if angle - view.boundsRotation rotations ≠ 0 then
      some (view.rotateByAngle rotations (angle - view.boundsRotation rotations))
    else none
  | .rotateByAngle angle => if angle ≠ 0 then some (view.rotateByAngle rotations angle) else none

/-! ## The cached coordinates -/

structure Coordinates (K : Type*) where
  flippedView : Bool
  matrixToWindow : Affine K
  matrixFromWindow : Affine K
  visibleRect : Rect K

structure Views (V W K : Type*) [Field K] where
  tree : LinkedForest V
  window : V → Option W
  isHidden : V → Bool
  placement : V → Placement K
  coordinates : LinkedCache V (Coordinates K)

def NSZeroRect : Rect K :=
  ⟨⟨0, 0⟩, ⟨0, 0⟩⟩

def NSIntersectionRect (a b : Rect K) : Rect K :=
  if a.origin.x + a.size.width ≤ b.origin.x ∨ b.origin.x + b.size.width ≤ a.origin.x ∨
      a.origin.y + a.size.height ≤ b.origin.y ∨ b.origin.y + b.size.height ≤ a.origin.y then
    NSZeroRect
  else
    let x := max a.origin.x b.origin.x
    let y := max a.origin.y b.origin.y
    ⟨⟨x, y⟩, ⟨min (a.origin.x + a.size.width) (b.origin.x + b.size.width) - x,
      min (a.origin.y + a.size.height) (b.origin.y + b.size.height) - y⟩⟩

/-- `convert_rect_using_matrices` -/
def convertRectUsingMatrices (aRect : Rect K) (matrix1 matrix2 : Affine K) : Rect K :=
  boundingRect (fun p => matrix2.apply (matrix1.apply p)) aRect

/-- The transform that overlays a view of this height with its flipped one. -/
def flip (height : K) : Affine K :=
  ⟨1, 0, 0, -1, 0, height⟩

/-- The matrix to the window of a view that is placed under `pMatrix`. -/
def prependPlacement (view : Placement K) (isFlipped superFlipped : Bool) (pMatrix : Affine K) : Affine K :=
  let ts :=
    { pMatrix with
      tX := view.frame.origin.x * pMatrix.m11 + view.frame.origin.y * pMatrix.m21 + pMatrix.tX
      tY := view.frame.origin.x * pMatrix.m12 + view.frame.origin.y * pMatrix.m22 + pMatrix.tY }
  let ts :=
    match view.frameMatrix with
    | none => ts
    | some frameMatrix => ts.comp frameMatrix
  let ts := if isFlipped ≠ superFlipped then ts.comp (flip view.frame.size.height) else ts
  match view.boundsMatrix with
  | none => ts
  | some boundsMatrix => ts.comp boundsMatrix

section Views

variable {V W : Type*} [Fintype V] [DecidableEq V] [DecidableEq W]

variable (rotations : Rotations K) (isFlipped : V → Bool)

namespace Views

def isHiddenOrHasHiddenAncestor (views : Views V W K) (view : V) : Bool :=
  views.tree.isMarked views.isHidden view

/-- What `_rebuildCoordinates` makes of a view, with its superview and the coordinates that this one has. -/
def rebuilt (views : Views V W K) (view : V) : Option (V × Coordinates K) → Coordinates K
  | none =>
    if views.window view = none then ⟨isFlipped view, .one, .one, (views.placement view).bounds⟩
    else
      let matrixToWindow := prependPlacement (views.placement view) (isFlipped view) false .one
      ⟨isFlipped view, matrixToWindow, matrixToWindow.invert, (views.placement view).bounds⟩
  | some (superview, super) =>
    let matrixToWindow :=
      prependPlacement (views.placement view) (isFlipped view) (isFlipped superview) super.matrixToWindow
    let superviewsVisibleRect :=
      if views.isHiddenOrHasHiddenAncestor superview then NSZeroRect else super.visibleRect
    ⟨isFlipped view, matrixToWindow, matrixToWindow.invert,
      NSIntersectionRect (convertRectUsingMatrices superviewsVisibleRect super.matrixToWindow matrixToWindow.invert)
        (views.placement view).bounds⟩

/-- `_rebuildCoordinates`, which has the superview rebuild its own first. -/
def rebuildCoordinates (views : Views V W K) (view : V) : Views V W K :=
  { views with
    coordinates :=
      views.tree.refresh (fun view coordinates => isFlipped view ≠ coordinates.flippedView)
        (views.rebuilt isFlipped) view views.coordinates }

def invalidateCoordinates (views : Views V W K) (view : V) : Views V W K :=
  { views with
    coordinates := { views.coordinates with valid := views.tree.assign false view views.coordinates.valid } }

/-! ## The calls -/

/-- A call on the frame, the bounds or the rotation of a view. -/
def place (views : Views V W K) (view : V) (call : PlacementCall K) : Views V W K :=
  match call.perform rotations (views.placement view) with
  | none => views
  | some placement =>
    invalidateCoordinates { views with placement := Function.update views.placement view placement } view

def viewWillMoveToWindow (views : Views V W K) (view : V) (newWindow : Option W) : Views V W K :=
  let views := views.invalidateCoordinates view
  { views with window := views.tree.assign newWindow view views.window }

def removeFromSuperview (views : Views V W K) (aView : V) : Views V W K :=
  match views.tree.parent aView with
  | none => views
  | some _ =>
    let views := views.viewWillMoveToWindow aView none
    { views with tree := views.tree.detach aView }

section

omit [LinearOrder K]

theorem removeFromSuperview_parent (views : Views V W K) (aView : V) :
    (views.removeFromSuperview aView).tree.parent aView = none := by
  unfold removeFromSuperview
  cases h : views.tree.parent aView with
  | none => exact h
  | some p => exact (congrFun (detach_parent aView) aView).trans (Function.update_self ..)

theorem below_of_below_removed {views : Views V W K} {aView a b : V}
    (h : (views.removeFromSuperview aView).tree.Below a b) : views.tree.Below a b := by
  unfold removeFromSuperview at h
  cases hp : views.tree.parent aView with
  | none =>
    rw [hp] at h
    exact h
  | some p =>
    rw [hp] at h
    exact below_of_below_detach h

theorem not_below_of_removed {views : Views V W K} {self aView : V}
    (h : isDescendantOf views.tree.toLinks self aView = some false) :
    ¬ (views.removeFromSuperview aView).tree.Below self aView := by
  obtain ⟨found, hf, hi⟩ := views.tree.isForest.isBelow_spec self aView
  obtain rfl := Option.some.inj (hf.symm.trans h)
  exact fun hb => Bool.false_ne_true (hi.mpr (below_of_below_removed hb))

end

/-- `addSubview:positioned:relativeTo:`, which raises where it would make a loop. -/
def addSubview (views : Views V W K) (self aView : V) (place : NSWindowOrderingMode) (otherView : Option V) :
    Views V W K :=
  match h : isDescendantOf views.tree.toLinks self aView with
  | some false =>
    if some aView = otherView then views
    else
      let removed := views.removeFromSuperview aView
      { removed.viewWillMoveToWindow aView (removed.window self) with
        tree := removed.tree.attach self aView (subviewIndex (removed.tree.children self) place otherView)
          (views.removeFromSuperview_parent aView) (not_below_of_removed h) (subviewIndex_le _ _ _) }
  | _ => views

def setHidden (views : Views V W K) (view : V) (flag : Bool) : Views V W K :=
  if views.isHidden view = flag then views
  else
    let views := { views with isHidden := Function.update views.isHidden view flag }
    if flag then views
    else (views.tree.children view).foldl invalidateCoordinates views

/-! ## The queries -/

def matrixToWindow (views : Views V W K) (view : V) : Affine K × Views V W K :=
  let views := views.rebuildCoordinates isFlipped view
  ((views.coordinates.value view).matrixToWindow, views)

def matrixFromWindow (views : Views V W K) (view : V) : Affine K × Views V W K :=
  let views := views.rebuildCoordinates isFlipped view
  ((views.coordinates.value view).matrixFromWindow, views)

def geometricVisibleRect (views : Views V W K) (view : V) : Rect K × Views V W K :=
  if views.isHiddenOrHasHiddenAncestor view then (NSZeroRect, views)
  else
    let views := if views.coordinates.valid view then views else views.rebuildCoordinates isFlipped view
    ((views.coordinates.value view).visibleRect, views)

/-- The largest finite `CGFloat`. -/
def CGFLOAT_MAX : K := (2 ^ 53 - 1) * 2 ^ 971

def visibleRect (views : Views V W K) (view : V) : Rect K × Views V W K :=
  if views.window view = none ∧ views.isHiddenOrHasHiddenAncestor view = false then
    (⟨⟨-CGFLOAT_MAX / 2, -CGFLOAT_MAX / 2⟩, ⟨CGFLOAT_MAX, CGFLOAT_MAX⟩⟩, views)
  else views.geometricVisibleRect isFlipped view

/-- `convertPoint:toView:`, which raises for a view in another window. -/
def convertPointToView (views : Views V W K) (self : V) (aPoint : Point K) (aView : Option V) :
    Option (Point K) × Views V W K :=
  if aView = some self then (some aPoint, views)
  else
    let (matrix, views) := views.matrixToWindow isFlipped self
    let inBase := matrix.apply aPoint
    match aView with
    | none => (some inBase, views)
    | some aView =>
      if views.window self = views.window aView then
        let (matrix, views) := views.matrixFromWindow isFlipped aView
        (some (matrix.apply inBase), views)
      else (none, views)

/-- `convertPoint:fromView:`, which raises for a view in another window. -/
def convertPointFromView (views : Views V W K) (self : V) (aPoint : Point K) (aView : Option V) :
    Option (Point K) × Views V W K :=
  if aView = some self then (some aPoint, views)
  else
    match aView with
    | none =>
      let (matrix, views) := views.matrixFromWindow isFlipped self
      (some (matrix.apply aPoint), views)
    | some aView =>
      if views.window self = views.window aView then
        let (matrix, views) := views.matrixToWindow isFlipped aView
        let inBase := matrix.apply aPoint
        let (matrix, views) := views.matrixFromWindow isFlipped self
        (some (matrix.apply inBase), views)
      else (none, views)

end Views

/-! ## Runs -/

inductive ViewsCall (V K : Type*) where
  | place (view : V) (call : PlacementCall K)
  | addSubview (self aView : V) (place : NSWindowOrderingMode) (otherView : Option V)
  | removeFromSuperview (aView : V)
  | setHidden (view : V) (flag : Bool)
  | matrixToWindow (view : V)
  | matrixFromWindow (view : V)
  | visibleRect (view : V)
  | convertPointToView (self : V) (aPoint : Point K) (aView : Option V)
  | convertPointFromView (self : V) (aPoint : Point K) (aView : Option V)

def ViewsCall.perform (views : Views V W K) : ViewsCall V K → Views V W K
  | place view call => views.place rotations view call
  | addSubview self aView mode otherView => views.addSubview self aView mode otherView
  | removeFromSuperview aView => views.removeFromSuperview aView
  | setHidden view flag => views.setHidden view flag
  | matrixToWindow view => (views.matrixToWindow isFlipped view).2
  | matrixFromWindow view => (views.matrixFromWindow isFlipped view).2
  | visibleRect view => (views.visibleRect isFlipped view).2
  | convertPointToView self aPoint aView => (views.convertPointToView isFlipped self aPoint aView).2
  | convertPointFromView self aPoint aView => (views.convertPointFromView isFlipped self aPoint aView).2

def Views.run (views : Views V W K) (calls : List (ViewsCall V K)) : Views V W K :=
  calls.foldl (ViewsCall.perform rotations isFlipped) views

end Views

/-! ## From scratch -/

section FromScratch

variable {V W : Type*} [Fintype V] (isFlipped : V → Bool)

/-- The matrix from a view to its superview. -/
def placementMatrix (view : Placement K) (isFlipped superFlipped : Bool) : Affine K :=
  (((Affine.translation view.frame.origin.x view.frame.origin.y).comp (view.frameMatrix.getD .one)).comp
    (if isFlipped ≠ superFlipped then flip view.frame.size.height else .one)).comp view.matrix

namespace Views

/-- The matrix to the window, from the window downwards. -/
def toWindow (views : Views V W K) : V → Affine K :=
  views.tree.computed fun
    | view, none =>
      if views.window view = none then .one else placementMatrix (views.placement view) (isFlipped view) false
    | view, some (superview, super) =>
      super.comp (placementMatrix (views.placement view) (isFlipped view) (isFlipped superview))

/-- The bounds of a view as far as they are within those of all views above. -/
def clipped (views : Views V W K) : V → Rect K :=
  views.tree.computed fun
    | view, none => (views.placement view).bounds
    | view, some (superview, super) =>
      NSIntersectionRect
        (convertRectUsingMatrices super (views.toWindow isFlipped superview) (views.toWindow isFlipped view).invert)
        (views.placement view).bounds

open Classical in
/-- The visible rectangle, which is empty within a hidden view. -/
noncomputable def visible (views : Views V W K) (view : V) : Rect K :=
  if ∃ ancestor, views.tree.Below view ancestor ∧ views.isHidden ancestor = true then NSZeroRect
  else views.clipped isFlipped view

/-- All scales of the view and of those above it are non-zero. -/
def Scaled (views : Views V W K) (view : V) : Prop :=
  ∀ ancestor, views.tree.Below view ancestor → (views.placement ancestor).matrix.det ≠ 0

end Views

/-! ## The invariant -/

namespace Views

/-- The coordinates are those computed from scratch, the visible rectangle at least where no view above is
hidden. -/
structure Good (views : Views V W K) (view : V) (x : Coordinates K) : Prop where
  toWindow : x.matrixToWindow = views.toWindow isFlipped view
  fromWindow : x.matrixFromWindow = (views.toWindow isFlipped view).invert
  visibleRect : (∀ superview, views.tree.parent view = some superview →
    views.isHiddenOrHasHiddenAncestor superview = false) → x.visibleRect = views.clipped isFlipped view

structure Sound (views : Views V W K) : Prop where
  window : ∀ view superview, views.tree.parent view = some superview → views.window view = views.window superview
  coordinates : views.tree.Holds (views.Good isFlipped) views.coordinates

variable {isFlipped} {views views' : Views V W K}

omit [LinearOrder K] in
theorem prependPlacement_eq (view : Placement K) (isFlipped superFlipped : Bool) (pMatrix : Affine K) :
    prependPlacement view isFlipped superFlipped pMatrix =
      pMatrix.comp (placementMatrix view isFlipped superFlipped) := by
  have ht : { pMatrix with
      tX := view.frame.origin.x * pMatrix.m11 + view.frame.origin.y * pMatrix.m21 + pMatrix.tX
      tY := view.frame.origin.x * pMatrix.m12 + view.frame.origin.y * pMatrix.m22 + pMatrix.tY } =
      pMatrix.comp (.translation view.frame.origin.x view.frame.origin.y) := by
    ext
    all_goals
      simp only [Affine.comp, Affine.translation]
      ring
  have hf (m : Affine K) : (match view.frameMatrix with
      | none => m
      | some frameMatrix => m.comp frameMatrix) = m.comp (view.frameMatrix.getD .one) := by
    cases view.frameMatrix with
    | none => exact m.comp_one.symm
    | some frameMatrix => rfl
  have hb (m : Affine K) : (match view.boundsMatrix with
      | none => m
      | some boundsMatrix => m.comp boundsMatrix) = m.comp view.matrix := by
    rw [Geometry.matrix]
    cases view.boundsMatrix with
    | none => exact m.comp_one.symm
    | some boundsMatrix => rfl
  have hfl (m : Affine K) : (if isFlipped ≠ superFlipped then m.comp (flip view.frame.size.height) else m) =
      m.comp (if isFlipped ≠ superFlipped then flip view.frame.size.height else .one) := by
    split
    · rfl
    · exact m.comp_one.symm
  rw [prependPlacement, ht, hf, hb, hfl, placementMatrix]
  simp only [Affine.comp_assoc]

variable {view : V}

omit [LinearOrder K] in
/-- Two states that agree on a view and on all above it have the same matrix and clipped bounds for it. -/
theorem toWindow_congr (hp : ∀ b, views.tree.Below view b → views'.tree.parent b = views.tree.parent b)
    (hw : ∀ b, views.tree.Below view b → views'.window b = views.window b)
    (hpl : ∀ b, views.tree.Below view b → views'.placement b = views.placement b) :
    views'.toWindow isFlipped view = views.toWindow isFlipped view := by
  refine LinkedForest.computed_congr hp (fun b hb => ?_) fun b p x hb _ => ?_
  · simp only [hw b hb, hpl b hb]
  · simp only [hpl b hb]

theorem clipped_congr (hpar : ∀ b, views.tree.Below view b → views'.tree.parent b = views.tree.parent b)
    (hw : ∀ b, views.tree.Below view b → views'.window b = views.window b)
    (hpl : ∀ b, views.tree.Below view b → views'.placement b = views.placement b) :
    views'.clipped isFlipped view = views.clipped isFlipped view := by
  have hm {b : V} (hb : views.tree.Below view b) : views'.toWindow isFlipped b = views.toWindow isFlipped b :=
    toWindow_congr (fun c hc => hpar c (hb.trans hc)) (fun c hc => hw c (hb.trans hc))
      fun c hc => hpl c (hb.trans hc)
  refine LinkedForest.computed_congr hpar (fun b hb => ?_) fun b p x hb hp => ?_
  · simp only [hpl b hb]
  · simp only [hpl b hb, hm hb, hm (hb.tail hp)]

variable {x : Coordinates K}

theorem Good.congr {view changed : V} (h : views.Good isFlipped view x) (hv : ¬ views.tree.Below view changed)
    (hpar : ∀ b, ¬ views.tree.Below b changed → views'.tree.parent b = views.tree.parent b)
    (hw : ∀ b, ¬ views.tree.Below b changed → views'.window b = views.window b)
    (hpl : ∀ b, ¬ views.tree.Below b changed → views'.placement b = views.placement b)
    (hh : views'.isHidden = views.isHidden) : views'.Good isFlipped view x := by
  have ha {b : V} (hb : views.tree.Below view b) : ¬ views.tree.Below b changed := fun h => hv (hb.trans h)
  have hm : views'.toWindow isFlipped view = views.toWindow isFlipped view :=
    toWindow_congr (fun b hb => hpar b (ha hb)) (fun b hb => hw b (ha hb))
      fun b hb => hpl b (ha hb)
  refine ⟨h.toWindow.trans hm.symm, h.fromWindow.trans (congrArg Affine.invert hm.symm), fun hs => ?_⟩
  rw [h.visibleRect]
  · exact (clipped_congr (fun b hb => hpar b (ha hb)) (fun b hb => hw b (ha hb)) fun b hb => hpl b (ha hb)).symm
  · intro superview hp
    rw [← hs superview ((hpar view hv).trans hp)]
    refine (LinkedForest.isMarked_congr (fun b hb => hpar b (ha (hb.head hp))) fun b _ => ?_).symm
    rw [hh]

omit [LinearOrder K] in
theorem hidden_of_superview_hidden {view superview : V} (h : views.tree.parent view = some superview)
    (hv : views.isHiddenOrHasHiddenAncestor view = false) : views.isHiddenOrHasHiddenAncestor superview = false := by
  rw [Bool.eq_false_iff, isHiddenOrHasHiddenAncestor, ne_eq, LinkedForest.isMarked_iff]
  rintro ⟨b, hblw, hb⟩
  refine Bool.eq_false_iff.mp hv ?_
  rw [isHiddenOrHasHiddenAncestor, LinkedForest.isMarked_iff]
  exact ⟨b, hblw.head h, hb⟩

theorem good_rebuilt_root (h : views.tree.parent view = none) :
    views.Good isFlipped view (views.rebuilt isFlipped view none) := by
  have hm : views.toWindow isFlipped view =
      if views.window view = none then .one else placementMatrix (views.placement view) (isFlipped view) false :=
    LinkedForest.computed_of_parent_eq_none h
  have hc : views.clipped isFlipped view = (views.placement view).bounds := LinkedForest.computed_of_parent_eq_none h
  rw [rebuilt]
  split
  · rename_i hw
    have ho : views.toWindow isFlipped view = .one := by rw [hm, if_pos hw]
    exact ⟨ho.symm, by rw [ho, Affine.invert_one], fun _ => hc.symm⟩
  · rename_i hw
    have hp : prependPlacement (views.placement view) (isFlipped view) false .one = views.toWindow isFlipped view := by
      rw [prependPlacement_eq, Affine.one_comp, hm, if_neg hw]
    exact ⟨hp, congrArg Affine.invert hp, fun _ => hc.symm⟩

theorem good_rebuilt_sub {view superview : V} (h : views.tree.parent view = some superview)
    (hx : views.Good isFlipped superview x) :
    views.Good isFlipped view (views.rebuilt isFlipped view (some (superview, x))) := by
  have hm : views.toWindow isFlipped view = (views.toWindow isFlipped superview).comp
      (placementMatrix (views.placement view) (isFlipped view) (isFlipped superview)) :=
    LinkedForest.computed_of_parent_eq_some h
  have hc : views.clipped isFlipped view = NSIntersectionRect
      (convertRectUsingMatrices (views.clipped isFlipped superview) (views.toWindow isFlipped superview)
        (views.toWindow isFlipped view).invert) (views.placement view).bounds :=
    LinkedForest.computed_of_parent_eq_some h
  have hpl : prependPlacement (views.placement view) (isFlipped view) (isFlipped superview) x.matrixToWindow =
      views.toWindow isFlipped view := by
    rw [prependPlacement_eq, hx.toWindow, hm]
  refine ⟨hpl, congrArg Affine.invert hpl, fun hs => ?_⟩
  have hn := hs superview h
  rw [hc, ← hx.visibleRect fun _ hp => hidden_of_superview_hidden hp hn, ← hpl, ← hx.toWindow]
  simp only [rebuilt, hn, Bool.false_eq_true, if_false]

theorem Good.withCoordinates (h : views.Good isFlipped view x)
    (coordinates : LinkedCache V (Coordinates K)) :
    ({ views with coordinates := coordinates } : Views V W K).Good isFlipped view x :=
  ⟨h.toWindow, h.fromWindow, h.visibleRect⟩

/-! ## The calls keep it -/

variable [DecidableEq V] [DecidableEq W]

omit [DecidableEq W] in
theorem Sound.rebuildCoordinates (h : views.Sound isFlipped) (view : V) :
    (views.rebuildCoordinates isFlipped view).Sound isFlipped ∧
      views.Good isFlipped view ((views.rebuildCoordinates isFlipped view).coordinates.value view) := by
  have hr : views.tree.Holds (views.Good isFlipped) (views.rebuildCoordinates isFlipped view).coordinates ∧
      (views.rebuildCoordinates isFlipped view).coordinates.valid view = true :=
    h.coordinates.refresh (fun _ => good_rebuilt_root) (fun _ _ _ => good_rebuilt_sub) view
  obtain ⟨hh, hv⟩ := hr
  refine ⟨⟨h.window, fun b hb => ?_⟩, (hh view hv).1⟩
  obtain ⟨hx, hp⟩ := hh b hb
  exact ⟨hx.withCoordinates _, hp⟩

omit [DecidableEq W] in
theorem Sound.place (h : views.Sound isFlipped) (rotations : Rotations K) (view : V) (call : PlacementCall K) :
    (views.place rotations view call).Sound isFlipped := by
  unfold Views.place
  cases call.perform rotations (views.placement view) with
  | none => exact h
  | some placement =>
    refine ⟨h.window, h.coordinates.assign view (fun _ _ => rfl) fun b x hb hx => ?_⟩
    refine hx.congr hb (fun _ _ => rfl) (fun _ _ => rfl) (fun c hc => ?_) rfl
    refine Function.update_of_ne ?_ ..
    rintro rfl
    exact hc (.refl c)

theorem Sound.assign_window (h : views.Sound isFlipped) (view : V) (newWindow : Option W) :
    views.tree.assign newWindow view views.window = views.tree.marked newWindow view views.window :=
  LinkedForest.assign_eq fun b p hup _ hp => (h.window b p hup).trans hp

omit [LinearOrder K] [DecidableEq W] [DecidableEq V] [Fintype V] in
theorem window_marked (hw : ∀ view superview, views.tree.parent view = some superview →
    views.window view = views.window superview) {aView b q : V} (hup : views.tree.parent b = some q) (hb : b ≠ aView)
    (newWindow : Option W) :
    views.tree.marked newWindow aView views.window b = views.tree.marked newWindow aView views.window q := by
  by_cases hblw : views.tree.Below q aView
  · exact (LinkedForest.marked_of_below (hblw.head hup)).trans (LinkedForest.marked_of_below hblw).symm
  · have hn : ¬ views.tree.Below b aView := by
      rw [below_iff_of_parent_eq_some hup]
      exact not_or.mpr ⟨hb.symm, hblw⟩
    exact (LinkedForest.marked_of_not_below hn).trans
      ((hw b q hup).trans (LinkedForest.marked_of_not_below hblw).symm)

theorem Sound.removeFromSuperview (h : views.Sound isFlipped) (aView : V) :
    (views.removeFromSuperview aView).Sound isFlipped := by
  unfold Views.removeFromSuperview
  cases hp : views.tree.parent aView with
  | none => exact h
  | some p =>
    have hother {b : V} (hb : b ≠ aView) : (views.tree.detach aView).parent b = views.tree.parent b :=
      (congrFun (detach_parent aView) b).trans (Function.update_of_ne hb ..)
    have hne {b : V} (hb : ¬ views.tree.Below b aView) : b ≠ aView := by
      rintro rfl
      exact hb (.refl b)
    dsimp only [Views.viewWillMoveToWindow, Views.invalidateCoordinates]
    rw [h.assign_window aView none]
    refine ⟨fun b q hq => ?_, h.coordinates.assign aView (fun b hb => hother (hne hb)) fun b x hb hx => ?_⟩
    · have hb : b ≠ aView := by
        rintro rfl
        have hn : (views.tree.detach b).parent b = none :=
          (congrFun (detach_parent b) b).trans (Function.update_self ..)
        exact nomatch hn.symm.trans hq
      exact window_marked h.window ((hother hb).symm.trans hq) hb none
    · exact hx.congr hb (fun c hc => hother (hne hc)) (fun c hc => LinkedForest.marked_of_not_below hc)
        (fun _ _ => rfl) rfl

variable {self aView : V}

theorem Sound.attach (h : views.Sound isFlipped) {i : Nat} (hn : views.tree.parent aView = none)
    (hl : ¬ views.tree.Below self aView) (hi : i ≤ (views.tree.children self).length) :
    ({ views.viewWillMoveToWindow aView (views.window self) with
      tree := views.tree.attach self aView i hn hl hi } : Views V W K).Sound isFlipped := by
  have hs : (views.tree.attach self aView i hn hl hi).parent aView = some self := attach_parent_self
  have hother {b : V} (hb : b ≠ aView) : (views.tree.attach self aView i hn hl hi).parent b = views.tree.parent b :=
    attach_parent_of_ne hb
  have hne {b : V} (hb : ¬ views.tree.Below b aView) : b ≠ aView := by
    rintro rfl
    exact hb (.refl b)
  dsimp only [Views.viewWillMoveToWindow, Views.invalidateCoordinates]
  rw [h.assign_window aView]
  refine ⟨fun b q hq => ?_, h.coordinates.assign aView (fun b hb => hother (hne hb)) fun b x hb hx => ?_⟩
  · by_cases hb : b = aView
    · subst hb
      obtain rfl := Option.some.inj (hs.symm.trans hq)
      exact (LinkedForest.marked_of_below (.refl b)).trans (LinkedForest.marked_of_not_below hl).symm
    · exact window_marked h.window ((hother hb).symm.trans hq) hb (views.window self)
  · exact hx.congr hb (fun c hc => hother (hne hc)) (fun c hc => LinkedForest.marked_of_not_below hc)
      (fun _ _ => rfl) rfl

theorem Sound.addSubview (h : views.Sound isFlipped) (self aView : V) (place : NSWindowOrderingMode)
    (otherView : Option V) : (views.addSubview self aView place otherView).Sound isFlipped := by
  unfold Views.addSubview
  split
  · split
    · exact h
    · exact (h.removeFromSuperview aView).attach _ _ _
  · exact h

omit [LinearOrder K] [DecidableEq W] in
theorem foldl_invalidateCoordinates (l : List V) (views : Views V W K) :
    l.foldl Views.invalidateCoordinates views =
      { views with
        coordinates := { views.coordinates with
          valid := l.foldl (fun valid b => views.tree.assign false b valid) views.coordinates.valid } } := by
  induction l generalizing views with
  | nil => rfl
  | cons b l ih => exact ih _

omit [DecidableEq W] in
theorem Sound.setHidden (h : views.Sound isFlipped) (view : V) (flag : Bool) :
    (views.setHidden view flag).Sound isFlipped := by
  unfold Views.setHidden
  split
  · exact h
  · rename_i hch
    cases flag with
    | true =>
      refine ⟨h.window, fun b hb => ?_⟩
      obtain ⟨hx, hp⟩ := h.coordinates b hb
      refine ⟨⟨hx.toWindow, hx.fromWindow, fun hs => hx.visibleRect fun p hup => ?_⟩, hp⟩
      rw [Bool.eq_false_iff]
      intro hh
      refine Bool.eq_false_iff.mp (hs p hup) ?_
      obtain ⟨c, hblw, hc⟩ := (LinkedForest.isMarked_iff _ _).mp hh
      refine (LinkedForest.isMarked_iff _ _).mpr ⟨c, hblw, ?_⟩
      by_cases hcv : c = view
      · subst hcv
        exact Function.update_self ..
      · exact (Function.update_of_ne hcv ..).trans hc
    | false =>
      dsimp only
      rw [if_neg Bool.false_ne_true, foldl_invalidateCoordinates]
      refine ⟨h.window, h.coordinates.assignChildren view fun b x hb hx => ?_⟩
      refine ⟨hx.toWindow, hx.fromWindow, fun hs => hx.visibleRect fun p hup => ?_⟩
      rw [← hs p hup]
      refine (LinkedForest.isMarked_congr (fun _ _ => rfl) fun c hc => ?_).symm
      refine Function.update_of_ne ?_ ..
      rintro rfl
      exact hb p hup hc

/-! ## The queries -/

omit [DecidableEq W] in
theorem Sound.geometricVisibleRect (h : views.Sound isFlipped) (view : V) :
    (views.geometricVisibleRect isFlipped view).2.Sound isFlipped ∧
      (views.geometricVisibleRect isFlipped view).1 = views.visible isFlipped view := by
  unfold Views.geometricVisibleRect
  rw [visible]
  split
  · rename_i hh
    exact ⟨h, (if_pos ((LinkedForest.isMarked_iff _ _).mp hh)).symm⟩
  · rename_i hh
    have hs (superview : V) (hp : views.tree.parent view = some superview) :=
      hidden_of_superview_hidden hp (Bool.eq_false_iff.mpr hh)
    rw [if_neg fun hexists => hh ((LinkedForest.isMarked_iff _ _).mpr hexists)]
    dsimp only
    split
    · rename_i hv
      exact ⟨h, (h.coordinates view hv).1.visibleRect hs⟩
    · exact ⟨(h.rebuildCoordinates view).1, (h.rebuildCoordinates view).2.visibleRect hs⟩

theorem Sound.perform (h : views.Sound isFlipped) (rotations : Rotations K) (call : ViewsCall V K) :
    (call.perform rotations isFlipped views).Sound isFlipped := by
  cases call with
  | place view call => exact h.place rotations view call
  | addSubview self aView place otherView => exact h.addSubview self aView place otherView
  | removeFromSuperview aView => exact h.removeFromSuperview aView
  | setHidden view flag => exact h.setHidden view flag
  | matrixToWindow view => exact (h.rebuildCoordinates view).1
  | matrixFromWindow view => exact (h.rebuildCoordinates view).1
  | visibleRect view =>
    simp only [ViewsCall.perform, Views.visibleRect]
    split
    · exact h
    · exact (h.geometricVisibleRect view).1
  | convertPointToView self aPoint aView =>
    simp only [ViewsCall.perform, Views.convertPointToView]
    split
    · exact h
    · cases aView with
      | none => exact (h.rebuildCoordinates self).1
      | some aView =>
        dsimp only
        split
        · exact ((h.rebuildCoordinates self).1.rebuildCoordinates aView).1
        · exact (h.rebuildCoordinates self).1
  | convertPointFromView self aPoint aView =>
    simp only [ViewsCall.perform, Views.convertPointFromView]
    split
    · exact h
    · cases aView with
      | none => exact (h.rebuildCoordinates self).1
      | some aView =>
        dsimp only
        split
        · exact ((h.rebuildCoordinates aView).1.rebuildCoordinates self).1
        · exact h

theorem Sound.run (h : views.Sound isFlipped) (rotations : Rotations K) (calls : List (ViewsCall V K)) :
    (views.run rotations isFlipped calls).Sound isFlipped := by
  induction calls generalizing views with
  | nil => exact h
  | cons call calls ih => exact ih (h.perform rotations call)

/-! ## What is claimed -/

/-- The queries answer with what is computed from scratch, and points that are converted go back. -/
structure Coherent (isFlipped : V → Bool) (views : Views V W K) : Prop where
  matrixToWindow : ∀ view, (views.matrixToWindow isFlipped view).1 = views.toWindow isFlipped view
  matrixFromWindow : ∀ view, (views.matrixFromWindow isFlipped view).1 = (views.toWindow isFlipped view).invert
  geometricVisibleRect : ∀ view, (views.geometricVisibleRect isFlipped view).1 = views.visible isFlipped view
  visibleRect : ∀ view, views.window view ≠ none →
    (views.visibleRect isFlipped view).1 = views.visible isFlipped view
  inverse : ∀ view, views.Scaled view → ∀ p,
    (views.matrixFromWindow isFlipped view).1.apply ((views.matrixToWindow isFlipped view).1.apply p) = p ∧
      (views.matrixToWindow isFlipped view).1.apply ((views.matrixFromWindow isFlipped view).1.apply p) = p
  convertPoint : ∀ self aView p, views.window self = views.window aView → views.Scaled self → views.Scaled aView →
    ∃ q views', views.convertPointToView isFlipped self p (some aView) = (some q, views') ∧
      (views'.convertPointToView isFlipped aView q (some self)).1 = some p ∧
      (views'.convertPointFromView isFlipped self q (some aView)).1 = some p

omit [LinearOrder K] in
theorem det_placementMatrix (view : Placement K) (isFlipped superFlipped : Bool) (h : view.matrix.det ≠ 0) :
    (placementMatrix view isFlipped superFlipped).det ≠ 0 := by
  have hf : (view.frameMatrix.getD .one).det = 1 := by
    cases hm : view.frameMatrix with
    | none => exact Affine.det_one
    | some matrix => exact view.det_frameMatrix matrix hm
  rw [placementMatrix, Affine.det_comp, Affine.det_comp, Affine.det_comp, Affine.det_translation, hf, one_mul, one_mul]
  refine mul_ne_zero ?_ h
  split
  · simp [flip, Affine.det]
  · simp

variable (isFlipped) in
omit [LinearOrder K] [DecidableEq V] [DecidableEq W] in
theorem det_toWindow (h : views.Scaled view) : (views.toWindow isFlipped view).det ≠ 0 := by
  induction view using views.tree.wellFounded_up.induction with
  | _ view ih =>
    cases hp : views.tree.parent view with
    | none =>
      have hm : views.toWindow isFlipped view =
          if views.window view = none then .one else placementMatrix (views.placement view) (isFlipped view) false :=
        LinkedForest.computed_of_parent_eq_none hp
      rw [hm]
      split
      · simp
      · exact det_placementMatrix _ _ _ (h view (.refl view))
    | some superview =>
      have hm : views.toWindow isFlipped view = (views.toWindow isFlipped superview).comp
          (placementMatrix (views.placement view) (isFlipped view) (isFlipped superview)) :=
        LinkedForest.computed_of_parent_eq_some hp
      rw [hm, Affine.det_comp]
      exact mul_ne_zero (ih superview hp fun b hb => h b (hb.head hp))
        (det_placementMatrix _ _ _ (h view (.refl view)))

omit [DecidableEq W] in
theorem Sound.matrixToWindow (h : views.Sound isFlipped) (view : V) :
    (views.matrixToWindow isFlipped view).1 = views.toWindow isFlipped view := (h.rebuildCoordinates view).2.toWindow

omit [DecidableEq W] in
theorem Sound.matrixFromWindow (h : views.Sound isFlipped) (view : V) :
    (views.matrixFromWindow isFlipped view).1 = (views.toWindow isFlipped view).invert :=
  (h.rebuildCoordinates view).2.fromWindow

theorem Sound.convertPointToView (h : views.Sound isFlipped) (hne : self ≠ aView)
    (hw : views.window self = views.window aView) (p : Point K) :
    views.convertPointToView isFlipped self p (some aView) =
      (some ((views.toWindow isFlipped aView).invert.apply ((views.toWindow isFlipped self).apply p)),
        (views.rebuildCoordinates isFlipped self).rebuildCoordinates isFlipped aView) := by
  have hs := h.matrixToWindow self
  have ha : ((views.rebuildCoordinates isFlipped self).matrixFromWindow isFlipped aView).1 =
      (views.toWindow isFlipped aView).invert := (h.rebuildCoordinates self).1.matrixFromWindow aView
  have hw' : (views.rebuildCoordinates isFlipped self).window self =
      (views.rebuildCoordinates isFlipped self).window aView := hw
  rw [Views.convertPointToView, if_neg fun heq => hne (Option.some.inj heq).symm, ← hs, ← ha]
  exact if_pos hw'

theorem Sound.convertPointFromView (h : views.Sound isFlipped) (hne : self ≠ aView)
    (hw : views.window self = views.window aView) (p : Point K) :
    (views.convertPointFromView isFlipped self p (some aView)).1 =
      some ((views.toWindow isFlipped self).invert.apply ((views.toWindow isFlipped aView).apply p)) := by
  have ha := h.matrixToWindow aView
  have hs : ((views.rebuildCoordinates isFlipped aView).matrixFromWindow isFlipped self).1 =
      (views.toWindow isFlipped self).invert := (h.rebuildCoordinates aView).1.matrixFromWindow self
  rw [Views.convertPointFromView, if_neg fun heq => hne (Option.some.inj heq).symm, ← ha, ← hs]
  dsimp only
  rw [if_pos hw]
  rfl

theorem Sound.coherent (h : views.Sound isFlipped) : views.Coherent isFlipped where
  matrixToWindow := h.matrixToWindow
  matrixFromWindow := h.matrixFromWindow
  geometricVisibleRect view := (h.geometricVisibleRect view).2
  visibleRect view hw := by
    rw [Views.visibleRect, if_neg fun hn => hw hn.1]
    exact (h.geometricVisibleRect view).2
  inverse view hscl p := by
    have hd := det_toWindow isFlipped hscl
    rw [h.matrixToWindow, h.matrixFromWindow]
    exact ⟨Affine.invert_apply hd p, Affine.apply_invert hd p⟩
  convertPoint self aView p hw hsl ha := by
    by_cases hne : self = aView
    · subst hne
      have hst : views.convertPointToView isFlipped self p (some self) = (some p, views) := if_pos rfl
      exact ⟨p, views, hst, congrArg Prod.fst hst, congrArg Prod.fst (if_pos rfl)⟩
    · have hs := ((h.rebuildCoordinates self).1.rebuildCoordinates aView).1
      have hb : (views.toWindow isFlipped self).invert.apply ((views.toWindow isFlipped aView).apply
          ((views.toWindow isFlipped aView).invert.apply ((views.toWindow isFlipped self).apply p))) = p := by
        rw [Affine.apply_invert (det_toWindow isFlipped ha), Affine.invert_apply (det_toWindow isFlipped hsl)]
      refine ⟨_, _, h.convertPointToView hne hw p, ?_, ?_⟩
      · rw [hs.convertPointToView (Ne.symm hne) hw.symm]
        exact congrArg some hb
      · rw [hs.convertPointFromView hne hw]
        exact congrArg some hb

/-- Views with their windows, and without coordinates yet. -/
structure Fresh (views : Views V W K) : Prop where
  window : ∀ view superview, views.tree.parent view = some superview → views.window view = views.window superview
  valid : ∀ view, views.coordinates.valid view = false

omit [DecidableEq V] [DecidableEq W] in
theorem Fresh.sound (h : views.Fresh) : views.Sound isFlipped :=
  ⟨h.window, fun view hv => nomatch (h.valid view).symm.trans hv⟩

/-- After any calls and queries, the queries answer with what is computed from scratch. -/
theorem coordinates_coherent (isFlipped : V → Bool) (h : views.Fresh) (rotations : Rotations K)
    (calls : List (ViewsCall V K)) : (views.run rotations isFlipped calls).Coherent isFlipped :=
  (h.sound.run rotations calls).coherent

end Views

end FromScratch

/-! ## Two views -/

def noViews (V : Type*) : LinkedForest V :=
  ⟨noLinks V, noLinks_isForest V⟩

def newPlacement (frameRect : Rect K) : Placement K where
  toGeometry := initWithFrame frameRect
  isRotatedFromBase := false
  frameMatrix := none
  det_frameMatrix := by simp

def twoViews : Views (Fin 2) Unit ℚ where
  tree := noViews (Fin 2)
  window view := if view = 0 then some () else none
  isHidden _ := false
  placement view := newPlacement (if view = 0 then ⟨⟨0, 0⟩, ⟨100, 50⟩⟩ else ⟨⟨10, 20⟩, ⟨30, 20⟩⟩)
  coordinates := ⟨fun _ => false, fun _ => ⟨false, .one, .one, NSZeroRect⟩⟩

/-- Rotations by nothing and by a quarter turn. -/
def quarterTurn : Rotations ℚ where
  rotation angle := if angle = 90 then ⟨0, 1, -1, 0, 0, 0⟩ else .one
  rotationAngle matrix := if matrix.m21 = 0 then 0 else 90
  det_rotation angle := by
    split
    · simp [Affine.det]
    · simp

theorem coordinates_coherent_twoViews :
    (twoViews.run quarterTurn (fun view => decide (view = 0))
      [.addSubview 0 1 .above none, .matrixToWindow 1, .setHidden 0 true, .visibleRect 1, .setHidden 0 false,
        .place 1 (.rotateByAngle 90), .visibleRect 1]).Coherent (fun view => decide (view = 0)) :=
  Views.coordinates_coherent _ ⟨fun _ superview (h : none = some superview) => (nomatch h), fun _ => rfl⟩ _ _

end GnustepGui.NSView
