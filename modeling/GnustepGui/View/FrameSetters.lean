import GnustepGui.View.Autoresizing

/-!
# The setters of the frame

`setFrame:` against `setFrameOrigin:` followed by `setFrameSize:`, on a view with all the views below it. They differ
where the bounds of a rotated view without a bounds transform are scaled by one of them only, and where only the
origin changes: then one of them aligns the subviews anew (`settersAgree_iff`).
-/

namespace GnustepGui.NSView

open Plane

/-- What the setters of the frame read and change of a view. -/
structure Framed (K : Type*) [Field K] where
  placement : Placement K
  autoresizingFrameError : Rect K
  autoresizesSubviews : Bool
  autoresizingMask : AutoresizingMask
  isFlipped : Bool

inductive Subtree (K : Type*) [Field K] where
  | node (view : Framed K) (subviews : List (Subtree K))

/-- What a view stands in: the flip of its superview and the matrix of that to the window, where there is one, and
whether anything above is rotated. -/
structure Above (K : Type*) where
  superview : Option (Bool × Affine K)
  isRotatedFromBase : Bool

section Setters

variable {K : Type*} [Field K] [LinearOrder K]

namespace Framed

/-- The matrix to the window, which is the identity for a view without a superview and a window. -/
def matrixToWindow (view : Framed K) (above : Above K) : Affine K :=
  match above.superview with
  | none => .one
  | some (superFlipped, pMatrix) => prependPlacement view.placement view.isFlipped superFlipped pMatrix

/-- What its subviews stand in. -/
def below (view : Framed K) (above : Above K) : Above K :=
  ⟨some (view.isFlipped, view.matrixToWindow above), above.isRotatedFromBase || view.placement.isRotatedFromBase⟩

/-- The frame without the error of its rounding. -/
def exactFrame (view : Framed K) : Rect K :=
  if view.autoresizingFrameError ≠ NSZeroRect then rectDifference view.placement.frame view.autoresizingFrameError
  else view.placement.frame

/-- The new geometry, and no error. -/
def withGeometry (view : Framed K) (geometry : Geometry K) : Framed K :=
  { view with
    placement := { view.placement with toGeometry := geometry }
    autoresizingFrameError := NSZeroRect }

/-- `resizeSubviewsWithOldSize:` leaves the subviews as they are. -/
abbrev LeavesSubviews (view : Framed K) : Prop :=
  view.autoresizesSubviews = false ∨ view.placement.isRotatedFromBase = true

variable [IsStrictOrderedRing K] [FloorRing K]

/-- `newFrameRounded`, for a frame `newFrame`. -/
def rounded (view : Framed K) (above : Above K) (newFrame : Rect K) : Rect K :=
  if (view.placement.isRotatedFromBase || above.isRotatedFromBase) = true then newFrame
  else floorEdges ((above.superview.map Prod.snd).getD .one) newFrame

/-- `newFrame` -/
def autoresized (view : Framed K) (oldSize newSize : Size K) : Rect K :=
  autoresizedFrame view.autoresizingMask oldSize newSize view.exactFrame

end Framed

namespace Subtree

def view : Subtree K → Framed K
  | node view _ => view

def subviews : Subtree K → List (Subtree K)
  | node _ subviews => subviews

def withError (error : Rect K) : Subtree K → Subtree K
  | node view subviews => node { view with autoresizingFrameError := error } subviews

variable [IsStrictOrderedRing K] [FloorRing K]

mutual

def setFrame (above : Above K) (frameRect : Rect K) : Subtree K → Subtree K
  | node view subviews =>
    if view.placement.frame.origin ≠ frameRect.origin ∨ view.placement.frame.size ≠ nonNegative frameRect.size then
      let view' := view.withGeometry (view.placement.setFrame frameRect)
      node view'
        (if view'.LeavesSubviews then subviews
        else resizeSubviews (view'.below above) view.placement.frame.size view'.placement.frame.size subviews)
    else node view subviews

/-- `resizeWithOldSuperviewSize:` of each subview. -/
def resizeSubviews (above : Above K) (oldSize newSize : Size K) : List (Subtree K) → List (Subtree K)
  | [] => []
  | sub :: subs =>
    (if sub.view.autoresizingMask = .notSizable then sub
    else
      let newFrame := sub.view.autoresized oldSize newSize
      let newFrameRounded := sub.view.rounded above newFrame
      (setFrame above newFrameRounded sub).withError (rectDifference newFrameRounded newFrame)) ::
      resizeSubviews above oldSize newSize subs

end

def setFrameOrigin (newOrigin : Point K) : Subtree K → Subtree K
  | node view subviews =>
    if view.placement.frame.origin ≠ newOrigin then
      node (view.withGeometry (view.placement.setFrameOrigin newOrigin)) subviews
    else node view subviews

def setFrameSize (above : Above K) (newSize : Size K) : Subtree K → Subtree K
  | node view subviews =>
    if view.placement.frame.size ≠ nonNegative newSize then
      let view' := view.withGeometry (view.placement.setFrameSize newSize)
      node view'
        (if view'.LeavesSubviews then subviews
        else resizeSubviews (view'.below above) view.placement.frame.size view'.placement.frame.size subviews)
    else node view subviews

mutual

/-- The frames of a view and of all views below it. -/
def frames : Subtree K → List (Rect K)
  | node view subviews => view.placement.frame :: framesOf subviews

def framesOf : List (Subtree K) → List (Rect K)
  | [] => []
  | sub :: subs => frames sub ++ framesOf subs

end

omit [LinearOrder K] [IsStrictOrderedRing K] [FloorRing K] in
theorem frames_withError (error : Rect K) (tree : Subtree K) : frames (tree.withError error) = frames tree := by
  cases tree
  rfl

end Subtree

/-! ## What is claimed, and where it holds -/

variable [IsStrictOrderedRing K] [FloorRing K]

/-- The same frame and bounds, and the same frames below. -/
def SettersAgree (above : Above K) (tree : Subtree K) (frameRect : Rect K) : Prop :=
  let once := tree.setFrame above frameRect
  let twice := (tree.setFrameOrigin frameRect.origin).setFrameSize above frameRect.size
  once.view.placement.frame = twice.view.placement.frame ∧
    once.view.placement.bounds = twice.view.placement.bounds ∧
    Subtree.framesOf once.subviews = Subtree.framesOf twice.subviews

/-- Scaling a length of the bounds with that of the frame changes nothing. -/
def LengthKept (frame bounds new : K) : Prop :=
  if frame = 0 then new = bounds else new = frame ∨ bounds = 0

/-- A subview that keeps its frame when it is resized in a superview of the same size. -/
def Aligned (above : Above K) (sub : Framed K) : Prop :=
  sub.autoresizingMask = .notSizable ∨
    (sub.rounded above sub.exactFrame).origin = sub.placement.frame.origin ∧
      nonNegative (sub.rounded above sub.exactFrame).size = sub.placement.frame.size

/-- Where the size changes, a rotated view without a bounds transform has bounds that the change does not scale. Where
only the origin changes, the subviews are aligned at the new place. -/
def SettersFit (above : Above K) (tree : Subtree K) (frameRect : Rect K) : Prop :=
  let geometry := tree.view.placement.toGeometry
  let newSize := nonNegative frameRect.size
  if geometry.frame.size ≠ newSize then
    geometry.isRotatedOrScaledFromBase = true → geometry.boundsMatrix = none →
      LengthKept geometry.frame.size.width geometry.bounds.size.width newSize.width ∧
        LengthKept geometry.frame.size.height geometry.bounds.size.height newSize.height
  else
    geometry.frame.origin ≠ frameRect.origin → ¬ tree.view.LeavesSubviews →
      ∀ sub ∈ tree.subviews,
        Aligned ((tree.view.withGeometry (geometry.setFrame frameRect)).below above) sub.view

/-! ## The geometry -/

section Geometry

omit [IsStrictOrderedRing K] [FloorRing K]

variable {geometry : Geometry K} {frameRect : Rect K}

theorem lengthKept_iff (frame bounds new : K) :
    bounds = new * (if frame = 0 then 1 else bounds / frame) ↔ LengthKept frame bounds new := by
  unfold LengthKept
  by_cases hf : frame = 0
  · rw [if_pos hf, if_pos hf, mul_one, eq_comm]
  · rw [if_neg hf, if_neg hf, mul_div_assoc', eq_div_iff hf, ← sub_eq_zero, mul_comm new, ← mul_sub,
      mul_eq_zero, sub_eq_zero, or_comm, eq_comm (a := frame)]

/-- Where the size changes, all but the bounds is the same in any case. -/
theorem setFrame_eq_iff (hs : geometry.frame.size ≠ nonNegative frameRect.size) : (geometry.setFrame frameRect).bounds =
        ((geometry.setFrameOrigin frameRect.origin).setFrameSize frameRect.size).bounds ↔
      (geometry.isRotatedOrScaledFromBase = true → geometry.boundsMatrix = none →
        LengthKept geometry.frame.size.width geometry.bounds.size.width (nonNegative frameRect.size).width ∧
          LengthKept geometry.frame.size.height geometry.bounds.size.height (nonNegative frameRect.size).height) := by
  unfold Geometry.setFrame Geometry.setFrameSize Geometry.setFrameOrigin
  dsimp only
  rw [if_pos hs, if_pos hs]
  cases hr : geometry.isRotatedOrScaledFromBase with
  | false => simp
  | true =>
    cases hm : geometry.boundsMatrix with
    | none =>
      rw [if_pos rfl, if_pos rfl]
      dsimp only
      rw [← lengthKept_iff, ← lengthKept_iff]
      refine ⟨fun h _ _ => ?_, fun h => ?_⟩
      · exact ⟨congrArg (fun bounds => bounds.size.width) h, congrArg (fun bounds => bounds.size.height) h⟩
      · obtain ⟨hw, hh⟩ := h rfl rfl
        exact congrArg₂ (fun width height => (⟨geometry.bounds.origin, ⟨width, height⟩⟩ : Rect K)) hw hh
    | some matrix =>
      rw [if_pos rfl, if_pos rfl]
      refine iff_of_true ?_ fun _ h => nomatch h
      simp [Geometry.frameInBounds, Geometry.matrix, hm]

theorem setFrame_eq (hs : geometry.frame.size ≠ nonNegative frameRect.size) (hb : (geometry.setFrame frameRect).bounds =
      ((geometry.setFrameOrigin frameRect.origin).setFrameSize frameRect.size).bounds) :
    geometry.setFrame frameRect = (geometry.setFrameOrigin frameRect.origin).setFrameSize frameRect.size := by
  unfold Geometry.setFrame Geometry.setFrameSize Geometry.setFrameOrigin at hb ⊢
  dsimp only at hb ⊢
  rw [if_pos hs, if_pos hs] at hb ⊢
  cases hr : geometry.isRotatedOrScaledFromBase with
  | false => simp
  | true =>
    cases hm : geometry.boundsMatrix with
    | none =>
      rw [hr, hm, if_pos rfl, if_pos rfl] at hb
      rw [if_pos rfl, if_pos rfl]
      exact congrArg (fun bounds => Geometry.mk _ bounds _ _) hb
    | some matrix => simp [Geometry.frameInBounds, Geometry.matrix, hm]

end Geometry

/-! ## The subviews -/

omit [IsStrictOrderedRing K] [FloorRing K] in
theorem autoresizedFrame_self (mask : AutoresizingMask) (size : Size K) (frame : Rect K) :
    autoresizedFrame mask size size frame = frame := by
  have ha (a : K) (content : Extent K) (flexible : Flexible) : autoresize a a content flexible = content := by
    unfold autoresize
    simp only [sub_self, zero_div, zero_mul, add_zero, ite_self]
  unfold autoresizedFrame
  rw [ha, ha]
  rfl

namespace Subtree

variable {above : Above K}

mutual

theorem length_frames_setFrame (above : Above K) (frameRect : Rect K) :
    (tree : Subtree K) → (frames (setFrame above frameRect tree)).length = (frames tree).length
  | node view subviews => by
    unfold setFrame
    split
    · dsimp only
      split
      · rfl
      · rw [frames, frames, List.length_cons, List.length_cons, length_framesOf_resizeSubviews]
    · rfl

theorem length_framesOf_resizeSubviews (above : Above K) (oldSize newSize : Size K) :
    (subs : List (Subtree K)) → (framesOf (resizeSubviews above oldSize newSize subs)).length = (framesOf subs).length
  | [] => rfl
  | sub :: subs => by
    unfold resizeSubviews framesOf
    rw [List.length_append, List.length_append, length_framesOf_resizeSubviews above oldSize newSize subs]
    split
    · rfl
    · rw [frames_withError, length_frames_setFrame]

end

theorem frames_setFrame_iff (frameRect : Rect K) (tree : Subtree K) :
    frames (setFrame above frameRect tree) = frames tree ↔ frameRect.origin = tree.view.placement.frame.origin ∧
        nonNegative frameRect.size = tree.view.placement.frame.size := by
  obtain ⟨view, subviews⟩ := tree
  unfold setFrame Subtree.view
  dsimp only
  by_cases hc : view.placement.frame.origin ≠ frameRect.origin ∨ view.placement.frame.size ≠ nonNegative frameRect.size
  · rw [if_pos hc]
    refine iff_of_false (fun h => ?_) fun ⟨ho, hs⟩ => hc.elim (· ho.symm) (· hs.symm)
    rw [frames, frames] at h
    have hf : (view.placement.setFrame frameRect).frame = view.placement.frame := (List.cons.inj h).1
    rw [Autoresizing.setFrame_frame] at hf
    rcases hc with ho | hs
    · exact ho (congrArg Rect.origin hf).symm
    · exact hs (congrArg Rect.size hf).symm
  · rw [if_neg hc]
    obtain ⟨ho, hs⟩ := not_or.mp hc
    exact iff_of_true rfl ⟨(not_not.mp ho).symm, (not_not.mp hs).symm⟩

theorem framesOf_resizeSubviews_iff (size : Size K) (subs : List (Subtree K)) :
    framesOf (resizeSubviews above size size subs) = framesOf subs ↔ ∀ sub ∈ subs, Aligned above sub.view := by
  induction subs with
  | nil => exact iff_of_true rfl fun _ h => absurd h List.not_mem_nil
  | cons sub subs ih =>
    have hl := length_framesOf_resizeSubviews above size size subs
    unfold resizeSubviews
    rw [framesOf, framesOf, List.forall_mem_cons, ← ih]
    have ha {xs ys : List (Rect K)} : xs ++ framesOf (resizeSubviews above size size subs) = ys ++ framesOf subs ↔
        xs = ys ∧ framesOf (resizeSubviews above size size subs) = framesOf subs :=
      ⟨fun h => List.append_inj' h hl, fun ⟨h, h'⟩ => congrArg₂ _ h h'⟩
    rw [ha]
    refine and_congr_left' ?_
    unfold Aligned Framed.autoresized
    by_cases hm : sub.view.autoresizingMask = .notSizable
    · rw [if_pos hm]
      exact iff_of_true rfl (.inl hm)
    · rw [if_neg hm, autoresizedFrame_self, frames_withError, frames_setFrame_iff, or_iff_right hm]

end Subtree

/-! ## Both ways -/

variable {above : Above K} {view : Framed K} {subviews : List (Subtree K)} {frameRect : Rect K}

/-- A view with a new geometry, and its subviews resized. -/
def Subtree.resized (above : Above K) (view : Framed K) (oldSize : Size K) (subviews : List (Subtree K)) : Subtree K :=
  .node view
    (if view.LeavesSubviews then subviews
    else resizeSubviews (view.below above) oldSize view.placement.frame.size subviews)

theorem Subtree.setFrame_of_changed (hc : view.placement.frame.origin ≠ frameRect.origin ∨
    view.placement.frame.size ≠ nonNegative frameRect.size) : (node view subviews).setFrame above frameRect =
      resized above (view.withGeometry (view.placement.setFrame frameRect)) view.placement.frame.size subviews := by
  rw [setFrame, if_pos hc]
  rfl

omit [IsStrictOrderedRing K] [FloorRing K] in
/-- Whether or not the origin is another one. -/
theorem Subtree.exists_setFrameOrigin (view : Framed K) (newOrigin : Point K) (subviews : List (Subtree K)) :
    ∃ view' : Framed K, (node view subviews).setFrameOrigin newOrigin = node view' subviews ∧
      view'.placement.toGeometry = view.placement.setFrameOrigin newOrigin ∧
      ∀ geometry, view'.withGeometry geometry = view.withGeometry geometry := by
  simp only [setFrameOrigin]
  by_cases ho : view.placement.frame.origin ≠ newOrigin
  · rw [if_pos ho]
    exact ⟨_, rfl, rfl, fun _ => rfl⟩
  · rw [if_neg ho]
    refine ⟨view, rfl, ?_, fun _ => rfl⟩
    rw [← not_not.mp ho]
    rfl

theorem Subtree.setFrameSize_of_changed (hs : view.placement.frame.size ≠ nonNegative frameRect.size) :
    ((node view subviews).setFrameOrigin frameRect.origin).setFrameSize above frameRect.size =
      resized above (view.withGeometry ((view.placement.setFrameOrigin frameRect.origin).setFrameSize frameRect.size))
        view.placement.frame.size subviews := by
  obtain ⟨view', ho, hg, hw⟩ := exists_setFrameOrigin view frameRect.origin subviews
  have hs' : view'.placement.frame.size = view.placement.frame.size := congrArg (fun g => g.frame.size) hg
  rw [ho, setFrameSize, hs', if_pos hs, hw, hg]
  rfl

/-- The two ways to set a frame leave the same if, and only if, the conditions on the bounds and the subviews hold. -/
theorem settersAgree_iff (above : Above K) (tree : Subtree K) (frameRect : Rect K) :
    SettersAgree above tree frameRect ↔ SettersFit above tree frameRect := by
  obtain ⟨view, subviews⟩ := tree
  unfold SettersAgree SettersFit
  dsimp only [Subtree.view, Subtree.subviews]
  by_cases hs : view.placement.frame.size ≠ nonNegative frameRect.size
  · rw [if_pos hs, Subtree.setFrame_of_changed (.inr hs), Subtree.setFrameSize_of_changed hs,
      ← setFrame_eq_iff hs]
    refine ⟨fun h => h.2.1, fun hb => ?_⟩
    rw [setFrame_eq hs hb]
    exact ⟨rfl, rfl, rfl⟩
  rw [if_neg hs]
  obtain ⟨view', ho', hg, -⟩ := Subtree.exists_setFrameOrigin view frameRect.origin subviews
  have hs' : view'.placement.frame.size = view.placement.frame.size := congrArg (fun g => g.frame.size) hg
  have ht : ((Subtree.node view subviews).setFrameOrigin frameRect.origin).setFrameSize above frameRect.size =
      .node view' subviews := by
    rw [ho', Subtree.setFrameSize, hs', if_neg hs]
  rw [ht]
  have hsm := not_not.mp hs
  have hfr : (view.placement.setFrame frameRect).frame = view'.placement.frame := by
    rw [Autoresizing.setFrame_frame, hg, ← hsm]
    rfl
  have hb : (view.placement.setFrame frameRect).bounds = view'.placement.bounds := by
    rw [hg, Geometry.setFrame, if_neg hs]
    rfl
  by_cases ho : view.placement.frame.origin ≠ frameRect.origin
  · rw [Subtree.setFrame_of_changed (.inl ho)]
    have hn : (view.withGeometry (view.placement.setFrame frameRect)).placement.frame.size =
        view.placement.frame.size := (congrArg Rect.size hfr).trans hs'
    by_cases hl : view.LeavesSubviews
    · refine iff_of_true ⟨hfr, hb, ?_⟩ fun _ hnot => absurd hl hnot
      exact congrArg Subtree.framesOf (if_pos hl)
    · have hsb : (Subtree.resized above (view.withGeometry (view.placement.setFrame frameRect))
          view.placement.frame.size subviews).subviews =
            Subtree.resizeSubviews ((view.withGeometry (view.placement.setFrame frameRect)).below above)
              view.placement.frame.size view.placement.frame.size subviews := by
        rw [← hn]
        exact if_neg hl
      constructor
      · rintro ⟨-, -, hf2⟩ - -
        refine (Subtree.framesOf_resizeSubviews_iff view.placement.frame.size _).mp ?_
        rw [← hsb]
        exact hf2
      · intro ha
        refine ⟨hfr, hb, ?_⟩
        have hf2 := (Subtree.framesOf_resizeSubviews_iff view.placement.frame.size _).mpr (ha ho hl)
        rwa [← hsb] at hf2
  · have hon : (Subtree.node view subviews).setFrame above frameRect = .node view subviews := by
      rw [Subtree.setFrame, if_neg (not_or.mpr ⟨ho, hs⟩)]
    rw [hon]
    refine iff_of_true ⟨?_, ?_, rfl⟩ fun h => absurd h ho
    · change view.placement.frame = view'.placement.frame
      rw [hg, Geometry.setFrameOrigin, ← not_not.mp ho]
    · change view.placement.bounds = view'.placement.bounds
      rw [hg, Geometry.setFrameOrigin]

end Setters

theorem settersAgree_moved :
    SettersAgree (⟨none, false⟩ : Above ℚ)
      (.node ⟨⟨⟨⟨⟨0, 0⟩, ⟨10, 10⟩⟩, ⟨⟨0, 0⟩, ⟨10, 10⟩⟩, none, false⟩, false, none, by rintro _ ⟨⟩⟩, NSZeroRect, true,
        .notSizable, false⟩ []) ⟨⟨1, 2⟩, ⟨10, 10⟩⟩ := by
  refine (settersAgree_iff _ _ _).mpr ?_
  unfold SettersFit
  dsimp only
  rw [if_neg (by decide +kernel)]
  intro _ _ sub hs
  cases hs

/-- A view turned by a quarter with no transform of its bounds: the new size scales the bounds in one case only. -/
theorem setters_disagree_rotated : ¬ ∀ (above : Above ℚ) (tree : Subtree ℚ) (frameRect : Rect ℚ),
    SettersAgree above tree frameRect := by
  intro h
  let geometry : Geometry ℚ :=
    ⟨⟨⟨0, 0⟩, ⟨10, 10⟩⟩, ⟨⟨0, 0⟩, ⟨10, 10⟩⟩, none, true⟩
  let placement : Placement ℚ := ⟨geometry, true, some ⟨0, 1, -1, 0, 0, 0⟩, by rintro _ ⟨⟩; decide +kernel⟩
  let view : Framed ℚ := ⟨placement, NSZeroRect, true, .notSizable, false⟩
  have hb := (h ⟨none, false⟩ (.node view []) ⟨⟨0, 0⟩, ⟨20, 20⟩⟩).2.1
  exact absurd (congrArg (fun bounds => bounds.size.width) hb) (by decide +kernel)

end GnustepGui.NSView
