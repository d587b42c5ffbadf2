import GnustepGui.BezierPath.Trace
import GnustepGui.Library.Bernstein
import GnustepGui.Library.Numerals

/-!
# The bounds of a path

`_recalculateBounds` takes the points of the elements and the extremes of the curves. A curve that is no
true cubic in one of its coordinates has its extremes at roots that the formula does not find, and makes it
divide by zero. For all other paths the bounds contain the path and each side touches it
(`bounds_right_iff`).
-/

namespace GnustepGui.BezierPath

attribute [local instance] Numerals.two Numerals.three

universe u

structure NSRect (α : Type u) where
  origin : NSPoint α
  width : α
  height : α
deriving DecidableEq, Repr

section Code

variable {α : Type u} [Field α] [LinearOrder α]

/-- `CHECK_MAX` -/
def checkMax (max p : NSPoint α) : NSPoint α where
  x := if p.x > max.x then p.x else max.x
  y := if p.y > max.y then p.y else max.y

/-- `CHECK_MIN` -/
def checkMin (min p : NSPoint α) : NSPoint α where
  x := if p.x < min.x then p.x else min.x
  y := if p.y < min.y then p.y else min.y

/-- `point_on_curve` -/
def pointOnCurve (t : α) (a b c d : NSPoint α) : NSPoint α :=
  let ti := 1 - t
  { x := ti * ti * ti * a.x + 3 * ti * ti * t * b.x + 3 * ti * t * t * c.x + t * t * t * d.x
    y := ti * ti * ti * a.y + 3 * ti * ti * t * b.y + 3 * ti * t * t * c.y + t * t * t * d.y }

/-- A quotient of floating point numbers. By zero it is an infinity or no number, which is not between any
two numbers. -/
def quotient (a b : α) : Option α := if b = 0 then none else some (a / b)

/-- `CHECK_CURVE_EXTREMES` for one coordinate: the parameters `t0` and `t1` that it divides out. -/
def curveExtremes (sqrt : α → α) (p pts0 pts1 pts2 : α) : List (Option α) :=
  let t := p * (pts2 - pts1) + pts0 * (-pts2 - pts1) + pts1 * pts1 + pts0 * pts0
  if t ≥ 0 then
    let t := sqrt t
    [quotient (pts1 - 2 * pts0 + p + t) (-pts2 + 3 * pts1 - 3 * pts0 + p),
      quotient (pts1 - 2 * pts0 + p - t) (-pts2 + 3 * pts1 - 3 * pts0 + p)]
  else []

/-- The variables of the loop, and how often it has divided by zero. -/
structure BoundsLocals (α : Type u) where
  p : NSPoint α
  pts : AssociatedPoints α
  min : NSPoint α
  max : NSPoint α
  cmin : NSPoint α
  cmax : NSPoint α
  numCurves : Nat
  zeroDivisions : Nat

namespace BoundsLocals

/-- `CHECK_MAX` and `CHECK_MIN` for the path. -/
def check (s : BoundsLocals α) (q : NSPoint α) : BoundsLocals α :=
  { s with max := checkMax s.max q, min := checkMin s.min q }

/-- `CHECK_MAX` and `CHECK_MIN` for the control points. -/
def checkControl (s : BoundsLocals α) (q : NSPoint α) : BoundsLocals α :=
  { s with cmax := checkMax s.cmax q, cmin := checkMin s.cmin q }

/-- What `CHECK_CURVE_EXTREMES` does with a quotient. -/
def checkExtreme (s : BoundsLocals α) : Option α → BoundsLocals α
  | none => { s with zeroDivisions := s.zeroDivisions + 1 }
  | some t => if t > 0 ∧ t < 1 then s.check (pointOnCurve t s.p s.pts.p0 s.pts.p1 s.pts.p2) else s

/-- The points of a curve. -/
def checkCurvePoints (s : BoundsLocals α) : BoundsLocals α :=
  let s := { s with numCurves := s.numCurves + 1 }
  let s := (s.checkControl s.pts.p0).checkControl s.pts.p1
  s.check s.pts.p2

/-- The case of a curve, with its points in `pts`. -/
def curve (sqrt : α → α) (s : BoundsLocals α) : BoundsLocals α :=
  let s := s.checkCurvePoints
  let s := (curveExtremes sqrt s.p.x s.pts.p0.x s.pts.p1.x s.pts.p2.x).foldl checkExtreme s
  let s := (curveExtremes sqrt s.p.y s.pts.p0.y s.pts.p1.y s.pts.p2.y).foldl checkExtreme s
  { s with p := s.pts.p2 }

/-- One turn of the loop. -/
def turn (sqrt : α → α) (s : BoundsLocals α) (i : Nat) (type : NSBezierPathElement) (pts : AssociatedPoints α) :
    BoundsLocals α :=
  let s := { s with pts := pts }
  let s := if i = 0 then { s with cmin := pts.p0, cmax := pts.p0, min := pts.p0, max := pts.p0, p := pts.p0 } else s
  match type with
  | .closePath => { s with p := pts.p0 }
  | .moveTo => { s.check pts.p0 with p := pts.p0 }
  | .lineTo => { s.check pts.p0 with p := pts.p0 }
  | .curveTo => s.curve sqrt

end BoundsLocals

/-- The loop, with `left` more elements from `i` on. -/
def boundsFrom (sqrt : α → α) (elements : List (PathElement α)) : (left i : Nat) → BoundsLocals α → BoundsLocals α
  | 0, _, s => s
  | left + 1, i, s =>
    match elementAtIndex elements i s.pts with
    | none => s
    | some (type, pts) => boundsFrom sqrt elements left (i + 1) (s.turn sqrt i type pts)

/-- The variables before the loop; `pts` is not initialised. -/
def BoundsLocals.initial (pts : AssociatedPoints α) : BoundsLocals α where
  p := ⟨0, 0⟩
  pts := pts
  min := ⟨0, 0⟩
  max := ⟨0, 0⟩
  cmin := ⟨0, 0⟩
  cmax := ⟨0, 0⟩
  numCurves := 0
  zeroDivisions := 0

/-- `NSMakeRect` of two corners. -/
def rectOfCorners (min max : NSPoint α) : NSRect α := ⟨min, max.x - min.x, max.y - min.y⟩

/-- The variables after the loop of `_recalculateBounds`. -/
def boundsLocals (sqrt : α → α) (pts : AssociatedPoints α) (elements : List (PathElement α)) : BoundsLocals α :=
  boundsFrom sqrt elements elements.length 0 (.initial pts)

/-- `_recalculateBounds`: `_bounds` and `_controlPointBounds`. -/
def recalculateBounds (sqrt : α → α) (pts : AssociatedPoints α) (self : NSBezierPath α) : NSRect α × NSRect α :=
  if self.elementCount = 0 then (⟨⟨0, 0⟩, 0, 0⟩, ⟨⟨0, 0⟩, 0, 0⟩)
  else
    let s := boundsLocals sqrt pts self.pathElements
    let control :=
      if s.numCurves ≠ 0 then rectOfCorners (checkMin s.cmin s.min) (checkMax s.cmax s.max)
      else rectOfCorners s.min s.max
    (rectOfCorners s.min s.max, control)

def bounds (sqrt : α → α) (pts : AssociatedPoints α) (self : NSBezierPath α) : NSRect α :=
  (recalculateBounds sqrt pts self).1

end Code

/-! ## Points of a path -/

section Points

variable {α : Type u} [Field α] [LinearOrder α]

/-- The point of a segment at a parameter. -/
def Segment.pointAt (t : α) : Segment α → NSPoint α
  | .line a b => ⟨a.x + t * (b.x - a.x), a.y + t * (b.y - a.y)⟩
  | .cubic a b c d => pointOnCurve t a b c d

def OnSegment (segment : Segment α) (q : NSPoint α) : Prop := ∃ t, 0 ≤ t ∧ t ≤ 1 ∧ q = segment.pointAt t

/-- The points where subpaths start, and those of their segments. -/
def OnPath (subpaths : List (Subpath α)) (q : NSPoint α) : Prop :=
  ∃ s ∈ subpaths, q = s.start ∨ ∃ segment ∈ s.segments, OnSegment segment q

def NSRect.Contains (r : NSRect α) (q : NSPoint α) : Prop :=
  r.origin.x ≤ q.x ∧ q.x ≤ r.origin.x + r.width ∧ r.origin.y ≤ q.y ∧ q.y ≤ r.origin.y + r.height

/-- A curve is a true cubic in both coordinates. -/
def Segment.TrueCubic : Segment α → Prop
  | .line _ _ => True
  | .cubic a b c d => d.x - 3 * c.x + 3 * b.x - a.x ≠ 0 ∧ d.y - 3 * c.y + 3 * b.y - a.y ≠ 0

/-- The bounds contain the path, each side touches it, and there has been no division by zero. -/
structure BoundsRight (sqrt : α → α) (pts : AssociatedPoints α) (path : NSBezierPath α) (subpaths : List (Subpath α)) :
    Prop where
  contains : ∀ q, OnPath subpaths q → (bounds sqrt pts path).Contains q
  left : ∃ q, OnPath subpaths q ∧ q.x = (bounds sqrt pts path).origin.x
  right : ∃ q, OnPath subpaths q ∧ q.x = (bounds sqrt pts path).origin.x + (bounds sqrt pts path).width
  bottom : ∃ q, OnPath subpaths q ∧ q.y = (bounds sqrt pts path).origin.y
  top : ∃ q, OnPath subpaths q ∧ q.y = (bounds sqrt pts path).origin.y + (bounds sqrt pts path).height
  noZeroDivision : (boundsLocals sqrt pts path.pathElements).zeroDivisions = 0

/-! ## Checking a point -/

/-- Within the corners so far. -/
def BoundsLocals.Within (s : BoundsLocals α) (q : NSPoint α) : Prop :=
  s.min.x ≤ q.x ∧ q.x ≤ s.max.x ∧ s.min.y ≤ q.y ∧ q.y ≤ s.max.y

/-- Each corner has its coordinates from points of a set. -/
structure BoundsLocals.Touched (s : BoundsLocals α) (S : NSPoint α → Prop) : Prop where
  left : ∃ q, S q ∧ q.x = s.min.x
  right : ∃ q, S q ∧ q.x = s.max.x
  bottom : ∃ q, S q ∧ q.y = s.min.y
  top : ∃ q, S q ∧ q.y = s.max.y

end Points

namespace BoundsLocals

section Checking

variable {α : Type u} {s : BoundsLocals α} {S T : NSPoint α → Prop} {q : NSPoint α}

theorem Touched.mono (h : s.Touched S) (hST : ∀ q, S q → T q) : s.Touched T where
  left := h.left.imp fun q hq => ⟨hST q hq.1, hq.2⟩
  right := h.right.imp fun q hq => ⟨hST q hq.1, hq.2⟩
  bottom := h.bottom.imp fun q hq => ⟨hST q hq.1, hq.2⟩
  top := h.top.imp fun q hq => ⟨hST q hq.1, hq.2⟩

variable [LinearOrder α]

theorem Within.check (h : s.Within q) (r : NSPoint α) : (s.check r).Within q := by
  obtain ⟨hl, hr, hb, ht⟩ := h
  simp only [Within, BoundsLocals.check, checkMin, checkMax]
  grind

theorem within_check (s : BoundsLocals α) (q : NSPoint α) : (s.check q).Within q := by
  simp only [Within, BoundsLocals.check, checkMin, checkMax]
  grind

theorem Touched.check (h : s.Touched S) (hq : S q) : (s.check q).Touched S := by
  refine ⟨?_, ?_, ?_, ?_⟩
  · change ∃ r, S r ∧ r.x = if q.x < s.min.x then q.x else s.min.x
    split
    · exact ⟨q, hq, rfl⟩
    · exact h.left
  · change ∃ r, S r ∧ r.x = if q.x > s.max.x then q.x else s.max.x
    split
    · exact ⟨q, hq, rfl⟩
    · exact h.right
  · change ∃ r, S r ∧ r.y = if q.y < s.min.y then q.y else s.min.y
    split
    · exact ⟨q, hq, rfl⟩
    · exact h.bottom
  · change ∃ r, S r ∧ r.y = if q.y > s.max.y then q.y else s.max.y
    split
    · exact ⟨q, hq, rfl⟩
    · exact h.top

end Checking

/-! ## The extremes of a curve -/

section Extremes

variable {α : Type u} [Field α] [LinearOrder α]

/-- What the extremes change. -/
structure Checked (s s' : BoundsLocals α) (l : List (Option α)) : Prop where
  p : s'.p = s.p
  pts : s'.pts = s.pts
  grows : ∀ q, s.Within q → s'.Within q
  extremes : ∀ t, some t ∈ l → 0 < t → t < 1 → s'.Within (pointOnCurve t s.p s.pts.p0 s.pts.p1 s.pts.p2)
  touched : ∀ S, s.Touched S → (∀ t, 0 < t → t < 1 → S (pointOnCurve t s.p s.pts.p0 s.pts.p1 s.pts.p2)) → s'.Touched S
  zeroDivisions : s.zeroDivisions ≤ s'.zeroDivisions ∧ (s'.zeroDivisions = s.zeroDivisions ↔ none ∉ l)

theorem checked_checkExtreme (s : BoundsLocals α) (t : Option α) : s.Checked (s.checkExtreme t) [t] := by
  cases t with
  | none =>
    refine ⟨rfl, rfl, fun _ h => h, fun t ht => ?_, fun S h _ => ⟨h.left, h.right, h.bottom, h.top⟩, ?_, ?_⟩
    · exact absurd (List.mem_singleton.mp ht) (Option.some_ne_none t)
    · exact Nat.le_succ _
    · simp [checkExtreme]
  | some t =>
    by_cases hin : t > 0 ∧ t < 1
    · have hc : s.checkExtreme (some t) = s.check (pointOnCurve t s.p s.pts.p0 s.pts.p1 s.pts.p2) := if_pos hin
      rw [hc]
      refine ⟨rfl, rfl, fun _ h => h.check _, fun u hu _ _ => ?_, fun S h hS => h.check (hS t hin.1 hin.2), le_rfl, ?_⟩
      · obtain rfl := Option.some.inj (List.mem_singleton.mp hu)
        exact within_check s _
      · simp [BoundsLocals.check]
    · have hs : s.checkExtreme (some t) = s := if_neg hin
      rw [hs]
      refine ⟨rfl, rfl, fun _ h => h, fun u hu hp hlt => ?_, fun _ h _ => h, le_rfl, by simp⟩
      obtain rfl := Option.some.inj (List.mem_singleton.mp hu)
      exact absurd ⟨hp, hlt⟩ hin

theorem checked_foldl (s : BoundsLocals α) (l : List (Option α)) : s.Checked (l.foldl checkExtreme s) l := by
  induction l generalizing s with
  | nil => exact ⟨rfl, rfl, fun _ h => h, fun _ h => absurd h List.not_mem_nil, fun _ h _ => h, le_rfl, by simp⟩
  | cons t l ih =>
    have hf := checked_checkExtreme s t
    have hr := ih (s.checkExtreme t)
    rw [List.foldl_cons]
    refine ⟨hr.p.trans hf.p, hr.pts.trans hf.pts, fun q h => hr.grows q (hf.grows q h), ?_, ?_, ?_⟩
    · intro u hu hp hlt
      rcases List.mem_cons.mp hu with rfl | hm
      · exact hr.grows _ (hf.extremes u (List.mem_singleton_self _) hp hlt)
      · have hin := hr.extremes u hm hp hlt
        rwa [hf.p, hf.pts] at hin
    · intro S h hS
      refine hr.touched S (hf.touched S h hS) ?_
      rw [hf.p, hf.pts]
      exact hS
    · obtain ⟨hle, hi⟩ := hf.zeroDivisions
      obtain ⟨hle', hi'⟩ := hr.zeroDivisions
      rw [List.mem_singleton] at hi
      refine ⟨hle.trans hle', ?_⟩
      rw [List.mem_cons, not_or, ← hi, ← hi']
      omega

end Extremes

/-! ## A curve -/

section Curve

theorem none_mem_curveExtremes {sqrt : ℝ → ℝ} {a b c d : ℝ} :
    none ∈ curveExtremes sqrt a b c d ↔ d - 3 * c + 3 * b - a = 0 := by
  have hdiv : -d + 3 * c - 3 * b + a = 0 ↔ d - 3 * c + 3 * b - a = 0 := ⟨fun h => by linarith, fun h => by linarith⟩
  unfold curveExtremes quotient
  dsimp only
  constructor
  · intro h
    split at h
    · rw [← hdiv]
      by_contra hne
      simp [hne] at h
    · exact absurd h List.not_mem_nil
  · intro h
    have hds : a * (d - c) + b * (-d - c) + c * c + b * b = (c - 2 * b + a) ^ 2 := by
      have hd : d = 3 * c - 3 * b + a := by linarith
      rw [hd]
      ring
    rw [hds, if_pos (sq_nonneg _), if_pos (hdiv.mpr h)]
    exact List.mem_cons_self ..

theorem some_mem_curveExtremes {a b c d t : ℝ} (hl : d - 3 * c + 3 * b - a ≠ 0)
    (hs : Bernstein.cubicSlope a b c d t = 0) : some t ∈ curveExtremes Real.sqrt a b c d := by
  obtain ⟨hds, hr⟩ := Bernstein.eq_of_cubicSlope_eq_zero hl hs
  have hd : -d + 3 * c - 3 * b + a = -Bernstein.leading a b c d := by
    unfold Bernstein.leading
    ring
  have hne : -Bernstein.leading a b c d ≠ 0 := neg_ne_zero.mpr hl
  unfold Bernstein.discriminant at hds hr
  unfold curveExtremes quotient
  dsimp only
  rw [if_pos hds, hd, if_neg hne]
  rcases hr with rfl | rfl
  · exact List.mem_cons_self ..
  · rw [if_neg hne]
    exact List.mem_cons_of_mem _ (List.mem_singleton_self _)

variable (s : BoundsLocals ℝ)

/-- The point of the current curve. -/
noncomputable def curvePoint (t : ℝ) : NSPoint ℝ := pointOnCurve t s.p s.pts.p0 s.pts.p1 s.pts.p2

/-- The case of a curve. -/
structure Curved (s' : BoundsLocals ℝ) : Prop where
  p : s'.p = s.pts.p2
  grows : ∀ q, s.Within q → s'.Within q
  target : s'.Within s.pts.p2
  contains : s.Within s.p → (Segment.cubic s.p s.pts.p0 s.pts.p1 s.pts.p2).TrueCubic →
    ∀ t, 0 ≤ t → t ≤ 1 → s'.Within (s.curvePoint t)
  touched : ∀ S, s.Touched S → (∀ t, 0 ≤ t → t ≤ 1 → S (s.curvePoint t)) → s'.Touched S
  zeroDivisions : s.zeroDivisions ≤ s'.zeroDivisions ∧
    (s'.zeroDivisions = s.zeroDivisions ↔ (Segment.cubic s.p s.pts.p0 s.pts.p1 s.pts.p2).TrueCubic)

theorem curved_curve : s.Curved (s.curve Real.sqrt) := by
  have hx := checked_foldl s.checkCurvePoints
    (curveExtremes Real.sqrt s.p.x s.pts.p0.x s.pts.p1.x s.pts.p2.x)
  have hc : s.curve Real.sqrt =
      let next := (curveExtremes Real.sqrt s.p.x s.pts.p0.x s.pts.p1.x s.pts.p2.x).foldl checkExtreme s.checkCurvePoints
      let last := (curveExtremes Real.sqrt next.p.y next.pts.p0.y next.pts.p1.y next.pts.p2.y).foldl checkExtreme next
      { last with p := last.pts.p2 } := rfl
  rw [hc]
  dsimp only
  generalize (curveExtremes Real.sqrt s.p.x s.pts.p0.x s.pts.p1.x s.pts.p2.x).foldl checkExtreme s.checkCurvePoints =
    next at hx
  have hp : next.p = s.p := hx.p
  have hpts : next.pts = s.pts := hx.pts
  rw [hp, hpts]
  have hy := checked_foldl next (curveExtremes Real.sqrt s.p.y s.pts.p0.y s.pts.p1.y s.pts.p2.y)
  generalize (curveExtremes Real.sqrt s.p.y s.pts.p0.y s.pts.p1.y s.pts.p2.y).foldl checkExtreme next = last at hy
  have hpts' : last.pts = s.pts := hy.pts.trans hpts
  have hg : ∀ q, s.checkCurvePoints.Within q → last.Within q := fun q h => hy.grows q (hx.grows q h)
  have hst : ∀ q, s.Within q → s.checkCurvePoints.Within q := fun q h => h.check _
  have htgt : s.checkCurvePoints.Within s.pts.p2 := within_check _ _
  -- a critical point of either coordinate has been checked
  have hct : ∀ t, 0 < t → t < 1 → s.pts.p2.x - 3 * s.pts.p1.x + 3 * s.pts.p0.x - s.p.x ≠ 0 →
      Bernstein.cubicSlope s.p.x s.pts.p0.x s.pts.p1.x s.pts.p2.x t = 0 → last.Within (s.curvePoint t) :=
    fun t hpos hlt hld hs => hy.grows _ (hx.extremes t (some_mem_curveExtremes hld hs) hpos hlt)
  have hcr : ∀ t, 0 < t → t < 1 → s.pts.p2.y - 3 * s.pts.p1.y + 3 * s.pts.p0.y - s.p.y ≠ 0 →
      Bernstein.cubicSlope s.p.y s.pts.p0.y s.pts.p1.y s.pts.p2.y t = 0 → last.Within (s.curvePoint t) := by
    intro t hpos hlt hld hs
    have hin := hy.extremes t (some_mem_curveExtremes hld hs) hpos hlt
    rwa [hp, hpts] at hin
  refine ⟨by rw [hpts'], fun q h => hg q (hst q h), hg _ htgt, ?_, ?_, ?_⟩
  · intro hp htr t ht ht'
    obtain ⟨hlf, hr, hb, htop⟩ := hg _ (hst _ hp)
    obtain ⟨hlf', hr', hb', htop'⟩ := hg _ htgt
    exact ⟨Bernstein.le_cubic hlf hlf' (fun u hu hu' h => (hct u hu hu' htr.1 h).1) ht ht',
      Bernstein.cubic_le hr hr' (fun u hu hu' h => (hct u hu hu' htr.1 h).2.1) ht ht',
      Bernstein.le_cubic hb hb' (fun u hu hu' h => (hcr u hu hu' htr.2 h).2.2.1) ht ht',
      Bernstein.cubic_le htop htop' (fun u hu hu' h => (hcr u hu hu' htr.2 h).2.2.2) ht ht'⟩
  · intro S h hS
    have htar : S s.pts.p2 := by
      have ho := hS 1 zero_le_one le_rfl
      have hpt : s.curvePoint 1 = s.pts.p2 := by
        unfold curvePoint pointOnCurve
        simp
      rwa [hpt] at ho
    have hinterior : ∀ t, 0 < t → t < 1 → S (s.curvePoint t) := fun t hpos hlt => hS t hpos.le hlt.le
    have htc : s.checkCurvePoints.Touched S := Touched.check ⟨h.left, h.right, h.bottom, h.top⟩ htar
    have hl := hy.touched S (hx.touched S htc hinterior) (by rw [hp, hpts]; exact hinterior)
    exact ⟨hl.left, hl.right, hl.bottom, hl.top⟩
  · obtain ⟨hle, hi⟩ := hx.zeroDivisions
    obtain ⟨hle', hi'⟩ := hy.zeroDivisions
    have hsm : s.checkCurvePoints.zeroDivisions = s.zeroDivisions := rfl
    rw [hsm] at hle hi
    refine ⟨hle.trans hle', ?_⟩
    have hbt : last.zeroDivisions = s.zeroDivisions ↔
        next.zeroDivisions = s.zeroDivisions ∧ last.zeroDivisions = next.zeroDivisions := by omega
    rw [hbt, hi, hi', none_mem_curveExtremes, none_mem_curveExtremes]
    rfl

end Curve

end BoundsLocals

/-! ## The loop over the elements themselves -/

section Run

variable {α : Type u} [Field α] [LinearOrder α] (sqrt : α → α)

/-- The loop behind the first element; `start` is the point of the last move. -/
def boundsRun (start : NSPoint α) (s : BoundsLocals α) : List (PathElement α) → BoundsLocals α
  | [] => s
  | .moveTo p :: rest => boundsRun p (s.turn sqrt 1 .moveTo { s.pts with p0 := p }) rest
  | .lineTo p :: rest => boundsRun start (s.turn sqrt 1 .lineTo { s.pts with p0 := p }) rest
  | .curveTo c d p :: rest => boundsRun start (s.turn sqrt 1 .curveTo ⟨c, d, p⟩) rest
  | .closePath :: rest => boundsRun start (s.turn sqrt 1 .closePath { s.pts with p0 := start }) rest

theorem turn_of_pos {i : Nat} (hi : 0 < i) (s : BoundsLocals α) (type : NSBezierPathElement) (pts : AssociatedPoints α) :
    s.turn sqrt i type pts = s.turn sqrt 1 type pts := by
  unfold BoundsLocals.turn
  dsimp only
  rw [if_neg hi.ne', if_neg Nat.one_ne_zero]

theorem boundsFrom_eq_boundsRun {start : NSPoint α} {before rest : List (PathElement α)} {s : BoundsLocals α}
    (hb : 0 < before.length) (hs : lastMoveBefore (before ++ rest) before.length = some start) :
    boundsFrom sqrt (before ++ rest) rest.length before.length s = boundsRun sqrt start s rest := by
  induction rest generalizing before start s with
  | nil => rfl
  | cons e rest ih =>
    have he : (before ++ e :: rest)[before.length]? = some e := by
      rw [List.getElem?_append_right le_rfl, Nat.sub_self, List.getElem?_cons_zero]
    have ha : before ++ e :: rest = (before ++ [e]) ++ rest := by
      rw [List.append_assoc, List.singleton_append]
    have hl : (before ++ [e]).length = before.length + 1 := List.length_append
    have hn : ∀ start' s', lastMoveBefore (before ++ e :: rest) (before.length + 1) = some start' →
        boundsFrom sqrt (before ++ e :: rest) rest.length (before.length + 1) s' = boundsRun sqrt start' s' rest := by
      intro start' s' hm
      rw [ha, ← hl] at hm ⊢
      exact ih (by omega) hm
    unfold boundsFrom
    cases e with
    | moveTo p =>
      simp only [List.length_cons, elementAtIndex, he, turn_of_pos sqrt hb]
      exact hn p _ (by rw [lastMoveBefore, he])
    | lineTo p =>
      simp only [List.length_cons, elementAtIndex, he, turn_of_pos sqrt hb]
      exact hn start _ (by rw [lastMoveBefore, he]; exact hs)
    | curveTo c d p =>
      simp only [List.length_cons, elementAtIndex, he, turn_of_pos sqrt hb]
      exact hn start _ (by rw [lastMoveBefore, he]; exact hs)
    | closePath =>
      simp only [List.length_cons, elementAtIndex, he, hs, turn_of_pos sqrt hb]
      exact hn start _ (by rw [lastMoveBefore, he]; exact hs)

/-- After the first element, a move. -/
def BoundsLocals.moved (pts : AssociatedPoints α) (p : NSPoint α) : BoundsLocals α :=
  (BoundsLocals.initial pts).turn sqrt 0 .moveTo { pts with p0 := p }

theorem boundsLocals_move (pts : AssociatedPoints α) (p : NSPoint α) (rest : List (PathElement α)) :
    boundsLocals sqrt pts (.moveTo p :: rest) = boundsRun sqrt p (.moved sqrt pts p) rest := by
  unfold boundsLocals
  exact @boundsFrom_eq_boundsRun _ _ _ sqrt p [.moveTo p] rest _ Nat.one_pos rfl

variable {rest : List (PathElement α)}

theorem bounds_of_move {pts : AssociatedPoints α} {self : NSBezierPath α} {p : NSPoint α}
    (he : self.pathElements = .moveTo p :: rest) : bounds sqrt pts self =
      rectOfCorners (boundsRun sqrt p (.moved sqrt pts p) rest).min (boundsRun sqrt p (.moved sqrt pts p) rest).max := by
  unfold bounds recalculateBounds NSBezierPath.elementCount
  rw [if_neg (by rw [he]; exact Nat.succ_ne_zero _), he, boundsLocals_move]

theorem contains_rectOfCorners (s : BoundsLocals α) (q : NSPoint α) :
    (rectOfCorners s.min s.max).Contains q ↔ s.Within q := by
  simp only [NSRect.Contains, rectOfCorners, add_sub_cancel, BoundsLocals.Within]

theorem grows_turn {s : BoundsLocals α} {q : NSPoint α} (h : s.Within q) (type : NSBezierPathElement)
    (pts : AssociatedPoints α) : (s.turn sqrt 1 type pts).Within q := by
  cases type with
  | moveTo => exact BoundsLocals.Within.check h pts.p0
  | lineTo => exact BoundsLocals.Within.check h pts.p0
  | closePath => exact h
  | curveTo =>
    have hp : ({ s with pts := pts } : BoundsLocals α).checkCurvePoints.Within q := BoundsLocals.Within.check h pts.p2
    exact (BoundsLocals.checked_foldl _ _).grows q ((BoundsLocals.checked_foldl _ _).grows q hp)

theorem grows_boundsRun {start : NSPoint α} {s : BoundsLocals α} {q : NSPoint α} (h : s.Within q)
    (rest : List (PathElement α)) : (boundsRun sqrt start s rest).Within q := by
  induction rest generalizing start s with
  | nil => exact h
  | cons e rest ih => cases e <;> exact ih (grows_turn sqrt h _ _)

theorem within_boundsRun {start : NSPoint α} {s : BoundsLocals α} {q : NSPoint α}
    (hq : .moveTo q ∈ rest ∨ .lineTo q ∈ rest) : (boundsRun sqrt start s rest).Within q := by
  induction rest generalizing start s with
  | nil => exact absurd hq (by simp)
  | cons e rest ih =>
    by_cases hr : .moveTo q ∈ rest ∨ .lineTo q ∈ rest
    · cases e <;> exact ih hr
    · have hf : e = .moveTo q ∨ e = .lineTo q := by
        simp only [List.mem_cons] at hq
        grind
      rcases hf with rfl | rfl
      · have hp : (s.turn sqrt 1 .moveTo { s.pts with p0 := q }).Within q := BoundsLocals.within_check s q
        exact grows_boundsRun sqrt hp rest
      · have hp : (s.turn sqrt 1 .lineTo { s.pts with p0 := q }).Within q := BoundsLocals.within_check s q
        exact grows_boundsRun sqrt hp rest

theorem contains_vertex {pts : AssociatedPoints α} {self : NSBezierPath α} {p q : NSPoint α}
    (he : self.pathElements = .moveTo p :: rest)
    (hq : .moveTo q ∈ self.pathElements ∨ .lineTo q ∈ self.pathElements) : (bounds sqrt pts self).Contains q := by
  rw [bounds_of_move sqrt he, contains_rectOfCorners]
  rw [he] at hq
  by_cases hr : .moveTo q ∈ rest ∨ .lineTo q ∈ rest
  · exact within_boundsRun sqrt hr
  · have hp : p = q := by
      simp only [List.mem_cons] at hq
      grind
    subst hp
    have hpt : (BoundsLocals.moved sqrt pts p).Within p := BoundsLocals.within_check _ p
    exact grows_boundsRun sqrt hpt rest

end Run

/-! ## Tracing and checking -/

section Tracing

/-- What holds of the variables when some subpaths have been traced. -/
structure Traced (s : BoundsLocals ℝ) (subpaths : List (Subpath ℝ)) : Prop where
  touched : s.Touched (OnPath subpaths)
  starts : ∀ sub ∈ subpaths, s.Within sub.start
  contains : (∀ sub ∈ subpaths, ∀ segment ∈ sub.segments, segment.TrueCubic) → ∀ q, OnPath subpaths q → s.Within q
  zeroDivisions : s.zeroDivisions = 0 ↔ ∀ sub ∈ subpaths, ∀ segment ∈ sub.segments, segment.TrueCubic

/-- How the last subpath goes on. -/
structure Drawing (s : BoundsLocals ℝ) (subpaths : List (Subpath ℝ)) (sub : Subpath ℝ) : Prop
    extends Traced s (subpaths ++ [sub]) where
  p : s.p = sub.currentPoint
  current : s.Within s.p
  closed : sub.closed = true → sub.currentPoint = sub.start

/-- What drawing a segment from the current point changes. -/
structure Draws (s s' : BoundsLocals ℝ) (segment : Segment ℝ) : Prop where
  source : s.p = segment.source
  target : s'.p = segment.target
  grows : ∀ q, s.Within q → s'.Within q
  within : s'.Within segment.target
  contains : segment.TrueCubic → ∀ q, OnSegment segment q → s'.Within q
  touched : ∀ S, s.Touched S → (∀ q, OnSegment segment q → S q) → s'.Touched S
  zeroDivisions : s.zeroDivisions ≤ s'.zeroDivisions ∧ (s'.zeroDivisions = s.zeroDivisions ↔ segment.TrueCubic)

variable {s s' : BoundsLocals ℝ} {subpaths : List (Subpath ℝ)} {sub : Subpath ℝ} {segment : Segment ℝ}

theorem within_line {a b q : NSPoint ℝ} (ha : s.Within a) (hb : s.Within b) (hq : OnSegment (.line a b) q) : s.Within q := by
  obtain ⟨t, ht, ht', rfl⟩ := hq
  obtain ⟨hl, hr, hbot, htop⟩ := ha
  obtain ⟨hl', hr', hbot', htop'⟩ := hb
  refine ⟨?_, ?_, ?_, ?_⟩
  · change s.min.x ≤ a.x + t * (b.x - a.x)
    nlinarith
  · change a.x + t * (b.x - a.x) ≤ s.max.x
    nlinarith
  · change s.min.y ≤ a.y + t * (b.y - a.y)
    nlinarith
  · change a.y + t * (b.y - a.y) ≤ s.max.y
    nlinarith

theorem onSegment_target (segment : Segment ℝ) : OnSegment segment segment.target := by
  refine ⟨1, zero_le_one, le_rfl, ?_⟩
  cases segment with
  | line a b => simp [Segment.target, Segment.pointAt]
  | cubic a b c d => simp [Segment.target, Segment.pointAt, pointOnCurve]

theorem draws_line (hp : s.Within s.p) {a : NSPoint ℝ} (ha : s.p = a) (b : NSPoint ℝ) :
    Draws s (s.turn Real.sqrt 1 .lineTo { s.pts with p0 := b }) (.line a b) := by
  subst ha
  refine ⟨rfl, rfl, fun q h => h.check b, BoundsLocals.within_check s b, fun _ q hq => ?_, fun S h hS => ?_,
    le_rfl, iff_of_true rfl trivial⟩
  · exact within_line (s := s.check b) (hp.check b) (BoundsLocals.within_check s b) hq
  · have hb := BoundsLocals.Touched.check h (hS b (onSegment_target (.line s.p b)))
    exact ⟨hb.left, hb.right, hb.bottom, hb.top⟩

theorem draws_close (hp : s.Within s.p) {a start : NSPoint ℝ} (ha : s.p = a) (hs : s.Within start) :
    Draws s (s.turn Real.sqrt 1 .closePath { s.pts with p0 := start }) (.line a start) := by
  subst ha
  exact ⟨rfl, rfl, fun _ h => h, hs, fun _ _ hq => within_line hp hs hq,
    fun _ h _ => ⟨h.left, h.right, h.bottom, h.top⟩, le_rfl, iff_of_true rfl trivial⟩

theorem draws_curve (hp : s.Within s.p) {a : NSPoint ℝ} (ha : s.p = a) (c d p : NSPoint ℝ) :
    Draws s (s.turn Real.sqrt 1 .curveTo ⟨c, d, p⟩) (.cubic a c d p) := by
  subst ha
  have h := BoundsLocals.curved_curve { s with pts := ⟨c, d, p⟩ }
  refine ⟨rfl, h.p, h.grows, h.target, ?_, fun S hs hS => ?_, h.zeroDivisions⟩
  · rintro htr q ⟨t, ht, ht', rfl⟩
    exact h.contains hp htr t ht ht'
  · exact h.touched S ⟨hs.left, hs.right, hs.bottom, hs.top⟩ fun t ht ht' => hS _ ⟨t, ht, ht', rfl⟩

/-- The points of a path that draws one more segment. -/
theorem onPath_draw {q : NSPoint ℝ} :
    OnPath (subpaths ++ [sub.draw segment]) q ↔ OnPath (subpaths ++ [sub]) q ∨ OnSegment segment q := by
  simp only [OnPath, List.mem_append, List.mem_singleton, Subpath.draw]
  constructor
  · rintro ⟨other, hm | rfl, h⟩
    · exact .inl ⟨other, .inl hm, h⟩
    · rcases h with rfl | ⟨segment', hs, hq⟩
      · exact .inl ⟨sub, .inr rfl, .inl rfl⟩
      · rcases List.mem_append.mp hs with hm | hl
        · exact .inl ⟨sub, .inr rfl, .inr ⟨segment', hm, hq⟩⟩
        · rw [List.mem_singleton.mp hl] at hq
          exact .inr hq
  · rintro (⟨other, hm | rfl, h⟩ | hq)
    · exact ⟨other, .inl hm, h⟩
    · refine ⟨_, .inr rfl, h.imp_right ?_⟩
      rintro ⟨segment', hs, hq⟩
      exact ⟨segment', List.mem_append_left _ hs, hq⟩
    · exact ⟨_, .inr rfl, .inr ⟨segment, List.mem_append_right _ (List.mem_singleton_self _), hq⟩⟩

theorem onPath_startingAt {p q : NSPoint ℝ} :
    OnPath (subpaths ++ [Subpath.startingAt p]) q ↔ OnPath subpaths q ∨ q = p := by
  simp only [OnPath, List.mem_append, List.mem_singleton]
  constructor
  · rintro ⟨other, hm | rfl, h⟩
    · exact .inl ⟨other, hm, h⟩
    · rcases h with rfl | ⟨segment', hs, -⟩
      · exact .inr rfl
      · exact absurd hs List.not_mem_nil
  · rintro (⟨other, hm, h⟩ | rfl)
    · exact ⟨other, .inl hm, h⟩
    · exact ⟨_, .inr rfl, .inl rfl⟩

theorem trueCubics_draw : (∀ other ∈ subpaths ++ [sub.draw segment], ∀ segment' ∈ other.segments, segment'.TrueCubic) ↔
      (∀ other ∈ subpaths ++ [sub], ∀ segment' ∈ other.segments, segment'.TrueCubic) ∧ segment.TrueCubic := by
  rw [List.forall_mem_append, List.forall_mem_singleton, List.forall_mem_append, List.forall_mem_singleton]
  change (_ ∧ ∀ segment' ∈ sub.segments ++ [segment], segment'.TrueCubic) ↔ _
  rw [List.forall_mem_append, List.forall_mem_singleton, and_assoc]

theorem trueCubics_startingAt {p : NSPoint ℝ} :
    (∀ other ∈ subpaths ++ [Subpath.startingAt p], ∀ segment ∈ other.segments, segment.TrueCubic) ↔
      ∀ other ∈ subpaths, ∀ segment ∈ other.segments, segment.TrueCubic := by
  rw [List.forall_mem_append, List.forall_mem_singleton]
  exact and_iff_left fun segment hs => absurd hs List.not_mem_nil

theorem currentPoint_draw : (sub.draw segment).currentPoint = segment.target := by
  unfold Subpath.currentPoint Subpath.draw
  have he : ∀ (p : NSPoint ℝ) (xs : List (Segment ℝ)), endOf p (xs ++ [segment]) = segment.target := by
    intro p xs
    induction xs generalizing p with
    | nil => rfl
    | cons x xs ih => exact ih x.target
  exact he _ _

theorem Drawing.draw (h : Drawing s subpaths sub) (hd : Draws s s' segment) (hclo : sub.closed = false) :
    Drawing s' subpaths (sub.draw segment) where
  touched := hd.touched _ (h.touched.mono fun q hq => onPath_draw.mpr (.inl hq)) fun q hq => onPath_draw.mpr (.inr hq)
  starts other hother := by
    refine hd.grows _ ?_
    rcases List.mem_append.mp hother with hm | hl
    · exact h.starts other (List.mem_append_left _ hm)
    · rw [List.mem_singleton.mp hl]
      exact h.starts sub (List.mem_append_right _ (List.mem_singleton_self _))
  contains ht q hq := by
    obtain ⟨ht, hs⟩ := trueCubics_draw.mp ht
    rcases onPath_draw.mp hq with hq | hq
    · exact hd.grows q (h.contains ht q hq)
    · exact hd.contains hs q hq
  zeroDivisions := by
    rw [trueCubics_draw, ← h.zeroDivisions, ← hd.zeroDivisions.2]
    have := hd.zeroDivisions.1
    omega
  p := by rw [hd.target, currentPoint_draw]
  current := by
    rw [hd.target]
    exact hd.within
  closed hc := absurd (hclo.symm.trans hc) Bool.false_ne_true

theorem Drawing.start (h : Drawing s subpaths sub) {p : NSPoint ℝ} (hp : s'.p = p) (hw : s'.Within p)
    (hg : ∀ q, s.Within q → s'.Within q) (ht : ∀ S, s.Touched S → S p → s'.Touched S)
    (hz : s'.zeroDivisions = s.zeroDivisions) : Drawing s' (subpaths ++ [sub]) (.startingAt p) where
  touched := ht _ (h.touched.mono fun q hq => onPath_startingAt.mpr (.inl hq)) (onPath_startingAt.mpr (.inr rfl))
  starts other hother := by
    rcases List.mem_append.mp hother with hm | hl
    · exact hg _ (h.starts other hm)
    · rw [List.mem_singleton.mp hl]
      exact hw
  contains htr q hq := by
    rcases onPath_startingAt.mp hq with hq | rfl
    · exact hg q (h.contains (trueCubics_startingAt.mp htr) q hq)
    · exact hw
  zeroDivisions := by rw [trueCubics_startingAt, hz, h.zeroDivisions]
  p := hp
  current := by rwa [hp]
  closed hc := absurd hc Bool.false_ne_true

theorem Drawing.close (h : Drawing s subpaths sub) (hb : sub.currentPoint = sub.start) (pts : AssociatedPoints ℝ) :
    Drawing { s with pts := pts, p := sub.start } subpaths { sub with closed := true } := by
  have hp : ∀ q, OnPath (subpaths ++ [{ sub with closed := true }]) q ↔ OnPath (subpaths ++ [sub]) q := by
    intro q
    simp only [OnPath, List.mem_append, List.mem_singleton, or_and_right, exists_or, exists_eq_left]
  have htr : (∀ other ∈ subpaths ++ [{ sub with closed := true }], ∀ segment ∈ other.segments, segment.TrueCubic) ↔
      ∀ other ∈ subpaths ++ [sub], ∀ segment ∈ other.segments, segment.TrueCubic := by
    rw [List.forall_mem_append, List.forall_mem_singleton, List.forall_mem_append, List.forall_mem_singleton]
  have hs : s.Within sub.start := h.starts sub (List.mem_append_right _ (List.mem_singleton_self _))
  have ht := h.touched.mono fun q hq => (hp q).mpr hq
  refine ⟨⟨⟨ht.left, ht.right, ht.bottom, ht.top⟩, fun other hother => ?_, fun ha q hq => ?_, ?_⟩,
    hb.symm, hs, fun _ => hb⟩
  · rcases List.mem_append.mp hother with hm | hl
    · exact h.starts other (List.mem_append_left _ hm)
    · rw [List.mem_singleton.mp hl]
      exact hs
  · exact h.contains (htr.mp ha) q ((hp q).mp hq)
  · rw [htr]
    exact h.zeroDivisions

theorem traced_boundsRun {rest : List (PathElement ℝ)} (h : Drawing s subpaths sub) :
    Traced (boundsRun Real.sqrt sub.start s rest) (subpaths ++ traceFrom sub rest) := by
  induction rest generalizing s subpaths sub with
  | nil => exact h.toTraced
  | cons e rest ih =>
    have hs : s.Within sub.start := h.starts sub (List.mem_append_right _ (List.mem_singleton_self _))
    -- what is drawn after a close starts a subpath at the same start
    have hag : sub.closed = true → Drawing s (subpaths ++ [sub]) (.startingAt sub.start) := fun hc =>
      h.start (h.p.trans (h.closed hc)) hs (fun _ hq => hq) (fun _ hS _ => hS) rfl
    have ha : ∀ l, subpaths ++ sub :: l = (subpaths ++ [sub]) ++ l := fun l => by
      rw [List.append_assoc, List.singleton_append]
    cases e with
    | moveTo p =>
      rw [boundsRun, traceFrom, ha]
      refine @ih _ _ (.startingAt p) (h.start rfl (BoundsLocals.within_check s p) (fun q hq => hq.check p) ?_ rfl)
      intro S hS hp
      have hch := hS.check hp
      exact ⟨hch.left, hch.right, hch.bottom, hch.top⟩
    | lineTo p =>
      rw [boundsRun, traceFrom]
      cases hc : sub.closed with
      | true =>
        rw [if_pos rfl, ha]
        exact ih ((hag hc).draw (draws_line h.current (h.p.trans (h.closed hc)) p) rfl)
      | false =>
        rw [if_neg Bool.false_ne_true]
        exact ih (h.draw (draws_line h.current h.p p) hc)
    | curveTo c d p =>
      rw [boundsRun, traceFrom]
      cases hc : sub.closed with
      | true =>
        rw [if_pos rfl, ha]
        exact ih ((hag hc).draw (draws_curve h.current (h.p.trans (h.closed hc)) c d p) rfl)
      | false =>
        rw [if_neg Bool.false_ne_true]
        exact ih (h.draw (draws_curve h.current h.p c d p) hc)
    | closePath =>
      rw [boundsRun, traceFrom]
      unfold Subpath.close
      by_cases hb : sub.currentPoint = sub.start
      · rw [if_pos hb]
        exact ih (h.close hb _)
      · rw [if_neg hb]
        have ho : sub.closed = false := eq_false_of_ne_true fun hc => hb (h.closed hc)
        exact ih ((h.draw (draws_close h.current h.p hs) ho).close currentPoint_draw _)

end Tracing

/-! ## The bounds -/

theorem drawing_moved (pts : AssociatedPoints ℝ) (p : NSPoint ℝ) :
    Drawing (.moved Real.sqrt pts p) [] (.startingAt p) := by
  have hin : (BoundsLocals.moved Real.sqrt pts p).Within p := BoundsLocals.within_check _ p
  have hc : (BoundsLocals.moved Real.sqrt pts p).min = p ∧ (BoundsLocals.moved Real.sqrt pts p).max = p := by
    simp [BoundsLocals.moved, BoundsLocals.turn, BoundsLocals.check, checkMin, checkMax]
  have hp : OnPath [Subpath.startingAt p] p := ⟨_, List.mem_singleton_self _, .inl rfl⟩
  refine ⟨⟨⟨⟨p, hp, by rw [hc.1]⟩, ⟨p, hp, by rw [hc.2]⟩, ⟨p, hp, by rw [hc.1]⟩,
    ⟨p, hp, by rw [hc.2]⟩⟩, fun other hother => ?_, fun _ q hq => ?_, ?_⟩, rfl, hin, fun h => Bool.noConfusion h⟩
  · rw [List.mem_singleton.mp hother]
    exact hin
  · obtain ⟨other, hother, hq⟩ := hq
    rw [List.mem_singleton.mp hother] at hq
    rcases hq with rfl | ⟨segment, hs, -⟩
    · exact hin
    · exact absurd hs List.not_mem_nil
  · refine iff_of_true rfl fun other hother segment hs => ?_
    rw [List.mem_singleton.mp hother] at hs
    exact absurd hs List.not_mem_nil

theorem bounds_right_iff (pts : AssociatedPoints ℝ) (self : NSBezierPath ℝ) {subpaths : List (Subpath ℝ)}
    (htrace : trace self.pathElements = some subpaths) :
    BoundsRight Real.sqrt pts self subpaths ↔
      self.pathElements ≠ [] ∧ ∀ sub ∈ subpaths, ∀ a b c d, Segment.cubic a b c d ∈ sub.segments →
        d.x - 3 * c.x + 3 * b.x - a.x ≠ 0 ∧ d.y - 3 * c.y + 3 * b.y - a.y ≠ 0 := by
  have hc : (∀ sub ∈ subpaths, ∀ a b c d, Segment.cubic a b c d ∈ sub.segments →
        d.x - 3 * c.x + 3 * b.x - a.x ≠ 0 ∧ d.y - 3 * c.y + 3 * b.y - a.y ≠ 0) ↔
      ∀ sub ∈ subpaths, ∀ segment ∈ sub.segments, segment.TrueCubic := by
    refine forall₂_congr fun sub _ => ⟨fun h segment hs => ?_, fun h a b c d hs => h _ hs⟩
    cases segment with
    | line a b => trivial
    | cubic a b c d => exact h a b c d hs
  rw [hc]
  cases he : self.pathElements with
  | nil =>
    rw [he] at htrace
    obtain rfl := Option.some.inj htrace
    refine iff_of_false (fun h => ?_) fun h => h.1 rfl
    obtain ⟨q, ⟨sub, hsub, -⟩, -⟩ := h.left
    exact absurd hsub List.not_mem_nil
  | cons e rest =>
    rw [he] at htrace
    cases e with
    | moveTo p =>
      obtain rfl := Option.some.inj htrace
      have ht : Traced (boundsRun Real.sqrt p (.moved Real.sqrt pts p) rest) ([] ++ traceFrom (.startingAt p) rest) :=
        traced_boundsRun (drawing_moved pts p)
      rw [List.nil_append] at ht
      have hl : boundsLocals Real.sqrt pts self.pathElements = boundsRun Real.sqrt p (.moved Real.sqrt pts p) rest := by
        rw [he, boundsLocals_move]
      have hr : bounds Real.sqrt pts self = _ := bounds_of_move Real.sqrt he
      rw [← hl] at ht hr
      constructor
      · exact fun h => ⟨List.cons_ne_nil _ _, ht.zeroDivisions.mp h.noZeroDivision⟩
      · rintro ⟨-, htrue⟩
        refine ⟨fun q hq => ?_, ?_, ?_, ?_, ?_, ht.zeroDivisions.mpr htrue⟩
        · rw [hr, contains_rectOfCorners]
          exact ht.contains htrue q hq
        · rw [hr]
          exact ht.touched.left
        · rw [hr]
          simp only [rectOfCorners, add_sub_cancel]
          exact ht.touched.right
        · rw [hr]
          exact ht.touched.bottom
        · rw [hr]
          simp only [rectOfCorners, add_sub_cancel]
          exact ht.touched.top
    | lineTo p => exact absurd htrace (Option.some_ne_none _).symm
    | curveTo c d p => exact absurd htrace (Option.some_ne_none _).symm
    | closePath => exact absurd htrace (Option.some_ne_none _).symm

/-- A path of one curve. -/
noncomputable def curvePath (a c d b : NSPoint ℝ) : NSBezierPath ℝ :=
  let d₀ : Defaults ℝ := ⟨1, 1, 0, 0, 10, 0, 0⟩
  ((NSBezierPath.init d₀).moveToPoint a).curveToPoint b c d

theorem trace_curvePath (a c d b : NSPoint ℝ) :
    trace (curvePath a c d b).pathElements = some [⟨a, [.cubic a c d b], false⟩] := rfl

theorem bounds_right_curvePath :
    BoundsRight Real.sqrt ⟨⟨0, 0⟩, ⟨0, 0⟩, ⟨0, 0⟩⟩ (curvePath ⟨0, 0⟩ ⟨0, 1⟩ ⟨1, 2⟩ ⟨1, 0⟩)
      [⟨⟨0, 0⟩, [.cubic ⟨0, 0⟩ ⟨0, 1⟩ ⟨1, 2⟩ ⟨1, 0⟩], false⟩] := by
  refine (bounds_right_iff _ _ (trace_curvePath _ _ _ _)).mpr ⟨List.cons_ne_nil _ _, ?_⟩
  intro sub hsub a b c d hs
  rw [List.mem_singleton.mp hsub, List.mem_singleton] at hs
  obtain ⟨rfl, rfl, rfl, rfl⟩ := Segment.cubic.inj hs
  norm_num

theorem bounds_arch (pts : AssociatedPoints ℝ) :
    bounds Real.sqrt pts (curvePath ⟨0, 0⟩ ⟨0, 1⟩ ⟨1, 1⟩ ⟨1, 0⟩) = ⟨⟨0, 0⟩, 1, 0⟩ := by
  have hx : curveExtremes Real.sqrt (0 : ℝ) 0 1 1 = [some 1, some 0] := by
    simp [curveExtremes, quotient]
    norm_num
  have hy : curveExtremes Real.sqrt (0 : ℝ) 1 1 0 = [none, none] := by simp [curveExtremes, quotient]
  simp [bounds, recalculateBounds, boundsLocals, boundsFrom, curvePath, NSBezierPath.init, NSBezierPath.elementCount,
    elementAtIndex, BoundsLocals.turn, BoundsLocals.curve, BoundsLocals.checkCurvePoints, BoundsLocals.initial,
    BoundsLocals.check, BoundsLocals.checkControl, BoundsLocals.checkExtreme, checkMax, checkMin, rectOfCorners, hx, hy]

/-- Its middle is above the bounds. -/
theorem not_bounds_right :
    ¬ ∀ (pts : AssociatedPoints ℝ) (path : NSBezierPath ℝ) (subpaths : List (Subpath ℝ)), trace path.pathElements = some subpaths →
      path.pathElements ≠ [] → BoundsRight Real.sqrt pts path subpaths := by
  intro h
  have hr := h ⟨⟨0, 0⟩, ⟨0, 0⟩, ⟨0, 0⟩⟩ _ _ (trace_curvePath ⟨0, 0⟩ ⟨0, 1⟩ ⟨1, 1⟩ ⟨1, 0⟩) (List.cons_ne_nil _ _)
  have hm := hr.contains (pointOnCurve (1 / 2) ⟨0, 0⟩ ⟨0, 1⟩ ⟨1, 1⟩ ⟨1, 0⟩)
    ⟨_, List.mem_singleton_self _, .inr ⟨_, List.mem_singleton_self _, 1 / 2, by norm_num, by norm_num, rfl⟩⟩
  rw [bounds_arch] at hm
  have ht := hm.2.2.2
  norm_num [pointOnCurve] at ht

end GnustepGui.BezierPath
