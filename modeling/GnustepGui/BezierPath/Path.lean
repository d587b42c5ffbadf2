import Mathlib.Data.List.Basic

/-!
# `NSBezierPath`

A path is an array of elements with their points, and the line attributes that are used when it is
drawn. Coordinates and attributes are of one type `α` (the `CGFloat` of the source); nothing here
computes with them.
-/

namespace GnustepGui.BezierPath

universe u

variable {α : Type u}

structure NSPoint (α : Type u) where
  x : α
  y : α
deriving DecidableEq, Repr

inductive NSBezierPathElement
  | moveTo
  | lineTo
  | curveTo
  | closePath
deriving DecidableEq, Repr

/-- `PathElement`: a type and the points that belong to it (the source fills up with `NSZeroPoint`). -/
inductive PathElement (α : Type u)
  | moveTo (p : NSPoint α)
  | lineTo (p : NSPoint α)
  | curveTo (cp1 cp2 p : NSPoint α)
  | closePath
deriving DecidableEq, Repr

/-- The values of the C enumeration. -/
def NSBezierPathElement.rawValue : NSBezierPathElement → Nat
  | .moveTo => 0
  | .lineTo => 1
  | .curveTo => 2
  | .closePath => 3

def NSBezierPathElement.ofRawValue : Nat → Option NSBezierPathElement
  | 0 => some .moveTo
  | 1 => some .lineTo
  | 2 => some .curveTo
  | 3 => some .closePath
  | _ => none

def PathElement.type : PathElement α → NSBezierPathElement
  | .moveTo _ => .moveTo
  | .lineTo _ => .lineTo
  | .curveTo _ _ _ => .curveTo
  | .closePath => .closePath

/-! The C enumerations are plain integers: a decoder stores what it reads. -/

abbrev NSWindingRule := UInt32
abbrev NSLineCapStyle := UInt32
abbrev NSLineJoinStyle := UInt32

/-- The class-wide drawing defaults, and the coordinate of `NSZeroPoint`. -/
structure Defaults (α : Type u) where
  lineWidth : α
  flatness : α
  lineCapStyle : NSLineCapStyle
  lineJoinStyle : NSLineJoinStyle
  miterLimit : α
  windingRule : NSWindingRule
  zero : α
deriving DecidableEq, Repr

/-- `_dash_pattern` (with `_dash_count` elements) and `_dash_phase`; there is no empty pattern. -/
structure LineDash (α : Type u) where
  pattern : List α
  phase : α
  nonempty : pattern ≠ []
deriving DecidableEq, Repr

structure NSBezierPath (α : Type u) where
  pathElements : List (PathElement α)
  windingRule : NSWindingRule
  lineCapStyle : NSLineCapStyle
  lineJoinStyle : NSLineJoinStyle
  lineWidth : α
  flatness : α
  miterLimit : α
  lineDash : Option (LineDash α)
  cachesBezierPath : Bool
  flat : Bool
deriving DecidableEq, Repr

namespace NSBezierPath

def init (d : Defaults α) : NSBezierPath α where
  pathElements := []
  windingRule := d.windingRule
  lineCapStyle := d.lineCapStyle
  lineJoinStyle := d.lineJoinStyle
  lineWidth := d.lineWidth
  flatness := d.flatness
  miterLimit := d.miterLimit
  lineDash := none
  cachesBezierPath := false
  flat := true

def moveToPoint (path : NSBezierPath α) (aPoint : NSPoint α) : NSBezierPath α :=
  { path with pathElements := path.pathElements ++ [.moveTo aPoint] }

def lineToPoint (path : NSBezierPath α) (aPoint : NSPoint α) : NSBezierPath α :=
  { path with pathElements := path.pathElements ++ [.lineTo aPoint] }

def curveToPoint (path : NSBezierPath α) (aPoint controlPoint1 controlPoint2 : NSPoint α) :
    NSBezierPath α :=
  { path with
    pathElements := path.pathElements ++ [.curveTo controlPoint1 controlPoint2 aPoint]
    flat := false }

def closePath (path : NSBezierPath α) : NSBezierPath α :=
  { path with pathElements := path.pathElements ++ [.closePath] }

def setLineWidth (path : NSBezierPath α) (lineWidth : α) : NSBezierPath α :=
  { path with lineWidth := lineWidth }

def setLineCapStyle (path : NSBezierPath α) (lineCapStyle : NSLineCapStyle) : NSBezierPath α :=
  { path with lineCapStyle := lineCapStyle }

def setLineJoinStyle (path : NSBezierPath α) (lineJoinStyle : NSLineJoinStyle) : NSBezierPath α :=
  { path with lineJoinStyle := lineJoinStyle }

def setWindingRule (path : NSBezierPath α) (windingRule : NSWindingRule) : NSBezierPath α :=
  { path with windingRule := windingRule }

def setFlatness (path : NSBezierPath α) (flatness : α) : NSBezierPath α :=
  { path with flatness := flatness }

def setMiterLimit (path : NSBezierPath α) (limit : α) : NSBezierPath α :=
  { path with miterLimit := limit }

/-- `setLineDash:count:phase:`; no pattern takes the dash away. -/
def setLineDash (path : NSBezierPath α) (pattern : List α) (phase : α) : NSBezierPath α :=
  match pattern with
  | [] => { path with lineDash := none }
  | x :: xs => { path with lineDash := some ⟨x :: xs, phase, List.cons_ne_nil x xs⟩ }

def elementCount (path : NSBezierPath α) : Nat := path.pathElements.length

@[simp] theorem moveToPoint_pathElements (path : NSBezierPath α) (p : NSPoint α) :
    (path.moveToPoint p).pathElements = path.pathElements ++ [.moveTo p] := rfl

@[simp] theorem lineToPoint_pathElements (path : NSBezierPath α) (p : NSPoint α) :
    (path.lineToPoint p).pathElements = path.pathElements ++ [.lineTo p] := rfl

@[simp] theorem curveToPoint_pathElements (path : NSBezierPath α) (p cp1 cp2 : NSPoint α) :
    (path.curveToPoint p cp1 cp2).pathElements = path.pathElements ++ [.curveTo cp1 cp2 p] := rfl

@[simp] theorem closePath_pathElements (path : NSBezierPath α) :
    path.closePath.pathElements = path.pathElements ++ [.closePath] := rfl

end NSBezierPath

/-! ## Reading elements -/

/-- The caller's array `pts[3]`. -/
structure AssociatedPoints (α : Type u) where
  p0 : NSPoint α
  p1 : NSPoint α
  p2 : NSPoint α
deriving DecidableEq, Repr

/-- The loop of `elementAtIndex:associatedPoints:` for a close element: the last move before `index`. -/
def lastMoveBefore (elements : List (PathElement α)) : Nat → Option (NSPoint α)
  | 0 => none
  | i + 1 =>
    match elements[i]? with
    | some (.moveTo p) => some p
    | _ => lastMoveBefore elements i

/-- `elementAtIndex:associatedPoints:`; the points that are not written keep what the caller had there. -/
def elementAtIndex (elements : List (PathElement α)) (index : Nat) (points : AssociatedPoints α) :
    Option (NSBezierPathElement × AssociatedPoints α) :=
  match elements[index]? with
  | none => none
  | some (.moveTo p) => some (.moveTo, { points with p0 := p })
  | some (.lineTo p) => some (.lineTo, { points with p0 := p })
  | some (.curveTo cp1 cp2 p) => some (.curveTo, ⟨cp1, cp2, p⟩)
  | some .closePath =>
    match lastMoveBefore elements index with
    | some p => some (.closePath, { points with p0 := p })
    | none => some (.closePath, points)

/-! ## `bezierPathByReversingPath` -/

/-- The variables of the loop. What the source leaves uninitialised starts with any value. -/
structure ReversingLocals (α : Type u) where
  path : NSBezierPath α
  lastType : NSBezierPathElement
  pts : AssociatedPoints α
  p : NSPoint α
  cp1 : NSPoint α
  cp2 : NSPoint α
  closed : Bool

namespace ReversingLocals

/-- The first switch: the end point of the element, and its control points if it has some. -/
def take (s : ReversingLocals α) (type : NSBezierPathElement) (pts : AssociatedPoints α) :
    ReversingLocals α :=
  match type with
  | .moveTo => { s with pts := pts, p := pts.p0 }
  | .lineTo => { s with pts := pts, p := pts.p0 }
  | .curveTo => { s with pts := pts, cp1 := pts.p0, cp2 := pts.p1, p := pts.p2 }
  | .closePath => { s with pts := pts, p := pts.p0 }

/-- The second switch: what the element after this one becomes. -/
def emit (s : ReversingLocals α) : ReversingLocals α :=
  match s.lastType with
  | .moveTo =>
    if s.closed then { s with path := s.path.closePath.moveToPoint s.p, closed := false }
    else { s with path := s.path.moveToPoint s.p }
  | .lineTo => { s with path := s.path.lineToPoint s.p }
  | .curveTo => { s with path := s.path.curveToPoint s.p s.cp2 s.cp1 }
  | .closePath => { s with closed := true }

/-- One turn of the loop. -/
def turn (s : ReversingLocals α) (type : NSBezierPathElement) (pts : AssociatedPoints α) :
    ReversingLocals α :=
  { (s.take type pts).emit with lastType := type }

end ReversingLocals

/-- The loop, from element `i - 1` down to the first. -/
def reverseElements (elements : List (PathElement α)) : Nat → ReversingLocals α → ReversingLocals α
  | 0, s => s
  | i + 1, s =>
    match elementAtIndex elements i s.pts with
    | none => s
    | some (type, pts) => reverseElements elements i (s.turn type pts)

/-- What the stack holds before `bezierPathByReversingPath` writes to it. -/
structure Uninitialised (α : Type u) where
  pts : AssociatedPoints α
  cp1 : NSPoint α
  cp2 : NSPoint α

/-- The variables before the loop. -/
def ReversingLocals.initial (d : Defaults α) (junk : Uninitialised α) : ReversingLocals α where
  path := .init d
  lastType := .moveTo
  pts := junk.pts
  p := ⟨d.zero, d.zero⟩
  cp1 := junk.cp1
  cp2 := junk.cp2
  closed := false

def bezierPathByReversingPath (d : Defaults α) (junk : Uninitialised α) (self : NSBezierPath α) :
    NSBezierPath α :=
  let s := reverseElements self.pathElements self.elementCount (.initial d junk)
  if s.closed then s.path.closePath else s.path

end GnustepGui.BezierPath
