import GnustepGui.BezierPath.Path

/-!
# What a path traces

The meaning of a list of elements, as in PostScript: a move starts a subpath, a line or a curve goes
on from the current point, and closing draws the line back to the start of the subpath where there is
one to draw. What is drawn after a close starts a new subpath at the same start. A path that draws
before its first move has no current point and no meaning.
-/

namespace GnustepGui.BezierPath

universe u

variable {α : Type u} [DecidableEq α]

inductive Segment (α : Type u)
  | line (source target : NSPoint α)
  | cubic (source cp1 cp2 target : NSPoint α)
deriving DecidableEq, Repr

namespace Segment

def source : Segment α → NSPoint α
  | .line a _ => a
  | .cubic a _ _ _ => a

def target : Segment α → NSPoint α
  | .line _ b => b
  | .cubic _ _ _ b => b

/-- The same segment in the other direction: end points and control points exchanged. -/
def reversed : Segment α → Segment α
  | .line a b => .line b a
  | .cubic a c d b => .cubic b d c a

section

omit [DecidableEq α]

@[simp] theorem reversed_reversed (s : Segment α) : s.reversed.reversed = s := by
  cases s <;> rfl

@[simp] theorem reversed_comp_reversed : reversed ∘ reversed = (id : Segment α → Segment α) :=
  funext reversed_reversed

@[simp] theorem reversed_target (s : Segment α) : s.reversed.target = s.source := by
  cases s <;> rfl

end

end Segment

structure Subpath (α : Type u) where
  start : NSPoint α
  segments : List (Segment α)
  closed : Bool
deriving DecidableEq, Repr

/-- Where segments drawn from `p` end. -/
def endOf (p : NSPoint α) : List (Segment α) → NSPoint α
  | [] => p
  | s :: segments => endOf s.target segments

omit [DecidableEq α] in
@[simp] theorem endOf_append (p : NSPoint α) (xs ys : List (Segment α)) :
    endOf p (xs ++ ys) = endOf (endOf p xs) ys := by
  induction xs generalizing p with
  | nil => rfl
  | cons x xs ih => exact ih x.target

namespace Subpath

/-- A subpath on which nothing is drawn yet. -/
def startingAt (p : NSPoint α) : Subpath α := ⟨p, [], false⟩

def currentPoint (s : Subpath α) : NSPoint α := endOf s.start s.segments

def draw (s : Subpath α) (segment : Segment α) : Subpath α :=
  { s with segments := s.segments ++ [segment] }

/-- Closing draws the line back to the start, unless the subpath already ends there. -/
def close (s : Subpath α) : Subpath α :=
  if s.currentPoint = s.start then { s with closed := true }
  else { s.draw (.line s.currentPoint s.start) with closed := true }

/-- The subpath traced from its end to its start. -/
def reversed (s : Subpath α) : Subpath α :=
  ⟨s.currentPoint, (s.segments.map Segment.reversed).reverse, s.closed⟩

end Subpath

/-- What remains to be traced when `s` is the subpath under construction. -/
def traceFrom (s : Subpath α) : List (PathElement α) → List (Subpath α)
  | [] => [s]
  | .moveTo p :: elements => s :: traceFrom (.startingAt p) elements
  | .lineTo p :: elements =>
    if s.closed then s :: traceFrom ((Subpath.startingAt s.start).draw (.line s.start p)) elements
    else traceFrom (s.draw (.line s.currentPoint p)) elements
  | .curveTo c d p :: elements =>
    if s.closed then s :: traceFrom ((Subpath.startingAt s.start).draw (.cubic s.start c d p)) elements
    else traceFrom (s.draw (.cubic s.currentPoint c d p)) elements
  | .closePath :: elements => traceFrom s.close elements

/-- The subpaths of a path, in order; `none` where an element needs a current point and has none. -/
def trace : List (PathElement α) → Option (List (Subpath α))
  | [] => some []
  | .moveTo p :: elements => some (traceFrom (.startingAt p) elements)
  | _ :: _ => none

end GnustepGui.BezierPath
