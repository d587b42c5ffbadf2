import GnustepGui.BezierPath.Trace
import Mathlib.Data.List.Chain
import Mathlib.Data.List.Flatten

/-!
# Paths in blocks

A path that starts with a move is a sequence of blocks: a move, and the lines, curves and closes up
to the next move. A block traces its subpaths on its own.
-/

namespace GnustepGui.BezierPath

universe u

variable {α : Type u}

inductive Draw (α : Type u)
  | line (p : NSPoint α)
  | curve (cp1 cp2 p : NSPoint α)

inductive Stroke (α : Type u)
  | draw (d : Draw α)
  | close

namespace Draw

def point : Draw α → NSPoint α
  | line p => p
  | curve _ _ p => p

def segment (source : NSPoint α) : Draw α → Segment α
  | line p => .line source p
  | curve c d p => .cubic source c d p

@[simp] theorem segment_source (p : NSPoint α) (d : Draw α) : (d.segment p).source = p := by
  cases d <;> rfl

@[simp] theorem segment_target (p : NSPoint α) (d : Draw α) : (d.segment p).target = d.point := by
  cases d <;> rfl

end Draw

/-- The segments that the draws trace from `p`. -/
def segmentsFrom (p : NSPoint α) : List (Draw α) → List (Segment α)
  | [] => []
  | d :: draws => d.segment p :: segmentsFrom d.point draws

@[simp] theorem segmentsFrom_length (p : NSPoint α) (draws : List (Draw α)) :
    (segmentsFrom p draws).length = draws.length := by
  induction draws generalizing p with
  | nil => rfl
  | cons d draws ih => simp [segmentsFrom, ih]

theorem segmentsFrom_append (p : NSPoint α) (ds es : List (Draw α)) :
    segmentsFrom p (ds ++ es) = segmentsFrom p ds ++ segmentsFrom (endOf p (segmentsFrom p ds)) es := by
  induction ds generalizing p with
  | nil => rfl
  | cons d ds ih => simp [segmentsFrom, endOf, ih]

def Stroke.element : Stroke α → PathElement α
  | .draw (.line p) => .lineTo p
  | .draw (.curve c d p) => .curveTo c d p
  | .close => .closePath

structure Block (α : Type u) where
  start : NSPoint α
  strokes : List (Stroke α)

namespace Block

def elements (b : Block α) : List (PathElement α) := .moveTo b.start :: b.strokes.map Stroke.element

end Block

theorem exists_blocks (elements : List (PathElement α)) : ∃ (strokes : List (Stroke α)) (blocks : List (Block α)),
      elements = strokes.map Stroke.element ++ blocks.flatMap Block.elements := by
  induction elements with
  | nil => exact ⟨[], [], rfl⟩
  | cons e elements ih =>
    obtain ⟨strokes, blocks, rfl⟩ := ih
    cases e with
    | moveTo p => exact ⟨[], ⟨p, strokes⟩ :: blocks, rfl⟩
    | lineTo p => exact ⟨.draw (.line p) :: strokes, blocks, rfl⟩
    | curveTo c d p => exact ⟨.draw (.curve c d p) :: strokes, blocks, rfl⟩
    | closePath => exact ⟨.close :: strokes, blocks, rfl⟩

/-! ## Subpaths of a block -/

namespace Subpath

@[simp] theorem draw_currentPoint (s : Subpath α) (x : Segment α) : (s.draw x).currentPoint = x.target := by
  simp [currentPoint, draw, endOf]

variable [DecidableEq α]

@[simp] theorem close_closed (s : Subpath α) : s.close.closed = true := by
  unfold close
  split <;> rfl

@[simp] theorem close_currentPoint (s : Subpath α) : s.close.currentPoint = s.start := by
  unfold close
  split
  case isTrue h => exact h
  case isFalse h => exact draw_currentPoint s _

@[simp] theorem close_start (s : Subpath α) : s.close.start = s.start := by
  unfold close
  split <;> rfl

@[simp] theorem close_close (s : Subpath α) : s.close.close = s.close := by
  rw [close, if_pos (by simp)]
  show Subpath.mk s.close.start s.close.segments true = s.close
  rw [← close_closed s]

end Subpath

variable [DecidableEq α]

theorem traceFrom_draw (s : Subpath α) (hs : s.closed = false) (d : Draw α) (elements : List (PathElement α)) :
    traceFrom s ((Stroke.draw d).element :: elements) = traceFrom (s.draw (d.segment s.currentPoint)) elements := by
  cases d <;> simp [Stroke.element, traceFrom, hs, Draw.segment]

theorem traceFrom_draw_closed (s : Subpath α) (hs : s.closed = true) (d : Draw α) (elements : List (PathElement α)) :
    traceFrom s ((Stroke.draw d).element :: elements) =
      s :: traceFrom ((Subpath.startingAt s.start).draw (d.segment s.start)) elements := by
  cases d <;> simp [Stroke.element, traceFrom, hs, Draw.segment]

theorem traceFrom_close (s : Subpath α) (elements : List (PathElement α)) :
    traceFrom s ((Stroke.close : Stroke α).element :: elements) = traceFrom s.close elements := rfl

theorem traceFrom_ne_nil (s : Subpath α) (elements : List (PathElement α)) : traceFrom s elements ≠ [] := by
  induction elements generalizing s with
  | nil => simp [traceFrom]
  | cons e elements ih =>
    cases e <;> simp only [traceFrom]
    case moveTo => simp
    case closePath => exact ih _
    all_goals
      split
      · simp
      · exact ih _

theorem traceFrom_append_move (s : Subpath α) (strokes : List (Stroke α)) (p : NSPoint α)
    (rest : List (PathElement α)) : traceFrom s (strokes.map Stroke.element ++ .moveTo p :: rest) =
      traceFrom s (strokes.map Stroke.element) ++ traceFrom (.startingAt p) rest := by
  induction strokes generalizing s with
  | nil => rfl
  | cons f strokes ih =>
    simp only [List.map_cons, List.cons_append]
    cases f with
    | close => exact ih s.close
    | draw d =>
      cases hs : s.closed with
      | false => rw [traceFrom_draw s hs, traceFrom_draw s hs, ih]
      | true => rw [traceFrom_draw_closed s hs, traceFrom_draw_closed s hs, ih, List.cons_append]

namespace Block

/-- What the block traces. -/
def subpaths (b : Block α) : List (Subpath α) :=
  traceFrom (.startingAt b.start) (b.strokes.map Stroke.element)

theorem subpaths_ne_nil (b : Block α) : b.subpaths ≠ [] := traceFrom_ne_nil _ _

end Block

theorem traceFrom_blocks (s : Subpath α) (strokes : List (Stroke α)) (blocks : List (Block α)) :
    traceFrom s (strokes.map Stroke.element ++ blocks.flatMap Block.elements) =
      traceFrom s (strokes.map Stroke.element) ++ blocks.flatMap Block.subpaths := by
  induction blocks generalizing s strokes with
  | nil => simp
  | cons b blocks ih =>
    rw [List.flatMap_cons, List.flatMap_cons, Block.elements, List.cons_append, traceFrom_append_move, ih]
    rfl

theorem trace_blocks (blocks : List (Block α)) :
    trace (blocks.flatMap Block.elements) = some (blocks.flatMap Block.subpaths) := by
  cases blocks with
  | nil => rfl
  | cons b blocks => exact congrArg some (traceFrom_blocks _ b.strokes blocks)

theorem exists_blocks_of_trace {elements : List (PathElement α)} {t : List (Subpath α)} (h : trace elements = some t) :
    ∃ blocks : List (Block α), elements = blocks.flatMap Block.elements := by
  obtain ⟨strokes, blocks, rfl⟩ := exists_blocks elements
  cases strokes with
  | nil => exact ⟨blocks, rfl⟩
  | cons f strokes =>
    cases f with
    | close => exact absurd h (by simp [Stroke.element, trace])
    | draw d => cases d <;> exact absurd h (by simp [Stroke.element, trace])

/-! ## Draws, then closes -/

/-- The strokes of a single subpath: draws, and possibly a close, again and again. -/
def simpleStrokes (draws : List (Draw α)) (closes : Nat) : List (Stroke α) :=
  draws.map Stroke.draw ++ List.replicate closes Stroke.close

omit [DecidableEq α] in
theorem simpleStrokes_cons (d : Draw α) (draws : List (Draw α)) (closes : Nat) :
    simpleStrokes (d :: draws) closes = Stroke.draw d :: simpleStrokes draws closes := rfl

omit [DecidableEq α] in
theorem simpleStrokes_close (closes : Nat) :
    (simpleStrokes [] (closes + 1) : List (Stroke α)) = Stroke.close :: simpleStrokes [] closes := rfl

theorem traceFrom_closed_closes (s : Subpath α) (n : Nat) :
    traceFrom s.close ((simpleStrokes [] n).map Stroke.element) = [s.close] := by
  induction n with
  | zero => rfl
  | succ n ih =>
    rw [simpleStrokes_close, List.map_cons, traceFrom_close, Subpath.close_close, ih]

theorem traceFrom_simple (s : Subpath α) (hs : s.closed = false) (draws : List (Draw α)) (n : Nat) :
    traceFrom s ((simpleStrokes draws n).map Stroke.element) =
      let drawn := { s with segments := s.segments ++ segmentsFrom s.currentPoint draws }
      [if n = 0 then drawn else drawn.close] := by
  induction draws generalizing s with
  | nil =>
    simp only [segmentsFrom, List.append_nil]
    cases n with
    | zero => rfl
    | succ n =>
      rw [simpleStrokes_close, List.map_cons, traceFrom_close, traceFrom_closed_closes]
      simp
  | cons d draws ih =>
    rw [simpleStrokes_cons, List.map_cons, traceFrom_draw s hs, ih (s.draw _) hs,
      Subpath.draw_currentPoint, Draw.segment_target]
    simp [segmentsFrom, Subpath.draw]

theorem closes_of_single {s : Subpath α} (hs : s.closed = true) {strokes : List (Stroke α)}
    (h : (traceFrom s (strokes.map Stroke.element)).length = 1) : ∃ n, strokes = simpleStrokes [] n := by
  induction strokes generalizing s with
  | nil => exact ⟨0, rfl⟩
  | cons f strokes ih =>
    cases f with
    | close =>
      obtain ⟨n, rfl⟩ := ih s.close_closed h
      exact ⟨n + 1, rfl⟩
    | draw d =>
      rw [List.map_cons, traceFrom_draw_closed s hs] at h
      simp [traceFrom_ne_nil] at h

theorem simple_of_single {s : Subpath α} (hs : s.closed = false) {strokes : List (Stroke α)}
    (h : (traceFrom s (strokes.map Stroke.element)).length = 1) : ∃ draws n, strokes = simpleStrokes draws n := by
  induction strokes generalizing s with
  | nil => exact ⟨[], 0, rfl⟩
  | cons f strokes ih =>
    cases f with
    | close =>
      obtain ⟨n, rfl⟩ := closes_of_single s.close_closed h
      exact ⟨[], n + 1, rfl⟩
    | draw d =>
      rw [List.map_cons, traceFrom_draw s hs] at h
      obtain ⟨draws, n, rfl⟩ := ih (s := s.draw _) hs h
      exact ⟨d :: draws, n, rfl⟩

end GnustepGui.BezierPath
