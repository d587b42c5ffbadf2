import GnustepGui.BezierPath.Blocks

/-!
# The reversing loop, block by block

The loop goes over the elements from the last to the first and emits, at each element, what the
element after it becomes. A block becomes one block: it starts where the last stroke ends, turns the
strokes one by one, and has a close at its end if the block has one anywhere.
-/

namespace GnustepGui.BezierPath

universe u

variable {α : Type u}

/-! ## What a block becomes -/

namespace Draw

def controls : Draw α → Option (NSPoint α × NSPoint α)
  | line _ => none
  | curve c d _ => some (c, d)

/-- What a draw becomes when the element before it ends at `p` and `prev` are its control points. -/
def turned (p : NSPoint α) (prev : Option (NSPoint α × NSPoint α)) : Draw α → Draw α
  | line _ => line p
  | curve c d _ => curve (prev.getD (c, d)).2 (prev.getD (c, d)).1 p

end Draw

namespace Stroke

def isClose : Stroke α → Bool
  | draw _ => false
  | close => true

/-- Where a stroke of a block that starts at `start` ends. -/
def point (start : NSPoint α) : Stroke α → NSPoint α
  | draw d => d.point
  | close => start

def controls : Stroke α → Option (NSPoint α × NSPoint α)
  | draw d => d.controls
  | close => none

end Stroke

/-- The element before a stroke: another stroke, or the move of the block. -/
def pointBefore (start : NSPoint α) (prev : Option (Stroke α)) : NSPoint α :=
  (prev.map (Stroke.point start)).getD start

/-- What the loop emits for a stroke. -/
def Stroke.turned (p : NSPoint α) (prev : Option (NSPoint α × NSPoint α)) : Stroke α → List (Stroke α)
  | draw d => [draw (d.turned p prev)]
  | close => []

def turnedStrokes (start : NSPoint α) (prev : Option (Stroke α)) : List (Stroke α) → List (Stroke α)
  | [] => []
  | f :: strokes => turnedStrokes start (some f) strokes ++
      f.turned (pointBefore start prev) (prev.bind Stroke.controls)

/-- What the loop makes of a block. -/
def Block.reversing (b : Block α) : Block α where
  start := pointBefore b.start b.strokes.getLast?
  strokes := turnedStrokes b.start none b.strokes ++ if b.strokes.any Stroke.isClose then [Stroke.close] else []

theorem turnedStrokes_concat (start : NSPoint α) (prev : Option (Stroke α)) (strokes : List (Stroke α)) (f : Stroke α) :
    turnedStrokes start prev (strokes ++ [f]) = f.turned (pointBefore start (strokes.getLast?.or prev))
          ((strokes.getLast?.or prev).bind Stroke.controls) ++ turnedStrokes start prev strokes := by
  induction strokes generalizing prev with
  | nil => simp [turnedStrokes]
  | cons g strokes ih =>
    simp only [List.cons_append, turnedStrokes, ih, List.append_assoc]
    cases strokes with
    | nil => rfl
    | cons x strokes =>
      obtain ⟨y, hy⟩ : ∃ y, (x :: strokes).getLast? = some y :=
        ⟨_, List.getLast?_eq_some_getLast (List.cons_ne_nil x strokes)⟩
      rw [List.getLast?_cons_cons, hy]
      rfl

/-! ## Reading a prefix -/

theorem lastMoveBefore_append (l m : List (PathElement α)) {i : Nat} (hi : i ≤ l.length) :
    lastMoveBefore (l ++ m) i = lastMoveBefore l i := by
  induction i with
  | zero => rfl
  | succ i ih =>
    simp only [lastMoveBefore]
    rw [List.getElem?_append_left (by omega), ih (by omega)]

theorem elementAtIndex_append (l m : List (PathElement α)) {i : Nat} (hi : i < l.length)
    (pts : AssociatedPoints α) : elementAtIndex (l ++ m) i pts = elementAtIndex l i pts := by
  simp only [elementAtIndex]
  rw [List.getElem?_append_left hi, lastMoveBefore_append l m (by omega)]

theorem reverseElements_append (l m : List (PathElement α)) {i : Nat} (hi : i ≤ l.length)
    (s : ReversingLocals α) : reverseElements (l ++ m) i s = reverseElements l i s := by
  induction i generalizing s with
  | zero => rfl
  | succ i ih =>
    simp only [reverseElements]
    rw [elementAtIndex_append l m (by omega)]
    cases elementAtIndex l i s.pts with
    | none => rfl
    | some found => exact ih (by omega) _

/-- The last move of the elements. -/
def lastMove (l : List (PathElement α)) : Option (NSPoint α) := lastMoveBefore l l.length

theorem lastMove_move (l : List (PathElement α)) (p : NSPoint α) : lastMove (l ++ [.moveTo p]) = some p := by
  simp [lastMove, lastMoveBefore]

theorem lastMove_stroke (l : List (PathElement α)) (f : Stroke α) : lastMove (l ++ [f.element]) = lastMove l := by
  have hp := lastMoveBefore_append l [f.element] (Nat.le_refl l.length)
  match f with
  | .close => simpa [lastMove, lastMoveBefore, Stroke.element] using hp
  | .draw (.line p) => simpa [lastMove, lastMoveBefore, Stroke.element] using hp
  | .draw (.curve c d p) => simpa [lastMove, lastMoveBefore, Stroke.element] using hp

theorem lastMove_strokes (l : List (PathElement α)) (start : NSPoint α) (strokes : List (Stroke α)) :
    lastMove (l ++ .moveTo start :: strokes.map Stroke.element) = some start := by
  induction strokes using List.reverseRecOn with
  | nil => exact lastMove_move l start
  | append_singleton strokes f ih =>
    rw [List.map_append, ← List.cons_append, ← List.append_assoc]
    exact (lastMove_stroke _ f).trans ih

/-! ## One turn -/

/-- The loop over all of `l`. -/
def walk (l : List (PathElement α)) (s : ReversingLocals α) : ReversingLocals α :=
  reverseElements l l.length s

/-- The points that the last element of `l ++ [e]` has. -/
def pointsOf (l : List (PathElement α)) (pts : AssociatedPoints α) :
    PathElement α → AssociatedPoints α
  | .moveTo p => { pts with p0 := p }
  | .lineTo p => { pts with p0 := p }
  | .curveTo cp1 cp2 p => ⟨cp1, cp2, p⟩
  | .closePath => { pts with p0 := (lastMove l).getD pts.p0 }

theorem elementAtIndex_last (l : List (PathElement α)) (e : PathElement α) (pts : AssociatedPoints α) :
    elementAtIndex (l ++ [e]) l.length pts = some (e.type, pointsOf l pts e) := by
  unfold elementAtIndex
  rw [List.getElem?_concat_length]
  cases e with
  | closePath =>
    simp only [lastMoveBefore_append l _ (Nat.le_refl _), pointsOf, lastMove]
    cases lastMoveBefore l l.length <;> rfl
  | moveTo p => rfl
  | lineTo p => rfl
  | curveTo c d p => rfl

theorem walk_concat (l : List (PathElement α)) (e : PathElement α) (s : ReversingLocals α) :
    walk (l ++ [e]) s = walk l (s.turn e.type (pointsOf l s.pts e)) := by
  unfold walk
  rw [List.length_append, List.length_singleton, reverseElements, elementAtIndex_last]
  exact reverseElements_append l [e] (Nat.le_refl _) _

/-- The loop has just been at the stroke `f`. -/
structure At (f : Stroke α) (s : ReversingLocals α) : Prop where
  lastType : s.lastType = f.element.type
  controls : ∀ cps, f.controls = some cps → (s.cp1, s.cp2) = cps

/-- `s` goes on to `s'` after emitting `f`. -/
structure Emits (s s' : ReversingLocals α) (f : List (Stroke α)) (closes : Bool) : Prop where
  path : s'.path.pathElements = s.path.pathElements ++ f.map Stroke.element
  closed : s'.closed = (s.closed || closes)

theorem Emits.trans {s s' s'' : ReversingLocals α} {f g : List (Stroke α)} {b c : Bool}
    (h : Emits s s' f b) (h' : Emits s' s'' g c) : Emits s s'' (f ++ g) (b || c) where
  path := by rw [h'.path, h.path, List.map_append, List.append_assoc]
  closed := by rw [h'.closed, h.closed, Bool.or_assoc]

theorem take_path (s : ReversingLocals α) (type : NSBezierPathElement) (pts : AssociatedPoints α) :
    (s.take type pts).path = s.path ∧ (s.take type pts).closed = s.closed ∧
      (s.take type pts).lastType = s.lastType := by
  cases type <;> exact ⟨rfl, rfl, rfl⟩

theorem take_stroke (s : ReversingLocals α) {l : List (PathElement α)} {start : NSPoint α}
    (hl : lastMove l = some start) (g : Stroke α) :
    (s.take g.element.type (pointsOf l s.pts g.element)).p = g.point start ∧
      ((s.take g.element.type (pointsOf l s.pts g.element)).cp1,
        (s.take g.element.type (pointsOf l s.pts g.element)).cp2) = g.controls.getD (s.cp1, s.cp2) := by
  match g with
  | .close => exact ⟨by simp [Stroke.element, PathElement.type, ReversingLocals.take, pointsOf, hl,
      Stroke.point], rfl⟩
  | .draw (.line p) => exact ⟨rfl, rfl⟩
  | .draw (.curve c d p) => exact ⟨rfl, rfl⟩

theorem emit_controls (s : ReversingLocals α) : s.emit.cp1 = s.cp1 ∧ s.emit.cp2 = s.cp2 := by
  unfold ReversingLocals.emit
  cases s.lastType with
  | moveTo => cases s.closed <;> exact ⟨rfl, rfl⟩
  | lineTo => exact ⟨rfl, rfl⟩
  | curveTo => exact ⟨rfl, rfl⟩
  | closePath => exact ⟨rfl, rfl⟩

variable {s : ReversingLocals α} {f : Stroke α}

/-- The second switch, when the loop has just been at `f`. -/
theorem emit_stroke (ht : s.lastType = f.element.type) {prev : Option (NSPoint α × NSPoint α)}
    (hc : ∀ cps, f.controls = some cps → (s.cp1, s.cp2) = prev.getD cps) :
    Emits s s.emit (f.turned s.p prev) f.isClose := by
  match f with
  | .close =>
    simp only [Stroke.element, PathElement.type] at ht
    constructor <;> simp [ReversingLocals.emit, ht, Stroke.turned, Stroke.isClose]
  | .draw (.line p) =>
    simp only [Stroke.element, PathElement.type] at ht
    constructor <;>
      simp [ReversingLocals.emit, ht, Stroke.turned, Draw.turned, Stroke.element, Stroke.isClose,
        NSBezierPath.lineToPoint]
  | .draw (.curve c d p) =>
    simp only [Stroke.element, PathElement.type] at ht
    have h := hc (c, d) rfl
    constructor <;>
      simp [ReversingLocals.emit, ht, Stroke.turned, Draw.turned, Stroke.element, Stroke.isClose,
        NSBezierPath.curveToPoint, ← h]

theorem turn_at_stroke (h : At f s) {l : List (PathElement α)}
    {start : NSPoint α} (hl : lastMove l = some start) (g : Stroke α) :
    Emits s (s.turn g.element.type (pointsOf l s.pts g.element)) (f.turned (g.point start) g.controls) f.isClose ∧
      At g (s.turn g.element.type (pointsOf l s.pts g.element)) := by
  obtain ⟨hpt, hclo, ht⟩ := take_path s g.element.type (pointsOf l s.pts g.element)
  obtain ⟨hp, hc⟩ := take_stroke s hl g
  have he := emit_stroke (f := f) (ht.trans h.lastType) (fun cps hf => by
    rw [hc, h.controls cps hf])
  obtain ⟨hcp1, hcp2⟩ := emit_controls (s.take g.element.type (pointsOf l s.pts g.element))
  refine ⟨⟨?_, ?_⟩, rfl, fun cps hg => ?_⟩
  · rw [← hp, ← hpt]
    exact he.path
  · rw [← hclo]
    exact he.closed
  · simp only [ReversingLocals.turn, hcp1, hcp2, hc, hg, Option.getD_some]

theorem turn_at_move (h : At f s) (l : List (PathElement α)) (start : NSPoint α) :
    Emits s (s.turn .moveTo (pointsOf l s.pts (.moveTo start))) (f.turned start none) f.isClose := by
  let taken := s.take .moveTo (pointsOf l s.pts (.moveTo start))
  have he : Emits taken (taken.emit) (f.turned start none) f.isClose :=
    emit_stroke (s := taken) h.lastType (fun cps hf => h.controls cps hf)
  exact ⟨he.path, he.closed⟩

/-! ## A block -/

theorem walk_strokes (h : At f s) (l : List (PathElement α)) (start : NSPoint α) (strokes : List (Stroke α)) :
    ∃ s', walk (l ++ .moveTo start :: strokes.map Stroke.element) s = walk l s' ∧ s'.lastType = .moveTo ∧
      Emits s s' (turnedStrokes start none (strokes ++ [f])) ((strokes ++ [f]).any Stroke.isClose) := by
  induction strokes using List.reverseRecOn generalizing f s with
  | nil =>
    refine ⟨_, walk_concat l (.moveTo start) s, rfl, ?_⟩
    simpa [turnedStrokes, pointBefore, PathElement.type] using turn_at_move h l start
  | append_singleton strokes g ih =>
    have hl := lastMove_strokes l start strokes
    obtain ⟨he, hat⟩ := turn_at_stroke h hl g
    obtain ⟨s', hw, ht, hr⟩ := ih hat
    refine ⟨s', ?_, ht, ?_⟩
    · rw [← hw, List.map_append, ← List.cons_append, ← List.append_assoc]
      exact walk_concat _ g.element s
    · rw [turnedStrokes_concat, List.getLast?_concat]
      have ha : ((strokes ++ [g]) ++ [f]).any Stroke.isClose = (f.isClose || (strokes ++ [g]).any Stroke.isClose) := by
        rw [List.any_append, Bool.or_comm]
        simp
      rw [ha]
      exact he.trans hr

/-- The elements emitted so far, the pending close among them. -/
def flushed (s : ReversingLocals α) : List (PathElement α) :=
  s.path.pathElements ++ if s.closed then [.closePath] else []

theorem turn_at_boundary (h : s.lastType = .moveTo) (type : NSBezierPathElement) (pts : AssociatedPoints α) :
    (s.turn type pts).path.pathElements = flushed s ++ [.moveTo (s.take type pts).p] ∧
      (s.turn type pts).closed = false := by
  obtain ⟨hp, hc, ht⟩ := take_path s type pts
  unfold ReversingLocals.turn ReversingLocals.emit flushed
  rw [ht, h, hc]
  cases s.closed <;> simp [NSBezierPath.moveToPoint, NSBezierPath.closePath, hp]

theorem flushed_emits {s s' : ReversingLocals α} {f : List (Stroke α)} {c : Bool} (h : Emits s s' f c)
    (hs : s.closed = false) :
    flushed s' = s.path.pathElements ++ (f ++ if c then [Stroke.close] else []).map Stroke.element := by
  unfold flushed
  rw [h.path, h.closed, hs, Bool.false_or]
  cases c <;> simp [Stroke.element]

/-- The loop goes over a whole block. -/
theorem walk_block (h : s.lastType = .moveTo) (l : List (PathElement α)) (b : Block α) :
    ∃ s', walk (l ++ b.elements) s = walk l s' ∧ s'.lastType = .moveTo ∧
      flushed s' = flushed s ++ b.reversing.elements := by
  obtain ⟨start, strokes⟩ := b
  induction strokes using List.reverseRecOn with
  | nil =>
    obtain ⟨hpt, hc⟩ := turn_at_boundary h .moveTo (pointsOf l s.pts (.moveTo start))
    refine ⟨_, walk_concat l (.moveTo start) s, rfl, ?_⟩
    rw [flushed, PathElement.type, hc, hpt]
    simp [Block.reversing, Block.elements, turnedStrokes, pointBefore, ReversingLocals.take, pointsOf]
  | append_singleton strokes f _ =>
    have hl := lastMove_strokes l start strokes
    obtain ⟨hp, hcps⟩ := take_stroke s hl f
    obtain ⟨hpt, hc⟩ := turn_at_boundary h f.element.type
      (pointsOf (l ++ .moveTo start :: strokes.map Stroke.element) s.pts f.element)
    have ha : At f (s.turn f.element.type
        (pointsOf (l ++ .moveTo start :: strokes.map Stroke.element) s.pts f.element)) := by
      obtain ⟨hcp1, hcp2⟩ := emit_controls (s.take f.element.type
        (pointsOf (l ++ .moveTo start :: strokes.map Stroke.element) s.pts f.element))
      refine ⟨rfl, fun cps hf => ?_⟩
      simp only [ReversingLocals.turn, hcp1, hcp2, hcps, hf, Option.getD_some]
    obtain ⟨s', hw, ht, he⟩ := walk_strokes ha l start strokes
    refine ⟨s', ?_, ht, ?_⟩
    · rw [← hw, Block.elements, List.map_append, ← List.cons_append, ← List.append_assoc]
      exact walk_concat _ f.element s
    · rw [flushed_emits he hc, hpt, hp, List.append_assoc]
      simp [Block.reversing, Block.elements, pointBefore]

theorem walk_blocks (h : s.lastType = .moveTo) (blocks : List (Block α)) :
    flushed (walk (blocks.flatMap Block.elements) s) =
      flushed s ++ (blocks.reverse.map Block.reversing).flatMap Block.elements := by
  induction blocks using List.reverseRecOn generalizing s with
  | nil => simp [walk, reverseElements]
  | append_singleton blocks b ih =>
    obtain ⟨s', hw, ht, hf⟩ := walk_block h (blocks.flatMap Block.elements) b
    rw [List.flatMap_append, List.flatMap_singleton, hw, ih ht, hf, List.reverse_append]
    simp

theorem reversingPath_elements (d : Defaults α) (junk : Uninitialised α) (self : NSBezierPath α)
    (blocks : List (Block α)) (h : self.pathElements = blocks.flatMap Block.elements) :
    (bezierPathByReversingPath d junk self).pathElements =
      (blocks.reverse.map Block.reversing).flatMap Block.elements := by
  have hf : ∀ s : ReversingLocals α,
      (if s.closed then s.path.closePath else s.path).pathElements = flushed s := by
    intro s
    cases hc : s.closed <;> simp [flushed, hc]
  have hw := walk_blocks (s := .initial d junk) rfl blocks
  unfold bezierPathByReversingPath NSBezierPath.elementCount
  rw [hf, h]
  exact hw

end GnustepGui.BezierPath
