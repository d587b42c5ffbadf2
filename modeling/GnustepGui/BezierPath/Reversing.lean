import GnustepGui.BezierPath.ReversingLoop
import Mathlib.Algebra.Order.BigOperators.Group.List
import Mathlib.Algebra.Order.Ring.Nat

/-!
# What reversing keeps

The reversed path traces the same segments backwards exactly when the path is `Reversible`: no curve
follows a curve with other control points (the loop has already overwritten `cp1` and `cp2`), every
subpath that is closed ends at its start (the closing line is dropped together with a vertex), and
nothing is drawn right after a close (the two subpaths become one).
-/

namespace GnustepGui.BezierPath

universe u

variable {α : Type u}

/-- Whether the loop keeps what two elements in a row trace, in a subpath that starts at `start`. -/
def PairKept (start : NSPoint α) : PathElement α → PathElement α → Prop
  | .curveTo c d _, .curveTo c' d' _ => c = c' ∧ d = d'
  | .lineTo p, .closePath => p = start
  | .curveTo _ _ p, .closePath => p = start
  | .closePath, .lineTo _ => False
  | .closePath, .curveTo _ _ _ => False
  | _, _ => True

/-- `PairKept` along the elements that follow `e`. -/
def ReversibleFrom (start : NSPoint α) (e : PathElement α) : List (PathElement α) → Prop
  | [] => True
  | .moveTo p :: elements => ReversibleFrom p (.moveTo p) elements
  | f :: elements => PairKept start e f ∧ ReversibleFrom start f elements

/-- A path that does not start with a move traces nothing that could be kept. -/
def Reversible : List (PathElement α) → Prop
  | .moveTo p :: elements => ReversibleFrom p (.moveTo p) elements
  | _ => True

/-! ## Turning the draws of a subpath -/

/-- `turnedStrokes` on draws alone. -/
def turnedDraws (p : NSPoint α) (prev : Option (NSPoint α × NSPoint α)) : List (Draw α) → List (Draw α)
  | [] => []
  | d :: draws => turnedDraws d.point d.controls draws ++ [d.turned p prev]

theorem turnedStrokes_closes (start : NSPoint α) (prev : Option (Stroke α)) (n : Nat) :
    turnedStrokes start prev (simpleStrokes [] n) = [] := by
  induction n generalizing prev with
  | zero => rfl
  | succ n ih => rw [simpleStrokes_close, turnedStrokes, ih]; rfl

theorem turnedStrokes_simple (start : NSPoint α) (prev : Option (Stroke α)) (draws : List (Draw α)) (n : Nat) :
    turnedStrokes start prev (simpleStrokes draws n) =
      (turnedDraws (pointBefore start prev) (prev.bind Stroke.controls) draws).map Stroke.draw := by
  induction draws generalizing prev with
  | nil => exact turnedStrokes_closes start prev n
  | cons d draws ih =>
    rw [simpleStrokes_cons, turnedStrokes, ih, turnedDraws, List.map_append]
    rfl

theorem turnedDraws_length (p : NSPoint α) (prev : Option (NSPoint α × NSPoint α))
    (draws : List (Draw α)) : (turnedDraws p prev draws).length = draws.length := by
  induction draws generalizing p prev with
  | nil => rfl
  | cons d draws ih => simp [turnedDraws, ih]

@[simp] theorem turned_point (p : NSPoint α) (prev : Option (NSPoint α × NSPoint α)) (d : Draw α) :
    (d.turned p prev).point = p := by
  cases d <;> rfl

theorem endOf_turnedDraws (p : NSPoint α) (prev : Option (NSPoint α × NSPoint α)) (draws : List (Draw α)) :
    endOf (endOf p (segmentsFrom p draws))
      (segmentsFrom (endOf p (segmentsFrom p draws)) (turnedDraws p prev draws)) = p := by
  cases draws with
  | nil => rfl
  | cons d draws => simp [turnedDraws, segmentsFrom_append, segmentsFrom, endOf]

/-- Two neighbours do not have control points that differ. -/
def Agree (a b : Option (NSPoint α × NSPoint α)) : Prop :=
  ∀ cps cps', a = some cps → b = some cps' → cps = cps'

theorem segment_turned_iff (p : NSPoint α) (prev : Option (NSPoint α × NSPoint α)) (d : Draw α) :
    (d.turned p prev).segment d.point = (d.segment p).reversed ↔ Agree prev d.controls := by
  cases d with
  | line q => simp [Draw.turned, Draw.segment, Segment.reversed, Draw.point, Agree, Draw.controls]
  | curve c e q =>
    cases prev with
    | none => simp [Draw.turned, Draw.segment, Segment.reversed, Draw.point, Agree]
    | some cps =>
      obtain ⟨c', e'⟩ := cps
      simp [Draw.turned, Draw.segment, Segment.reversed, Draw.point, Agree, Draw.controls, and_comm]

theorem segmentsFrom_turnedDraws_iff (p : NSPoint α) (prev : Option (NSPoint α × NSPoint α)) (draws : List (Draw α)) :
    segmentsFrom (endOf p (segmentsFrom p draws)) (turnedDraws p prev draws) =
        ((segmentsFrom p draws).map Segment.reversed).reverse ↔ (prev :: draws.map Draw.controls).IsChain Agree := by
  induction draws generalizing p prev with
  | nil => simp [turnedDraws, segmentsFrom]
  | cons d draws ih =>
    have he := endOf_turnedDraws d.point d.controls draws
    simp only [segmentsFrom, endOf, Draw.segment_target, turnedDraws, segmentsFrom_append, he,
      List.map_cons, List.reverse_cons]
    rw [List.append_singleton_inj, ih, List.isChain_cons_cons, ← segment_turned_iff p, and_comm]

theorem turnedDraws_controls (p : NSPoint α) (prev : Option (NSPoint α × NSPoint α))
    (draws : List (Draw α)) (h : (prev :: draws.map Draw.controls).IsChain Agree) :
    (turnedDraws p prev draws).map Draw.controls = ((draws.map Draw.controls).map (Option.map Prod.swap)).reverse := by
  induction draws generalizing p prev with
  | nil => rfl
  | cons d draws ih =>
    rw [List.map_cons, List.isChain_cons_cons] at h
    have hd : (d.turned p prev).controls = d.controls.map Prod.swap := by
      cases d with
      | line q => rfl
      | curve c e q =>
        cases prev with
        | none => rfl
        | some cps =>
          obtain rfl := h.1 cps (c, e) rfl rfl
          rfl
    simp [turnedDraws, ih d.point d.controls h.2, hd]

theorem isChain_none_cons (cps : List (Option (NSPoint α × NSPoint α))) :
    (none :: cps).IsChain Agree ↔ cps.IsChain Agree := by
  rw [List.isChain_cons]
  exact and_iff_right fun _ _ _ _ h => nomatch h

theorem agree_turned {p : NSPoint α} {draws : List (Draw α)} (h : (draws.map Draw.controls).IsChain Agree) :
    ((turnedDraws p none draws).map Draw.controls).IsChain Agree := by
  rw [turnedDraws_controls p none draws ((isChain_none_cons _).2 h), List.isChain_reverse, List.isChain_map]
  refine h.imp fun a b hab cps cps' hb ha => ?_
  obtain ⟨x, rfl, rfl⟩ := Option.map_eq_some_iff.1 ha
  obtain ⟨y, rfl, rfl⟩ := Option.map_eq_some_iff.1 hb
  rw [hab x y rfl rfl]

/-! ## What `Reversible` says of a block -/

theorem reversibleFrom_append_move (start : NSPoint α) (e : PathElement α) (strokes : List (Stroke α))
    (p : NSPoint α) (rest : List (PathElement α)) :
    ReversibleFrom start e (strokes.map Stroke.element ++ .moveTo p :: rest) ↔
      ReversibleFrom start e (strokes.map Stroke.element) ∧ ReversibleFrom p (.moveTo p) rest := by
  induction strokes generalizing e with
  | nil => simp [ReversibleFrom]
  | cons f strokes ih =>
    rw [List.map_cons, List.cons_append]
    match f with
    | .close => simp [Stroke.element, ReversibleFrom, ih, and_assoc]
    | .draw (.line q) => simp [Stroke.element, ReversibleFrom, ih, and_assoc]
    | .draw (.curve c d q) => simp [Stroke.element, ReversibleFrom, ih, and_assoc]

/-- The condition for a block. -/
def Block.Reversible (b : Block α) : Prop :=
  ReversibleFrom b.start (.moveTo b.start) (b.strokes.map Stroke.element)

theorem reversibleFrom_blocks (start : NSPoint α) (e : PathElement α) (strokes : List (Stroke α))
    (blocks : List (Block α)) : ReversibleFrom start e (strokes.map Stroke.element ++ blocks.flatMap Block.elements) ↔
      ReversibleFrom start e (strokes.map Stroke.element) ∧ ∀ b ∈ blocks, b.Reversible := by
  induction blocks generalizing start e strokes with
  | nil => simp
  | cons b blocks ih =>
    rw [List.flatMap_cons, Block.elements, List.cons_append, reversibleFrom_append_move, ih]
    simp [Block.Reversible]

theorem reversible_blocks (blocks : List (Block α)) :
    Reversible (blocks.flatMap Block.elements) ↔ ∀ b ∈ blocks, b.Reversible := by
  cases blocks with
  | nil => simp [Reversible]
  | cons b blocks =>
    rw [List.flatMap_cons, Block.elements, List.cons_append, Reversible, reversibleFrom_blocks]
    simp [Block.Reversible]

theorem closes_of_reversible {start : NSPoint α} {strokes : List (Stroke α)}
    (h : ReversibleFrom start .closePath (strokes.map Stroke.element)) : ∃ n, strokes = simpleStrokes [] n := by
  induction strokes with
  | nil => exact ⟨0, rfl⟩
  | cons f strokes ih =>
    match f with
    | .close =>
      obtain ⟨n, rfl⟩ := ih h.2
      exact ⟨n + 1, rfl⟩
    | .draw (.line q) => exact h.1.elim
    | .draw (.curve c d q) => exact h.1.elim

theorem simple_of_reversible {start : NSPoint α} {e : PathElement α} {strokes : List (Stroke α)}
    (h : ReversibleFrom start e (strokes.map Stroke.element)) : ∃ draws n, strokes = simpleStrokes draws n := by
  induction strokes generalizing e with
  | nil => exact ⟨[], 0, rfl⟩
  | cons f strokes ih =>
    match f with
    | .close =>
      obtain ⟨n, rfl⟩ := closes_of_reversible h.2
      exact ⟨[], n + 1, rfl⟩
    | .draw (.line q) =>
      obtain ⟨draws, n, rfl⟩ := ih h.2
      exact ⟨.line q :: draws, n, rfl⟩
    | .draw (.curve c d q) =>
      obtain ⟨draws, n, rfl⟩ := ih h.2
      exact ⟨.curve c d q :: draws, n, rfl⟩

theorem reversibleFrom_closes (start : NSPoint α) (n : Nat) :
    ReversibleFrom start .closePath ((simpleStrokes [] n).map Stroke.element) := by
  induction n with
  | zero => trivial
  | succ n ih => exact ⟨trivial, ih⟩

theorem reversibleFrom_draw (start : NSPoint α) (d : Draw α) (draws : List (Draw α)) (n : Nat) :
    ReversibleFrom start (Stroke.draw d).element ((simpleStrokes draws n).map Stroke.element) ↔
      (d.controls :: draws.map Draw.controls).IsChain Agree ∧
        (n ≠ 0 → endOf d.point (segmentsFrom d.point draws) = start) := by
  induction draws generalizing d with
  | nil =>
    cases n with
    | zero => simp [simpleStrokes, ReversibleFrom]
    | succ n =>
      have hc := reversibleFrom_closes start n
      rw [simpleStrokes_close, List.map_cons]
      cases d <;> simp [Stroke.element, ReversibleFrom, PairKept, hc, segmentsFrom, endOf, Draw.point]
  | cons f draws ih =>
    have hp : PairKept start (Stroke.draw d).element (Stroke.draw f).element ↔ Agree d.controls f.controls := by
      cases d <;> cases f <;> simp [Stroke.element, PairKept, Agree, Draw.controls]
    have hs : ReversibleFrom start (Stroke.draw d).element
          ((Stroke.draw f).element :: (simpleStrokes draws n).map Stroke.element) ↔
        PairKept start (Stroke.draw d).element (Stroke.draw f).element ∧
          ReversibleFrom start (Stroke.draw f).element ((simpleStrokes draws n).map Stroke.element) := by
      cases f <;> rfl
    rw [simpleStrokes_cons, List.map_cons, hs, hp, ih, List.map_cons, List.isChain_cons_cons, and_assoc]
    simp [segmentsFrom, endOf]

theorem reversible_simple (start : NSPoint α) (draws : List (Draw α)) (n : Nat) :
    (⟨start, simpleStrokes draws n⟩ : Block α).Reversible ↔ (draws.map Draw.controls).IsChain Agree ∧
        (n ≠ 0 → endOf start (segmentsFrom start draws) = start) := by
  cases draws with
  | nil =>
    cases n with
    | zero => simp [Block.Reversible, simpleStrokes, ReversibleFrom]
    | succ n =>
      have hc := reversibleFrom_closes start n
      simp [Block.Reversible, simpleStrokes_close, Stroke.element, ReversibleFrom, PairKept, hc, segmentsFrom, endOf]
  | cons d draws =>
    have hs : (⟨start, simpleStrokes (d :: draws) n⟩ : Block α).Reversible ↔
        ReversibleFrom start (Stroke.draw d).element ((simpleStrokes draws n).map Stroke.element) := by
      cases d <;> simp [Block.Reversible, simpleStrokes_cons, Stroke.element, ReversibleFrom, PairKept]
    rw [hs, reversibleFrom_draw]
    simp [segmentsFrom, endOf]

/-! ## A reversed block -/

theorem pointBefore_draws (start : NSPoint α) (draws : List (Draw α)) :
    pointBefore start (simpleStrokes draws 0).getLast? = endOf start (segmentsFrom start draws) := by
  induction draws using List.reverseRecOn with
  | nil => rfl
  | append_singleton draws d _ =>
    simp [simpleStrokes, segmentsFrom_append, segmentsFrom, endOf, pointBefore, Stroke.point]

theorem reversing_simple (start : NSPoint α) (draws : List (Draw α)) (n : Nat) :
    (⟨start, simpleStrokes draws n⟩ : Block α).reversing =
      if n = 0 then ⟨endOf start (segmentsFrom start draws),
        simpleStrokes (turnedDraws start none draws) 0⟩
      else ⟨start, simpleStrokes (turnedDraws start none draws) 1⟩ := by
  have ht := turnedStrokes_simple start none draws n
  cases n with
  | zero =>
    have hc : (simpleStrokes draws 0).any Stroke.isClose = false := by simp [simpleStrokes, Stroke.isClose]
    simp only [Block.reversing, ht, hc, pointBefore_draws, if_true]
    simp [simpleStrokes, pointBefore]
  | succ n =>
    have hc : (simpleStrokes draws (n + 1)).any Stroke.isClose = true := by
      simp [simpleStrokes, Stroke.isClose]
    have hl : (simpleStrokes draws (n + 1)).getLast? = some Stroke.close := by
      simp [simpleStrokes, List.replicate_succ']
    simp only [Block.reversing, ht, hc, hl]
    simp [simpleStrokes, pointBefore, Stroke.point]

theorem turnedStrokes_draws (start : NSPoint α) (prev : Option (Stroke α)) (strokes : List (Stroke α)) :
    ∃ draws : List (Draw α), turnedStrokes start prev strokes = draws.map Stroke.draw := by
  induction strokes generalizing prev with
  | nil => exact ⟨[], rfl⟩
  | cons f strokes ih =>
    obtain ⟨draws, hd⟩ := ih (some f)
    cases f with
    | close => exact ⟨draws, by simp [turnedStrokes, hd, Stroke.turned]⟩
    | draw d =>
      rw [turnedStrokes, hd, Stroke.turned, ← List.map_singleton, ← List.map_append]
      exact ⟨_, rfl⟩

theorem reversing_isSimple (b : Block α) : ∃ draws n, b.reversing = ⟨b.reversing.start, simpleStrokes draws n⟩ := by
  obtain ⟨draws, hd⟩ := turnedStrokes_draws b.start none b.strokes
  cases h : b.strokes.any Stroke.isClose with
  | false => exact ⟨draws, 0, by simp [Block.reversing, hd, h, simpleStrokes]⟩
  | true => exact ⟨draws, 1, by simp [Block.reversing, hd, h, simpleStrokes]⟩

theorem reversible_reversing {b : Block α} (h : b.Reversible) : b.reversing.Reversible := by
  obtain ⟨start, strokes⟩ := b
  obtain ⟨draws, n, rfl⟩ := simple_of_reversible h
  obtain ⟨ha, he⟩ := (reversible_simple start draws n).1 h
  have ht := agree_turned (p := start) ha
  rw [reversing_simple]
  cases n with
  | zero => exact (reversible_simple _ _ _).2 ⟨ht, fun h => absurd rfl h⟩
  | succ n =>
    have hb := endOf_turnedDraws start none draws
    rw [he (Nat.succ_ne_zero n)] at hb
    exact (reversible_simple _ _ _).2 ⟨ht, fun _ => hb⟩

variable [DecidableEq α]

theorem subpaths_simple (start : NSPoint α) (draws : List (Draw α)) (n : Nat) :
    (⟨start, simpleStrokes draws n⟩ : Block α).subpaths =
      [if n = 0 then ⟨start, segmentsFrom start draws, false⟩
        else Subpath.close ⟨start, segmentsFrom start draws, false⟩] := by
  have h := traceFrom_simple (Subpath.startingAt start) rfl draws n
  simpa [Block.subpaths, Subpath.startingAt, Subpath.currentPoint, endOf] using h

theorem reversing_length (b : Block α) : b.reversing.subpaths.length = 1 := by
  obtain ⟨draws, n, h⟩ := reversing_isSimple b
  rw [h, subpaths_simple]
  rfl

theorem close_turnedDraws (start : NSPoint α) (draws : List (Draw α)) :
    Subpath.close ⟨start, segmentsFrom start (turnedDraws start none draws), false⟩ =
      ⟨start, segmentsFrom start (turnedDraws start none draws), true⟩ := by
  have hb : endOf start (segmentsFrom start (turnedDraws start none draws)) = start := by
    cases draws with
    | nil => rfl
    | cons d draws => simp [turnedDraws, segmentsFrom_append, segmentsFrom, endOf]
  exact if_pos hb

theorem reversing_subpaths_simple (start : NSPoint α) (draws : List (Draw α)) (n : Nat) :
    let b : Block α := ⟨start, simpleStrokes draws n⟩
    b.reversing.subpaths = (b.subpaths.map Subpath.reversed).reverse ↔ b.Reversible := by
  have ht := segmentsFrom_turnedDraws_iff start none draws
  rw [isChain_none_cons] at ht
  simp only [reversible_simple, reversing_simple, ← ht, subpaths_simple, List.map_cons, List.map_nil,
    List.reverse_singleton]
  cases n with
  | zero => simp [subpaths_simple, Subpath.reversed, Subpath.currentPoint]
  | succ n =>
    by_cases he : endOf start (segmentsFrom start draws) = start
    · have hc : Subpath.close ⟨start, segmentsFrom start draws, false⟩ =
          ⟨start, segmentsFrom start draws, true⟩ := if_pos he
      simp [subpaths_simple, close_turnedDraws, hc, Subpath.reversed, Subpath.currentPoint, he]
    · have hc : Subpath.close ⟨start, segmentsFrom start draws, false⟩ =
          ⟨start, segmentsFrom start draws ++ [.line (endOf start (segmentsFrom start draws)) start],
            true⟩ := if_neg he
      refine iff_of_false (fun h => ?_) (fun h => he (h.2 (Nat.succ_ne_zero n)))
      -- the closing line has no counterpart
      rw [if_neg (Nat.succ_ne_zero n), if_neg (Nat.succ_ne_zero n), subpaths_simple,
        if_neg Nat.one_ne_zero, close_turnedDraws, hc] at h
      have hl := congrArg (fun t => (t.map fun s => s.segments.length).sum) h
      simp [Subpath.reversed, turnedDraws_length] at hl

theorem reversing_subpaths_iff (b : Block α) :
    b.reversing.subpaths = (b.subpaths.map Subpath.reversed).reverse ↔ b.Reversible := by
  obtain ⟨start, strokes⟩ := b
  have hs : (∃ draws n, strokes = simpleStrokes draws n) → ((⟨start, strokes⟩ : Block α).reversing.subpaths =
          ((⟨start, strokes⟩ : Block α).subpaths.map Subpath.reversed).reverse ↔
        (⟨start, strokes⟩ : Block α).Reversible) := by
    rintro ⟨draws, n, rfl⟩
    exact reversing_subpaths_simple start draws n
  constructor
  · intro h
    have hl := congrArg List.length h
    rw [reversing_length, List.length_reverse, List.length_map] at hl
    exact (hs (simple_of_single (s := .startingAt start) rfl hl.symm)).1 h
  · intro h
    exact (hs (simple_of_reversible h)).2 h

theorem reversed_reversed_of_reversible {b : Block α} (h : b.Reversible) {s : Subpath α}
    (hs : s ∈ b.subpaths) : s.reversed.reversed = s := by
  obtain ⟨start, strokes⟩ := b
  obtain ⟨draws, n, rfl⟩ := simple_of_reversible h
  obtain ⟨-, he⟩ := (reversible_simple start draws n).1 h
  have hb : endOf (endOf start (segmentsFrom start draws))
      ((segmentsFrom start draws).map Segment.reversed).reverse = start := by
    cases draws with
    | nil => rfl
    | cons d draws => simp [segmentsFrom, endOf]
  have hs' : ∃ closed, s = ⟨start, segmentsFrom start draws, closed⟩ := by
    rw [subpaths_simple, List.mem_singleton] at hs
    cases n with
    | zero => exact ⟨false, hs⟩
    | succ n => exact ⟨true, hs.trans (if_pos (he (Nat.succ_ne_zero n)))⟩
  obtain ⟨closed, rfl⟩ := hs'
  simp [Subpath.reversed, Subpath.currentPoint, hb]

/-! ## The path -/

omit [DecidableEq α] in
/-- Two lists put together from pieces agree piece by piece, if no piece is longer on the left. -/
theorem flatMap_congr_iff {β γ : Type u} (l : List β) (f g : β → List γ) (h : ∀ b ∈ l, (f b).length ≤ (g b).length) :
    l.flatMap f = l.flatMap g ↔ ∀ b ∈ l, f b = g b := by
  induction l with
  | nil => simp
  | cons b l ih =>
    rw [List.forall_mem_cons] at h ⊢
    rw [List.flatMap_cons, List.flatMap_cons, ← ih h.2]
    constructor
    · intro heq
      have hr : (l.flatMap f).length ≤ (l.flatMap g).length := by
        rw [List.length_flatMap, List.length_flatMap]
        exact List.sum_le_sum h.2
      have hl := congrArg List.length heq
      rw [List.length_append, List.length_append] at hl
      have hb := h.1
      exact List.append_inj heq (by omega)
    · rintro ⟨hb, hr⟩
      rw [hb, hr]

/-- The reversed path traces the segments of the path backwards, and reversing once more gives the
path's own again. -/
def KeepsSegments (d : Defaults α) (self : NSBezierPath α) : Prop :=
  ∀ t, trace self.pathElements = some t → ∀ junk junk' : Uninitialised α,
    trace (bezierPathByReversingPath d junk self).pathElements = some (t.map Subpath.reversed).reverse ∧
      trace (bezierPathByReversingPath d junk' (bezierPathByReversingPath d junk self)).pathElements = some t

theorem trace_reversing_iff (d : Defaults α) (junk : Uninitialised α) (self : NSBezierPath α)
    (blocks : List (Block α)) (h : self.pathElements = blocks.flatMap Block.elements) :
    trace (bezierPathByReversingPath d junk self).pathElements =
        some ((blocks.flatMap Block.subpaths).map Subpath.reversed).reverse ↔ ∀ b ∈ blocks, b.Reversible := by
  have hr : ((blocks.flatMap Block.subpaths).map Subpath.reversed).reverse =
      blocks.reverse.flatMap fun b => (b.subpaths.map Subpath.reversed).reverse := by
    rw [List.map_flatMap, List.reverse_flatMap]
    rfl
  have hp : ∀ b ∈ blocks.reverse, b.reversing.subpaths.length ≤ (b.subpaths.map Subpath.reversed).reverse.length := by
    intro b _
    rw [reversing_length, List.length_reverse, List.length_map]
    exact List.length_pos_iff.2 b.subpaths_ne_nil
  rw [reversingPath_elements d junk self blocks h, trace_blocks, Option.some_inj, List.flatMap_map, hr,
    flatMap_congr_iff _ _ _ hp]
  simp only [reversing_subpaths_iff, List.mem_reverse]

theorem trace_reversing_twice (d : Defaults α) (junk junk' : Uninitialised α) (self : NSBezierPath α)
    (blocks : List (Block α)) (h : self.pathElements = blocks.flatMap Block.elements)
    (hbl : ∀ b ∈ blocks, b.Reversible) :
    trace (bezierPathByReversingPath d junk' (bezierPathByReversingPath d junk self)).pathElements =
      some (blocks.flatMap Block.subpaths) := by
  have hp := reversingPath_elements d junk self blocks h
  have hon := (trace_reversing_iff d junk self blocks h).2 hbl
  have hr : ∀ b ∈ blocks.reverse.map Block.reversing, b.Reversible := by
    intro b hb
    obtain ⟨c, hc, rfl⟩ := List.mem_map.1 hb
    exact reversible_reversing (hbl c (List.mem_reverse.1 hc))
  rw [hp, trace_blocks, Option.some_inj] at hon
  rw [(trace_reversing_iff d junk' _ _ hp).2 hr, hon, List.map_reverse, List.reverse_reverse,
    List.map_map, Option.some_inj]
  refine (List.map_congr_left fun s hs => ?_).trans (List.map_id _)
  obtain ⟨b, hb, hsb⟩ := List.mem_flatMap.1 hs
  exact reversed_reversed_of_reversible (hbl b hb) hsb

theorem reversible_of_trace_eq_none {elements : List (PathElement α)} (h : trace elements = none) :
    Reversible elements := by
  match elements with
  | [] => trivial
  | .moveTo p :: _ => cases h
  | .lineTo _ :: _ => trivial
  | .curveTo _ _ _ :: _ => trivial
  | .closePath :: _ => trivial

/-- Reversal keeps the segments of a path exactly when the path is `Reversible`. -/
theorem keepsSegments_iff (d : Defaults α) (self : NSBezierPath α) :
    KeepsSegments d self ↔ Reversible self.pathElements := by
  cases htr : trace self.pathElements with
  | none =>
    refine iff_of_true (fun t ht => ?_) (reversible_of_trace_eq_none htr)
    rw [htr] at ht
    cases ht
  | some t =>
    obtain ⟨blocks, hb⟩ := exists_blocks_of_trace htr
    rw [hb, trace_blocks, Option.some_inj] at htr
    rw [hb, reversible_blocks]
    constructor
    · intro h
      let zero : NSPoint α := ⟨d.zero, d.zero⟩
      let junk : Uninitialised α := ⟨⟨zero, zero, zero⟩, zero, zero⟩
      have hk := h _ (hb ▸ trace_blocks blocks) junk junk
      exact (trace_reversing_iff d junk self blocks hb).1 hk.1
    · intro h t' ht' junk junk'
      rw [hb, trace_blocks, Option.some_inj] at ht'
      subst ht'
      exact ⟨(trace_reversing_iff d junk self blocks hb).2 h,
        trace_reversing_twice d junk junk' self blocks hb h⟩

def someDefaults : Defaults Int where
  lineWidth := 1
  flatness := 1
  lineCapStyle := 0
  lineJoinStyle := 0
  miterLimit := 10
  windingRule := 0
  zero := 0

/-- Two sides of a triangle, and the third by closing. -/
def triangle : NSBezierPath Int :=
  (((NSBezierPath.init someDefaults).moveToPoint ⟨0, 0⟩).lineToPoint ⟨1, 0⟩).lineToPoint ⟨0, 1⟩ |>.closePath

/-- Reversing loses a vertex of a triangle that is closed by `closePath`. -/
theorem not_keepsSegments_triangle : ¬ KeepsSegments someDefaults triangle := by
  intro h
  let junk : Uninitialised Int := ⟨⟨⟨0, 0⟩, ⟨0, 0⟩, ⟨0, 0⟩⟩, ⟨0, 0⟩, ⟨0, 0⟩⟩
  have hk := (h _ rfl junk junk).1
  revert hk
  decide

end GnustepGui.BezierPath
