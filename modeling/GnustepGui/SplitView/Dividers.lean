import GnustepGui.SplitView.Adjusting

/-!
# Dividers of a split view

`setPosition:ofDividerAtIndex:` and the dragging of a divider. Both clamp the lengths of the two subviews, and neither
moves what lies on the other side of a clamped one (`dividerKept_iff`).
-/

namespace GnustepGui.NSSplitView

open Plane NSView

attribute [local instance] Numerals.two

section Dividers

variable {K : Type*} [Field K] [LinearOrder K]

def startAlong (isVertical : Bool) (frame : Rect K) : K :=
  if isVertical = false then frame.origin.y else frame.origin.x

def NSUnionRect (a b : Rect K) : Rect K :=
  if a.size.width ≤ 0 ∨ a.size.height ≤ 0 then
    if b.size.width ≤ 0 ∨ b.size.height ≤ 0 then ⟨⟨0, 0⟩, ⟨0, 0⟩⟩ else b
  else if b.size.width ≤ 0 ∨ b.size.height ≤ 0 then a
  else
    let x := min a.origin.x b.origin.x
    let y := min a.origin.y b.origin.y
    ⟨⟨x, y⟩, ⟨max (a.origin.x + a.size.width) (b.origin.x + b.size.width) - x,
      max (a.origin.y + a.size.height) (b.origin.y + b.size.height) - y⟩⟩

/-- A length of at least one. -/
def atLeastOne (length : K) : K :=
  if length < 1 then 1 else length

/-- What the delegate answers where it answers, and where the divider is grabbed. -/
structure Answers (K : Type*) where
  constrainSplitPosition : Option (K → ℕ → K)
  constrainCoordinates : Option (K → K → ℕ → K × K)

/-- The frames, and those that `_adjustSubviews:` leaves where the view has never been displayed. -/
structure Panes (K : Type*) where
  isVertical : Bool
  dividerWidth : K
  frames : List (Rect K)
  neverDisplayedBefore : Bool
  adjusted : List (Rect K)
  delegate : Answers K

namespace Panes

variable (panes : Panes K)

/-- The position that the delegate allows. -/
def constrained (position : K) (dividerIndex : ℕ) : K :=
  match panes.delegate.constrainSplitPosition with
  | some constrain => constrain position dividerIndex
  | none => position

/-! ## `setPosition:ofDividerAtIndex:` -/

/-- `old_position` -/
def oldPosition (r r1 : Rect K) : K :=
  if panes.isVertical = false then (r.origin.y + r.size.height + r1.origin.y) / 2
  else (r.origin.x + r.size.width + r1.origin.x) / 2

/-- The two frames for a position. The horizontal case clamps the first of them again, in place of the second. -/
def positioned (r r1 : Rect K) (position : K) : Rect K × Rect K :=
  let change := position - panes.oldPosition r r1
  if panes.isVertical = false then
    (⟨r.origin, ⟨r.size.width, atLeastOne (atLeastOne (r.size.height + change))⟩⟩,
      ⟨⟨r1.origin.x, r1.origin.y + change⟩, ⟨r1.size.width, r1.size.height - change⟩⟩)
  else
    (⟨r.origin, ⟨atLeastOne (r.size.width + change), r.size.height⟩⟩,
      ⟨⟨r1.origin.x + change, r1.origin.y⟩, ⟨atLeastOne (r1.size.width - change), r1.size.height⟩⟩)

/-- The frames that are set of a subview and the next one. -/
def setFrames (frames : List (Rect K)) (index : ℕ) (new : Rect K × Rect K) : List (Rect K) :=
  (frames.set index (SplitView.setFrame new.1)).set (index + 1) (SplitView.setFrame new.2)

/-- The frames when the divider is moved. -/
def displayed : List (Rect K) :=
  if panes.neverDisplayedBefore then panes.adjusted else panes.frames

def setPosition (position : K) (dividerIndex : ℕ) : List (Rect K) :=
  match panes.displayed[dividerIndex]?, panes.displayed[dividerIndex + 1]? with
  | some r, some r1 =>
    setFrames panes.displayed dividerIndex (panes.positioned r r1 (panes.constrained position dividerIndex))
  | _, _ => panes.frames

/-! ## Dragging -/

/-- The limits of a drag. -/
def limits (bigRect : Rect K) (offset : ℕ) : K × K :=
  let minCoord := startAlong panes.isVertical bigRect + panes.dividerWidth
  let maxCoord := lengthAlong panes.isVertical bigRect + startAlong panes.isVertical bigRect - panes.dividerWidth
  match panes.delegate.constrainCoordinates with
  | some constrain =>
    let (delMin, delMax) := constrain minCoord maxCoord offset
    (if delMin > minCoord then delMin else minCoord, if delMax < maxCoord then delMax else maxCoord)
  | none => (minCoord, maxCoord)

/-- The point that a drag of the pointer reaches: within the limits, and moved by the offset of the grab. -/
def dragPoint (bigRect : Rect K) (offset : ℕ) (grab pointer : K) : K :=
  let p := panes.constrained pointer offset
  let p := if p < (panes.limits bigRect offset).1 then (panes.limits bigRect offset).1 else p
  let p := if p > (panes.limits bigRect offset).2 then (panes.limits bigRect offset).2 else p
  p + grab

/-- `_resize:withOldSplitView:withFrame:fromPoint:withBigRect:divHorizontal:divVertical:`, with the frames of the two
subviews before and after. In the horizontal case the length of the second one is not clamped. -/
def resize (r r1 : Rect K) (p : K) (bigRect : Rect K) : Rect K × Rect K :=
  if panes.isVertical = false then
    let height := atLeastOne (p - bigRect.origin.y - panes.dividerWidth / 2)
    let y := p + panes.dividerWidth / 2
    (⟨r.origin, ⟨r.size.width, height⟩⟩,
      ⟨⟨r1.origin.x, if y < 0 then 0 else y⟩, ⟨r1.size.width, bigRect.size.height - height - panes.dividerWidth⟩⟩)
  else
    let width := atLeastOne (p - bigRect.origin.x - panes.dividerWidth / 2)
    let x := p + panes.dividerWidth / 2
    (⟨r.origin, ⟨width, r.size.height⟩⟩,
      ⟨⟨if x < 0 then 0 else x, r1.origin.y⟩,
        ⟨atLeastOne (bigRect.size.width - width - panes.dividerWidth), r1.size.height⟩⟩)

def drag (dividerIndex : ℕ) (grab pointer : K) : List (Rect K) :=
  match panes.frames[dividerIndex]?, panes.frames[dividerIndex + 1]? with
  | some r, some r1 =>
    let bigRect := NSUnionRect r1 r
    setFrames panes.frames dividerIndex (panes.resize r r1 (panes.dragPoint bigRect dividerIndex grab pointer) bigRect)
  | _, _ => panes.frames

end Panes

/-- A move of a divider. -/
inductive Move (K : Type*) where
  | setPosition (position : K)
  | drag (grab pointer : K)

namespace Move

/-- The frames that a move starts from. -/
def before (panes : Panes K) : Move K → List (Rect K)
  | setPosition _ => panes.displayed
  | drag _ _ => panes.frames

def perform (panes : Panes K) (dividerIndex : ℕ) : Move K → List (Rect K)
  | setPosition position => panes.setPosition position dividerIndex
  | drag grab pointer => panes.drag dividerIndex grab pointer

end Move

/-! ## What is claimed, and where it holds -/

/-- Two frames and the divider fill an interval with room for more than the divider. -/
structure FillInterval (panes : Panes K) (r r1 : Rect K) : Prop where
  thickness : 0 ≤ panes.dividerWidth
  gap : startAlong panes.isVertical r1 =
    startAlong panes.isVertical r + lengthAlong panes.isVertical r + panes.dividerWidth
  room : 2 ≤ lengthAlong panes.isVertical r + lengthAlong panes.isVertical r1

/-- The two frames after a move fill the same interval. -/
structure FillSame (panes : Panes K) (r r1 r' r1' : Rect K) : Prop where
  start : startAlong panes.isVertical r' = startAlong panes.isVertical r
  first : 1 ≤ lengthAlong panes.isVertical r'
  gap : startAlong panes.isVertical r1' =
    startAlong panes.isVertical r' + lengthAlong panes.isVertical r' + panes.dividerWidth
  second : 1 ≤ lengthAlong panes.isVertical r1'
  stop : startAlong panes.isVertical r1' + lengthAlong panes.isVertical r1' =
    startAlong panes.isVertical r1 + lengthAlong panes.isVertical r1

/-- What is claimed of a move. -/
def DividerKept (panes : Panes K) (dividerIndex : ℕ) (frames frames' : List (Rect K)) : Prop :=
  (∀ n, n ≠ dividerIndex → n ≠ dividerIndex + 1 → frames'[n]? = frames[n]?) ∧
    ∀ r r1, frames[dividerIndex]? = some r → frames[dividerIndex + 1]? = some r1 →
      ∃ r' r1', frames'[dividerIndex]? = some r' ∧ frames'[dividerIndex + 1]? = some r1' ∧
        FillSame panes r r1 r' r1'

/-- A divider at this position leaves a length of one on both sides. -/
def FitsPosition (panes : Panes K) (r r1 : Rect K) (position : K) : Prop :=
  startAlong panes.isVertical r + 1 + panes.dividerWidth / 2 ≤ position ∧
    position ≤ startAlong panes.isVertical r1 + lengthAlong panes.isVertical r1 - 1 - panes.dividerWidth / 2

/-- The place of the second subview leaves a length of one on both sides, and the enclosing rectangle starts and ends
with the two subviews, or the length that depends on it is clamped to the one that is left. -/
def FitsPoint (panes : Panes K) (r r1 : Rect K) (p : K) (bigRect : Rect K) : Prop :=
  let place := max 0 (p + panes.dividerWidth / 2)
  let start := startAlong panes.isVertical r
  let stop := startAlong panes.isVertical r1 + lengthAlong panes.isVertical r1
  let first := place - panes.dividerWidth - start
  1 ≤ first ∧ 1 ≤ stop - place ∧
    (first = p - startAlong panes.isVertical bigRect - panes.dividerWidth / 2 ∨
      first = 1 ∧ p - startAlong panes.isVertical bigRect - panes.dividerWidth / 2 < 1) ∧
    (lengthAlong panes.isVertical bigRect = stop - start ∨
      panes.isVertical = true ∧ stop - place = 1 ∧ lengthAlong panes.isVertical bigRect < stop - start)

def Move.Fits (panes : Panes K) (dividerIndex : ℕ) (r r1 : Rect K) : Move K → Prop
  | setPosition position => FitsPosition panes r r1 (panes.constrained position dividerIndex)
  | drag grab pointer =>
    FitsPoint panes r r1 (panes.dragPoint (NSUnionRect r1 r) dividerIndex grab pointer) (NSUnionRect r1 r)

/-! ## The two frames -/

variable [IsStrictOrderedRing K] {panes : Panes K} {r r1 : Rect K}

section

omit [IsStrictOrderedRing K]

theorem atLeastOne_eq (length : K) : atLeastOne length = max 1 length := by
  unfold atLeastOne
  split
  · rename_i h
    exact (max_eq_left h.le).symm
  · rename_i h
    exact (max_eq_right (not_lt.mp h)).symm

theorem one_le_atLeastOne (length : K) : 1 ≤ atLeastOne length := by
  rw [atLeastOne_eq]
  exact le_max_left _ _

theorem clamp_eq (length : K) : (if length < 0 then 0 else length) = max 0 length := by
  split
  · rename_i h
    exact (max_eq_left h.le).symm
  · rename_i h
    exact (max_eq_right (not_lt.mp h)).symm

theorem lengthAlong_setFrame_eq (isVertical : Bool) (frame : Rect K) :
    lengthAlong isVertical (SplitView.setFrame frame) = max 0 (lengthAlong isVertical frame) := by
  unfold lengthAlong SplitView.setFrame nonNegative
  split <;> exact clamp_eq _

/-- What a position gives, along the axis. -/
theorem positioned_spec (panes : Panes K) (r r1 : Rect K) (position : K) :
    let change := position - (startAlong panes.isVertical r + lengthAlong panes.isVertical r +
      startAlong panes.isVertical r1) / 2
    let new := panes.positioned r r1 position
    startAlong panes.isVertical new.1 = startAlong panes.isVertical r ∧
      lengthAlong panes.isVertical new.1 = max 1 (lengthAlong panes.isVertical r + change) ∧
      startAlong panes.isVertical new.2 = startAlong panes.isVertical r1 + change ∧
      (lengthAlong panes.isVertical new.2 = lengthAlong panes.isVertical r1 - change ∨
        lengthAlong panes.isVertical new.2 = 1 ∧ lengthAlong panes.isVertical r1 - change < 1) := by
  unfold Panes.positioned Panes.oldPosition startAlong lengthAlong
  cases panes.isVertical with
  | false =>
    simp only [if_true]
    refine ⟨trivial, ?_, trivial, .inl trivial⟩
    rw [atLeastOne_eq, max_eq_right (one_le_atLeastOne _), atLeastOne_eq]
  | true =>
    simp only [Bool.true_eq_false, if_false]
    refine ⟨trivial, atLeastOne_eq _, trivial, ?_⟩
    rw [atLeastOne]
    split
    · rename_i h
      exact .inr ⟨rfl, h⟩
    · exact .inl rfl

end

theorem fillSame_positioned_iff (hfl : FillInterval panes r r1) (position : K) :
    FillSame panes r r1 (SplitView.setFrame (panes.positioned r r1 position).1)
        (SplitView.setFrame (panes.positioned r r1 position).2) ↔ FitsPosition panes r r1 position := by
  obtain ⟨ht, hg, hr⟩ := hfl
  obtain ⟨hst, hf, hst1, hs⟩ := positioned_spec panes r r1 position
  unfold FitsPosition
  generalize panes.positioned r r1 position = new at hst hf hst1 hs ⊢
  have hst' : startAlong panes.isVertical (SplitView.setFrame new.1) = startAlong panes.isVertical r := hst
  have hst1' : startAlong panes.isVertical (SplitView.setFrame new.2) = _ := hst1
  have hm := le_max_left 1 (lengthAlong panes.isVertical r + (position - (startAlong panes.isVertical r +
    lengthAlong panes.isVertical r + startAlong panes.isVertical r1) / 2))
  have hf' : lengthAlong panes.isVertical (SplitView.setFrame new.1) = _ :=
    (lengthAlong_setFrame_eq _ _).trans ((max_eq_right (zero_le_one.trans (hf ▸ hm))).trans hf)
  have hs' := lengthAlong_setFrame_eq panes.isVertical new.2
  constructor
  · rintro ⟨-, -, hg', ho, hsp⟩
    rw [hst1', hst', hf'] at hg'
    rw [hst1'] at hsp
    have hle := le_max_right 1 (lengthAlong panes.isVertical r + (position - (startAlong panes.isVertical r +
      lengthAlong panes.isVertical r + startAlong panes.isVertical r1) / 2))
    constructor
    · linarith
    · linarith
  · rintro ⟨hlo, hup⟩
    rw [max_eq_right (by linarith)] at hf'
    have hl : lengthAlong panes.isVertical (SplitView.setFrame new.2) = lengthAlong panes.isVertical r1 -
        (position - (startAlong panes.isVertical r + lengthAlong panes.isVertical r +
          startAlong panes.isVertical r1) / 2) := by
      rw [hs']
      rcases hs with hs | ⟨-, hlt⟩
      · rw [hs, max_eq_right (by linarith)]
      · linarith
    refine ⟨hst', ?_, ?_, ?_, ?_⟩
    · rw [hf']
      linarith
    · rw [hst1', hst', hf']
      linarith
    · rw [hl]
      linarith
    · rw [hl, hst1']
      linarith

omit [IsStrictOrderedRing K] in
theorem resize_spec (panes : Panes K) (r r1 : Rect K) (p : K) (bigRect : Rect K) :
    let new := panes.resize r r1 p bigRect
    let length := lengthAlong panes.isVertical bigRect - lengthAlong panes.isVertical new.1 - panes.dividerWidth
    startAlong panes.isVertical new.1 = startAlong panes.isVertical r ∧
      lengthAlong panes.isVertical new.1 = max 1 (p - startAlong panes.isVertical bigRect - panes.dividerWidth / 2) ∧
      startAlong panes.isVertical new.2 = max 0 (p + panes.dividerWidth / 2) ∧
      lengthAlong panes.isVertical new.2 = if panes.isVertical = true then max 1 length else length := by
  unfold Panes.resize startAlong lengthAlong
  cases panes.isVertical with
  | false =>
    simp only [if_true, Bool.false_eq_true, if_false]
    exact ⟨trivial, atLeastOne_eq _, clamp_eq _, trivial⟩
  | true =>
    simp only [Bool.true_eq_false, if_false, if_true]
    exact ⟨trivial, atLeastOne_eq _, clamp_eq _, atLeastOne_eq _⟩

theorem fillSame_resize_iff (hfl : FillInterval panes r r1) (p : K) (bigRect : Rect K) :
    FillSame panes r r1 (SplitView.setFrame (panes.resize r r1 p bigRect).1)
        (SplitView.setFrame (panes.resize r r1 p bigRect).2) ↔ FitsPoint panes r r1 p bigRect := by
  obtain ⟨ht, hg, hrm⟩ := hfl
  obtain ⟨hst, hf, hst1, hs⟩ := resize_spec panes r r1 p bigRect
  unfold FitsPoint
  generalize panes.resize r r1 p bigRect = new at hst hf hst1 hs ⊢
  have hst' : startAlong panes.isVertical (SplitView.setFrame new.1) = startAlong panes.isVertical r := hst
  have hst1' : startAlong panes.isVertical (SplitView.setFrame new.2) = _ := hst1
  have hf' : lengthAlong panes.isVertical (SplitView.setFrame new.1) = _ :=
    (lengthAlong_setFrame_eq _ _).trans ((max_eq_right (zero_le_one.trans (hf ▸ le_max_left _ _))).trans hf)
  have hs' := lengthAlong_setFrame_eq panes.isVertical new.2
  rw [hf] at hs
  dsimp only
  rw [hs] at hs'
  generalize startAlong panes.isVertical bigRect = bigStart at hf' hs' ⊢
  generalize lengthAlong panes.isVertical bigRect = bigLength at hs' ⊢
  generalize max 0 (p + panes.dividerWidth / 2) = place at hst1' ⊢
  generalize hw : p - bigStart - panes.dividerWidth / 2 = wanted at hf' hs' ⊢
  constructor
  · rintro ⟨-, ho, hg', ho', hsp⟩
    rw [hst1', hst', hf'] at hg'
    rw [hst1'] at hsp
    rw [hf'] at ho
    refine ⟨by linarith, by linarith, ?_, ?_⟩
    · rcases lt_or_ge wanted 1 with hlt | hge
      · rw [max_eq_left hlt.le] at hg'
        exact .inr ⟨by linarith, hlt⟩
      · rw [max_eq_right hge] at hg'
        exact .inl (by linarith)
    · rcases lt_or_ge (bigLength - max 1 wanted - panes.dividerWidth) 1 with hlt | hge
      · cases hv : panes.isVertical with
        | false =>
          rw [hv, if_neg Bool.false_ne_true] at hs'
          rw [hv, hs'] at ho'
          exact absurd ho' (not_le.mpr (max_lt zero_lt_one hlt))
        | true =>
          rw [hv, if_pos rfl, max_eq_left hlt.le, max_eq_right zero_le_one] at hs'
          rw [hv] at hsp hg'
          exact .inr ⟨rfl, by linarith, by linarith⟩
      · have hl : lengthAlong panes.isVertical (SplitView.setFrame new.2) =
            bigLength - max 1 wanted - panes.dividerWidth := by
          rw [hs', max_eq_right hge, ite_self, max_eq_right (zero_le_one.trans hge)]
        exact .inl (by linarith)
  · rintro ⟨ho, ho', hp, hl⟩
    have hm : max 1 wanted = place - panes.dividerWidth - startAlong panes.isVertical r := by
      rcases hp with hp | ⟨hp, hlt⟩
      · rw [← hp]
        exact max_eq_right ho
      · rw [hp]
        exact max_eq_left hlt.le
    have hrs : lengthAlong panes.isVertical (SplitView.setFrame new.2) =
        startAlong panes.isVertical r1 + lengthAlong panes.isVertical r1 - place := by
      rcases hl with hl | ⟨hv, hp, hlt⟩
      · have hr : bigLength - max 1 wanted - panes.dividerWidth =
            startAlong panes.isVertical r1 + lengthAlong panes.isVertical r1 - place := by
          linarith
        rw [hs', hr, max_eq_right ho', ite_self, max_eq_right (zero_le_one.trans ho')]
      · have hr : bigLength - max 1 wanted - panes.dividerWidth ≤ 1 := by linarith
        rw [hs', if_pos hv, max_eq_left hr, max_eq_right zero_le_one, hp]
    refine ⟨hst', ?_, ?_, ?_, ?_⟩
    · rw [hf', hm]
      exact ho
    · rw [hst1', hst', hf', hm]
      ring
    · rw [hrs]
      exact ho'
    · rw [hrs, hst1']
      ring

/-! ## The list of frames -/

omit [IsStrictOrderedRing K] in
theorem dividerKept_setFrames_iff {frames : List (Rect K)} {dividerIndex : ℕ} (hr : frames[dividerIndex]? = some r)
    (hr1 : frames[dividerIndex + 1]? = some r1) (new : Rect K × Rect K) :
    DividerKept panes dividerIndex frames (Panes.setFrames frames dividerIndex new) ↔
      FillSame panes r r1 (SplitView.setFrame new.1) (SplitView.setFrame new.2) := by
  have hlt := (List.getElem?_eq_some_iff.mp hr).1
  have hlt1 := (List.getElem?_eq_some_iff.mp hr1).1
  have hf : (Panes.setFrames frames dividerIndex new)[dividerIndex]? = some (SplitView.setFrame new.1) := by
    rw [Panes.setFrames, List.getElem?_set_ne (by omega), List.getElem?_set_self hlt]
  have hs : (Panes.setFrames frames dividerIndex new)[dividerIndex + 1]? = some (SplitView.setFrame new.2) := by
    rw [Panes.setFrames, List.getElem?_set_self (by rwa [List.length_set])]
  constructor
  · rintro ⟨-, h⟩
    obtain ⟨r', r1', hr', hr1', hfl⟩ := h r r1 hr hr1
    rw [hf] at hr'
    rw [hs] at hr1'
    rwa [Option.some.inj hr', Option.some.inj hr1']
  · intro hfl
    refine ⟨fun n hn hn1 => ?_, fun r₀ r1₀ hr₀ hr1₀ => ⟨_, _, hf, hs, ?_⟩⟩
    · rw [Panes.setFrames, List.getElem?_set_ne (Ne.symm hn1), List.getElem?_set_ne (Ne.symm hn)]
    · obtain rfl := Option.some.inj (hr.symm.trans hr₀)
      obtain rfl := Option.some.inj (hr1.symm.trans hr1₀)
      exact hfl

/-- A move keeps the tiling if, and only if, the position that it comes to fits. -/
theorem dividerKept_iff (panes : Panes K) (dividerIndex : ℕ) (move : Move K) (r r1 : Rect K)
    (hr : (move.before panes)[dividerIndex]? = some r) (hr1 : (move.before panes)[dividerIndex + 1]? = some r1)
    (hfill : FillInterval panes r r1) :
    DividerKept panes dividerIndex (move.before panes) (move.perform panes dividerIndex) ↔
      move.Fits panes dividerIndex r r1 := by
  cases move with
  | setPosition position =>
    rw [Move.before] at hr hr1
    rw [Move.perform, Panes.setPosition, hr, hr1, Move.before]
    exact (dividerKept_setFrames_iff hr hr1 _).trans (fillSame_positioned_iff hfill _)
  | drag grab pointer =>
    rw [Move.before] at hr hr1
    rw [Move.perform, Panes.drag, hr, hr1, Move.before]
    exact (dividerKept_setFrames_iff hr hr1 _).trans (fillSame_resize_iff hfill _ _)

end Dividers

/-- Two subviews of height 10 with a divider of thickness 1. -/
def twoPanes : Panes ℚ :=
  ⟨false, 1, [⟨⟨0, 0⟩, ⟨5, 10⟩⟩, ⟨⟨0, 11⟩, ⟨5, 10⟩⟩], false, [], ⟨none, none⟩⟩

theorem twoPanes_fill : FillInterval twoPanes ⟨⟨0, 0⟩, ⟨5, 10⟩⟩ ⟨⟨0, 11⟩, ⟨5, 10⟩⟩ := by
  constructor <;> norm_num [twoPanes, startAlong, lengthAlong]

theorem dividerKept_twoPanes : DividerKept twoPanes 0 twoPanes.frames (twoPanes.setPosition 5 0) := by
  refine (dividerKept_iff twoPanes 0 (.setPosition 5) _ _ rfl rfl twoPanes_fill).mpr ⟨?_, ?_⟩ <;>
    norm_num [twoPanes, startAlong, lengthAlong, Panes.constrained]

/-- A position at the top clamps the first subview to a height of 1, and leaves the second one below the divider. -/
theorem not_dividerKept_twoPanes : ¬ ∀ (panes : Panes ℚ) (dividerIndex : ℕ) (move : Move ℚ) (r r1 : Rect ℚ),
    (move.before panes)[dividerIndex]? = some r → (move.before panes)[dividerIndex + 1]? = some r1 →
      FillInterval panes r r1 →
        DividerKept panes dividerIndex (move.before panes) (move.perform panes dividerIndex) := by
  intro h
  obtain ⟨-, hk⟩ := h twoPanes 0 (.setPosition 0) _ _ rfl rfl twoPanes_fill
  obtain ⟨r', r1', hr', hr1', hs⟩ := hk _ _ rfl rfl
  have hf2 : (Move.setPosition 0).perform twoPanes 0 = [⟨⟨0, 0⟩, ⟨5, 1⟩⟩, ⟨⟨0, 1 / 2⟩, ⟨5, 41 / 2⟩⟩] := by
    decide +kernel
  rw [hf2] at hr' hr1'
  obtain rfl := Option.some.inj hr'
  obtain rfl := Option.some.inj hr1'
  have hg := hs.gap
  norm_num [twoPanes, startAlong, lengthAlong] at hg

end GnustepGui.NSSplitView
