import GnustepGui.View.Bounds

/-!
# Layout of a split view

`adjustSubviews` of `NSSplitView`, with exact arithmetic and no alignment to pixels. The shares of the subviews that
are adjusted are shares of all the space, that of the fixed ones included (`laidOut_iff`).
-/

namespace GnustepGui.NSSplitView

open Plane NSView

/-- A subview and what the delegate answers for it. -/
structure Subview (K : Type*) where
  frame : Rect K
  shouldAdjust : Bool

/-- The bounds are at the origin. There are saved proportions where the view has an autosave name. -/
structure SplitView (K : Type*) where
  isVertical : Bool
  bounds : Size K
  dividerWidth : K
  subviews : List (Subview K)
  saved : Option (List K)

section Adjusting

variable {K : Type*} [Field K] [LinearOrder K]

/-- The height of a frame, or its width. -/
def lengthAlong (isVertical : Bool) (frame : Rect K) : K :=
  if isVertical = false then frame.size.height else frame.size.width

namespace SplitView

variable (split : SplitView K)

def boundsLength : K :=
  if split.isVertical = false then split.bounds.height else split.bounds.width

def length (sub : Subview K) : K :=
  lengthAlong split.isVertical sub.frame

def oldTotal : K :=
  (split.subviews.map split.length).sum

/-- The saved proportions, or the shares of the total. -/
def proportions : List K :=
  match split.saved with
  | some proportions => proportions
  | none => split.subviews.dropLast.map fun sub => split.length sub / split.oldTotal

def proportionsTotal : K :=
  (split.subviews.dropLast.zip split.proportions).foldl
    (fun total (sub, proportion) => if sub.shouldAdjust then total else total - proportion) 1

def newTotal : K :=
  split.boundsLength - split.dividerWidth * ((split.subviews.length - 1 : ℕ) : K)

/-- The new length of a subview that is not the last, where it is a number. -/
def newLength (sub : Subview K) (proportion : K) : Option K :=
  if sub.shouldAdjust then
    if split.proportionsTotal = 0 then none else some (proportion / split.proportionsTotal * split.newTotal)
  else some (split.length sub)

def newRect (running newLength : K) : Rect K :=
  if split.isVertical = false then ⟨⟨0, running⟩, ⟨split.bounds.width, newLength⟩⟩
  else ⟨⟨running, 0⟩, ⟨newLength, split.bounds.height⟩⟩

/-- The frame that `setFrame:` leaves. -/
def setFrame (frameRect : Rect K) : Rect K :=
  ⟨frameRect.origin, nonNegative frameRect.size⟩

/-- The loop over the subviews. -/
def adjust (running : K) : List (Subview K) → List K → Option (List (Rect K))
  | [], _ => some []
  | [_], _ => some [setFrame (split.newRect running (split.boundsLength - running))]
  | sub :: subs, proportion :: proportions => do
    let newLength ← split.newLength sub proportion
    let frames ← adjust (running + (newLength + split.dividerWidth)) subs proportions
    some (setFrame (split.newRect running newLength) :: frames)
  | _ :: _ :: _, [] => none

def adjustSubviews : Option (List (Rect K)) :=
  split.adjust 0 split.subviews split.proportions

/-! ## What is claimed, and where it holds -/

/-- Rectangles of these lengths one after another, with dividers between them. -/
def stack (running : K) : List K → List (Rect K)
  | [] => []
  | length :: lengths => split.newRect running length :: stack (running + (length + split.dividerWidth)) lengths

/-- Frames that fill the bounds in their order. -/
structure Fills (frames : List (Rect K)) : Prop where
  order : frames = split.stack 0 (frames.map (lengthAlong split.isVertical))
  nonneg : ∀ frame ∈ frames, 0 ≤ lengthAlong split.isVertical frame
  total : (frames.map (lengthAlong split.isVertical)).sum + split.dividerWidth * ((frames.length - 1 : ℕ) : K) =
    split.boundsLength

/-- The subview at this index keeps its size. -/
def IsFixed (n : ℕ) (sub : Subview K) : Prop :=
  n + 1 < split.subviews.length ∧ sub.shouldAdjust = false

/-- The total of the subviews that are fixed. -/
def fixedTotal : K :=
  ((split.subviews.dropLast.filter (!·.shouldAdjust)).map split.length).sum

/-- What is claimed of the new frames. -/
structure LaidOut (frames : List (Rect K)) : Prop where
  fills : split.Fills frames
  kept : ∀ n sub frame, split.subviews[n]? = some sub → frames[n]? = some frame → split.IsFixed n sub →
    lengthAlong split.isVertical frame = split.length sub
  proportional : ∀ n sub frame, split.subviews[n]? = some sub → frames[n]? = some frame → ¬ split.IsFixed n sub →
    lengthAlong split.isVertical frame * (split.oldTotal - split.fixedTotal) =
      split.length sub * (split.newTotal - split.fixedTotal)
  unchanged : split.Fills (split.subviews.map Subview.frame) → frames = split.subviews.map Subview.frame

/-- Lengths that are not negative, with a positive total, and room for what is fixed and the dividers. -/
structure Suitable : Prop where
  saved : split.saved = none
  bounds : 0 ≤ split.bounds.width ∧ 0 ≤ split.bounds.height
  nonneg : ∀ sub ∈ split.subviews, 0 ≤ split.length sub
  total : 0 < split.oldTotal
  room : split.fixedTotal ≤ split.newTotal

/-- The fixed subviews have no length, or the others but the last have none. -/
def SharesFit : Prop :=
  split.fixedTotal = 0 ∨
    (∀ sub ∈ split.subviews.dropLast, sub.shouldAdjust = true → split.length sub = 0) ∧
      ((∃ sub ∈ split.subviews.dropLast, sub.shouldAdjust = true) → split.oldTotal ≠ split.fixedTotal)

/-! ## The loop -/

variable {split} {init : List (Subview K)}

theorem adjust_cons {sub : Subview K} {subs : List (Subview K)} (hs : subs ≠ []) (running proportion : K)
    (proportions : List K) : split.adjust running (sub :: subs) (proportion :: proportions) =
      (split.newLength sub proportion).bind fun newLength =>
        (split.adjust (running + (newLength + split.dividerWidth)) subs proportions).map fun frames =>
          setFrame (split.newRect running newLength) :: frames := by
  cases subs with
  | nil => exact absurd rfl hs
  | cons sub' subs =>
    rw [adjust]
    · cases split.newLength sub proportion with
      | none => rfl
      | some newLength =>
        simp only [Option.bind_eq_bind, Option.bind_some]
        exact (Option.map_eq_bind ..).symm
    · nofun

/-- Where all lengths are numbers, the frames are stacked, the last one with the rest of the bounds. -/
theorem adjust_eq_some (last : Subview K) {proportion newLength : Subview K → K}
    (hn : ∀ sub ∈ init, split.newLength sub (proportion sub) = some (newLength sub)) (running : K) :
    split.adjust running (init ++ [last]) (init.map proportion) = some ((split.stack running (init.map newLength ++
        [split.boundsLength - (running + ((init.map newLength).sum + split.dividerWidth * (init.length : K)))])).map
          setFrame) := by
  induction init generalizing running with
  | nil => simp [adjust, stack]
  | cons sub init ih =>
    obtain ⟨hs, hin⟩ := List.forall_mem_cons.mp hn
    rw [List.cons_append, List.map_cons, adjust_cons (List.append_ne_nil_of_right_ne_nil _ (List.cons_ne_nil _ _)), hs, Option.bind_some,
      ih hin, Option.map_some, List.map_cons, List.cons_append, stack, List.map_cons, List.sum_cons, List.length_cons]
    have hr : running + (newLength sub + split.dividerWidth) +
        ((init.map newLength).sum + split.dividerWidth * (init.length : K)) =
          running + (newLength sub + (init.map newLength).sum + split.dividerWidth * ((init.length + 1 : ℕ) : K)) := by
      push_cast
      ring
    rw [hr]

theorem adjust_eq_none (last : Subview K) {proportion : Subview K → K}
    (hn : ∃ sub ∈ init, split.newLength sub (proportion sub) = none) (running : K) : split.adjust running (init ++ [last]) (init.map proportion) = none := by
  induction init generalizing running with
  | nil => exact absurd hn (by simp)
  | cons sub init ih =>
    rw [List.cons_append, List.map_cons, adjust_cons (List.append_ne_nil_of_right_ne_nil _ (List.cons_ne_nil _ _))]
    cases hs : split.newLength sub (proportion sub) with
    | none => rfl
    | some newLength =>
      have hin : ∃ sub ∈ init, split.newLength sub (proportion sub) = none := by
        obtain ⟨sub', hm, hn'⟩ := hn
        rcases List.mem_cons.mp hm with rfl | hm
        · exact absurd (hs.symm.trans hn') nofun
        · exact ⟨sub', hm, hn'⟩
      rw [Option.bind_some, ih hin, Option.map_none]

theorem lengthAlong_setFrame (running length : K) :
    lengthAlong split.isVertical (setFrame (split.newRect running length)) = if length < 0 then 0 else length := by
  unfold lengthAlong newRect
  split <;> rfl

theorem lengths_stack (split : SplitView K) (running : K) (lengths : List K) :
    ((split.stack running lengths).map setFrame).map (lengthAlong split.isVertical) =
      lengths.map fun length => if length < 0 then 0 else length := by
  induction lengths generalizing running with
  | nil => rfl
  | cons length lengths ih => rw [stack, List.map_cons, List.map_cons, List.map_cons, ih, lengthAlong_setFrame]

theorem stack_setFrame (hb : 0 ≤ split.bounds.width ∧ 0 ≤ split.bounds.height) {lengths : List K}
    (hn : ∀ length ∈ lengths, 0 ≤ length) (running : K) :
    (split.stack running lengths).map setFrame = split.stack running lengths := by
  induction lengths generalizing running with
  | nil => rfl
  | cons length lengths ih =>
    obtain ⟨hl, hln⟩ := List.forall_mem_cons.mp hn
    rw [stack, List.map_cons, ih hln]
    congr 1
    unfold newRect setFrame nonNegative
    split
    · rw [if_neg (not_lt.mpr hb.1), if_neg (not_lt.mpr hl)]
    · rw [if_neg (not_lt.mpr hl), if_neg (not_lt.mpr hb.2)]

/-! ## The shares -/

section Shares

variable [IsStrictOrderedRing K]

section

omit [LinearOrder K] [IsStrictOrderedRing K]

theorem foldl_proportions (subs : List (Subview K)) (proportion : Subview K → K) (total : K) :
    (subs.zip (subs.map proportion)).foldl
        (fun total (sub, proportion) => if sub.shouldAdjust then total else total - proportion) total =
      total - ((subs.filter (!·.shouldAdjust)).map proportion).sum := by
  induction subs generalizing total with
  | nil => simp
  | cons sub subs ih =>
    rw [List.map_cons, List.zip_cons_cons, List.foldl_cons, ih]
    cases ha : sub.shouldAdjust with
    | true => simp [ha]
    | false =>
      simp only [ha, Bool.not_false, List.filter_cons_of_pos, List.map_cons, List.sum_cons, Bool.false_eq_true,
        if_false]
      ring

theorem proportionsTotal_eq (hs : split.saved = none) (ht : split.oldTotal ≠ 0) :
    split.proportionsTotal = (split.oldTotal - split.fixedTotal) / split.oldTotal := by
  rw [proportionsTotal, proportions, hs]
  dsimp only
  rw [foldl_proportions, sub_div, div_self ht, fixedTotal]
  congr 1
  simp only [div_eq_mul_inv, List.sum_map_mul_right]

end

/-- The length that the code gives to a subview that is not the last. -/
def share (split : SplitView K) (sub : Subview K) : K :=
  if sub.shouldAdjust then split.length sub * split.newTotal / (split.oldTotal - split.fixedTotal)
  else split.length sub

omit [IsStrictOrderedRing K] in
theorem newLength_eq (hs : split.saved = none) (ht : split.oldTotal ≠ 0) {sub : Subview K}
    (hr : sub.shouldAdjust = true → split.oldTotal ≠ split.fixedTotal) :
    split.newLength sub (split.length sub / split.oldTotal) = some (split.share sub) := by
  unfold newLength share
  split
  · rename_i ha
    have hne := sub_ne_zero.mpr (hr ha)
    rw [proportionsTotal_eq hs ht, if_neg (div_ne_zero hne ht)]
    congr 1
    field_simp
  · rfl

section

omit [LinearOrder K] [IsStrictOrderedRing K]

theorem sum_length (subs : List (Subview K)) : (subs.map split.length).sum =
    ((subs.filter (·.shouldAdjust)).map split.length).sum + ((subs.filter (!·.shouldAdjust)).map split.length).sum := by
  induction subs with
  | nil => simp
  | cons sub subs ih =>
    cases ha : sub.shouldAdjust with
    | true =>
      simp only [ha, List.map_cons, List.sum_cons, List.filter_cons_of_pos, Bool.not_true, Bool.false_eq_true,
        not_false_eq_true, List.filter_cons_of_neg, ih]
      ring
    | false =>
      simp only [ha, List.map_cons, List.sum_cons, List.filter_cons_of_pos, Bool.not_false, Bool.false_eq_true,
        not_false_eq_true, List.filter_cons_of_neg, ih]
      ring

theorem sum_share (subs : List (Subview K)) : (subs.map split.share).sum =
    ((subs.filter (·.shouldAdjust)).map split.length).sum * split.newTotal / (split.oldTotal - split.fixedTotal) +
      ((subs.filter (!·.shouldAdjust)).map split.length).sum := by
  induction subs with
  | nil => simp
  | cons sub subs ih =>
    cases ha : sub.shouldAdjust with
    | true =>
      simp only [ha, List.map_cons, List.sum_cons, List.filter_cons_of_pos, Bool.not_true, Bool.false_eq_true,
        not_false_eq_true, List.filter_cons_of_neg, ih, share, if_true]
      ring
    | false =>
      simp only [ha, List.map_cons, List.sum_cons, List.filter_cons_of_pos, Bool.not_false, Bool.false_eq_true,
        not_false_eq_true, List.filter_cons_of_neg, ih, share, if_false]
      ring

end

/-- The lengths of all subviews, where the code can give them. -/
def newLengths (split : SplitView K) : List K :=
  split.subviews.dropLast.map split.share ++
    [split.newTotal - (split.subviews.dropLast.map split.share).sum]

omit [IsStrictOrderedRing K] in
theorem adjustSubviews_eq (hs : split.saved = none) (ht : split.oldTotal ≠ 0)
    (hr : (∃ sub ∈ split.subviews.dropLast, sub.shouldAdjust = true) → split.oldTotal ≠ split.fixedTotal) :
    split.adjustSubviews = some ((split.stack 0 split.newLengths).map setFrame) := by
  have hne : split.subviews ≠ [] := by
    intro hn
    exact ht (by rw [oldTotal, hn]; rfl)
  have hnew : ∀ sub ∈ split.subviews.dropLast,
      split.newLength sub (split.length sub / split.oldTotal) = some (split.share sub) :=
    fun sub hsub => newLength_eq hs ht fun ha => hr ⟨sub, hsub, ha⟩
  have hl := adjust_eq_some (split.subviews.getLast hne) hnew 0
  rw [List.dropLast_append_getLast] at hl
  rw [adjustSubviews, proportions, hs]
  dsimp only
  rw [hl, newLengths, newTotal, List.length_dropLast, zero_add, sub_add_eq_sub_sub_swap]

omit [IsStrictOrderedRing K] in
theorem adjustSubviews_eq_none (hs : split.saved = none) (ht : split.oldTotal ≠ 0)
    (ha : ∃ sub ∈ split.subviews.dropLast, sub.shouldAdjust = true) (hr : split.oldTotal = split.fixedTotal) :
    split.adjustSubviews = none := by
  have hne : split.subviews ≠ [] := by
    intro hn
    exact ht (by rw [oldTotal, hn]; rfl)
  have hz : split.proportionsTotal = 0 := by rw [proportionsTotal_eq hs ht, hr, sub_self, zero_div]
  have hnn : ∃ sub ∈ split.subviews.dropLast, split.newLength sub (split.length sub / split.oldTotal) = none := by
    obtain ⟨sub, hsub, ha⟩ := ha
    exact ⟨sub, hsub, by rw [newLength, if_pos ha, if_pos hz]⟩
  have hl := adjust_eq_none (split.subviews.getLast hne) hnn 0
  rw [List.dropLast_append_getLast] at hl
  rw [adjustSubviews, proportions, hs]
  exact hl

/-! ## The lengths -/

variable {last : Subview K}

section

omit [LinearOrder K] [IsStrictOrderedRing K]

theorem oldTotal_eq (hs : split.subviews = init ++ [last]) : split.oldTotal =
    ((init.filter (·.shouldAdjust)).map split.length).sum + split.fixedTotal + split.length last := by
  rw [oldTotal, fixedTotal, hs, List.dropLast_concat, List.map_append, List.sum_append, sum_length init]
  simp

theorem newLengths_eq (hs : split.subviews = init ++ [last]) : split.newLengths = init.map split.share ++
    [split.newTotal - split.fixedTotal - ((init.filter (·.shouldAdjust)).map split.length).sum * split.newTotal /
      (split.oldTotal - split.fixedTotal)] := by
  have hf : split.fixedTotal = ((init.filter (!·.shouldAdjust)).map split.length).sum := by
    rw [fixedTotal, hs, List.dropLast_concat]
  rw [newLengths, hs, List.dropLast_concat, sum_share, ← hf]
  congr 2
  ring

end

/-- What is asked of the lengths: those of the subviews that are not fixed are their shares of the rest. -/
structure Shared (split : SplitView K) : Prop where
  nonneg : ∀ length ∈ split.newLengths, 0 ≤ length
  share : ∀ n sub length, split.subviews[n]? = some sub → split.newLengths[n]? = some length →
    ¬ split.IsFixed n sub →
      length * (split.oldTotal - split.fixedTotal) = split.length sub * (split.newTotal - split.fixedTotal)
  unchanged : split.newTotal = split.oldTotal → split.newLengths = split.subviews.map split.length

theorem adjusted_nonneg (h : split.Suitable) (hs : split.subviews = init ++ [last]) :
    0 ≤ ((init.filter (·.shouldAdjust)).map split.length).sum :=
  List.sum_nonneg fun _ hx => by
    obtain ⟨sub, hm, rfl⟩ := List.mem_map.mp hx
    exact h.nonneg sub (hs ▸ List.mem_append_left _ (List.mem_of_mem_filter hm))

theorem fixedTotal_nonneg (h : split.Suitable) : 0 ≤ split.fixedTotal :=
  List.sum_nonneg fun _ hx => by
    obtain ⟨sub, hm, rfl⟩ := List.mem_map.mp hx
    exact h.nonneg sub (List.dropLast_subset _ (List.mem_of_mem_filter hm))

/-- The lengths where the condition on the shares holds. -/
theorem newLengths_of_fit (h : split.Suitable) (hs : split.subviews = init ++ [last]) (hf : split.SharesFit) :
    (∀ sub ∈ init, sub.shouldAdjust = true → split.share sub * (split.oldTotal - split.fixedTotal) =
        split.length sub * (split.newTotal - split.fixedTotal) ∧ 0 ≤ split.share sub ∧
          (split.newTotal = split.oldTotal → split.share sub = split.length sub)) ∧
      ∃ rest, split.newLengths = init.map split.share ++ [rest] ∧ 0 ≤ rest ∧
        rest * (split.oldTotal - split.fixedTotal) = split.length last * (split.newTotal - split.fixedTotal) ∧
        (split.newTotal = split.oldTotal → rest = split.length last) := by
  have ht := oldTotal_eq hs
  have hls : 0 ≤ split.length last := h.nonneg last (hs ▸ List.mem_append_right _ (List.mem_singleton_self _))
  have hr := h.room
  have hn : 0 ≤ split.newTotal := (fixedTotal_nonneg h).trans hr
  rcases hf with hfx | ⟨hz, -⟩
  · have hT := h.total
    rw [hfx, add_zero] at ht
    constructor
    · intro sub hm ha
      have hl := h.nonneg sub (hs ▸ List.mem_append_left _ hm)
      have hsh : split.share sub = split.length sub * split.newTotal / split.oldTotal := by
        rw [share, if_pos ha, hfx, sub_zero]
      rw [hsh, hfx, sub_zero, sub_zero]
      refine ⟨div_mul_cancel₀ _ hT.ne', div_nonneg (mul_nonneg hl hn) hT.le, fun hsm => ?_⟩
      rw [hsm, mul_div_cancel_right₀ _ hT.ne']
    · have hrs : split.newTotal - split.fixedTotal - ((init.filter (·.shouldAdjust)).map split.length).sum *
          split.newTotal / (split.oldTotal - split.fixedTotal) = split.length last * split.newTotal / split.oldTotal := by
        rw [hfx, sub_zero, sub_zero, eq_div_iff hT.ne', sub_mul, div_mul_cancel₀ _ hT.ne', ht]
        ring
      refine ⟨_, newLengths_eq hs, ?_⟩
      rw [hrs, hfx, sub_zero, sub_zero]
      refine ⟨div_nonneg (mul_nonneg hls hn) hT.le, div_mul_cancel₀ _ hT.ne', fun hsm => ?_⟩
      rw [hsm, mul_div_cancel_right₀ _ hT.ne']
  · rw [hs, List.dropLast_concat] at hz
    have had : ((init.filter (·.shouldAdjust)).map split.length).sum = 0 := by
      refine List.sum_eq_zero fun _ hx => ?_
      obtain ⟨sub, hm, rfl⟩ := List.mem_map.mp hx
      exact hz sub (List.mem_of_mem_filter hm) (by simpa using List.of_mem_filter hm)
    rw [had, zero_add] at ht
    constructor
    · intro sub hm ha
      have hsh : split.share sub = 0 := by rw [share, if_pos ha, hz sub hm ha, zero_mul, zero_div]
      rw [hsh, hz sub hm ha, zero_mul, zero_mul]
      exact ⟨rfl, le_rfl, fun _ => rfl⟩
    · refine ⟨_, newLengths_eq hs, ?_⟩
      rw [had, zero_mul, zero_div, sub_zero]
      refine ⟨sub_nonneg.mpr hr, ?_, fun hsm => ?_⟩
      · rw [ht, add_sub_cancel_left, mul_comm]
      · rw [hsm, ht, add_sub_cancel_left]

theorem shared_of_fit (h : split.Suitable) (hs : split.subviews = init ++ [last]) (hf : split.SharesFit) :
    split.Shared := by
  obtain ⟨hin, rest, hln, hr, hp, hsm⟩ := newLengths_of_fit h hs hf
  have hsh (sub : Subview K) (hm : sub ∈ init) : 0 ≤ split.share sub := by
    cases ha : sub.shouldAdjust with
    | true => exact (hin sub hm ha).2.1
    | false =>
      rw [share, ha, if_neg Bool.false_ne_true]
      exact h.nonneg sub (hs ▸ List.mem_append_left _ hm)
  refine ⟨fun length hl => ?_, fun n sub length hn hl hfx => ?_, fun ht => ?_⟩
  · rw [hln, List.mem_append, List.mem_map, List.mem_singleton] at hl
    rcases hl with ⟨sub, hm, rfl⟩ | rfl
    · exact hsh sub hm
    · exact hr
  · rw [hs] at hn
    rw [hln] at hl
    rcases Nat.lt_or_ge n init.length with hlt | hge
    · rw [List.getElem?_append_left hlt] at hn
      rw [List.getElem?_append_left (by rwa [List.length_map]), List.getElem?_map, hn, Option.map_some,
        Option.some.injEq] at hl
      rw [← hl]
      refine (hin sub (List.mem_of_getElem? hn) ?_).1
      rw [IsFixed, hs, List.length_append, List.length_singleton] at hfx
      cases ha : sub.shouldAdjust with
      | true => rfl
      | false => exact absurd ⟨by omega, ha⟩ hfx
    · rw [List.getElem?_append_right hge] at hn
      rw [List.getElem?_append_right (by rwa [List.length_map]), List.length_map] at hl
      rw [List.getElem?_singleton] at hn hl
      split at hn
      · rename_i hi
        rw [if_pos hi] at hl
        obtain rfl := Option.some.inj hn
        obtain rfl := Option.some.inj hl
        exact hp
      · exact absurd hn nofun
  · rw [hln, hs, List.map_append, List.map_singleton, hsm ht]
    congr 1
    refine List.map_congr_left fun sub hm => ?_
    cases ha : sub.shouldAdjust with
    | true => exact (hin sub hm ha).2.2 ht
    | false => rw [share, ha, if_neg Bool.false_ne_true]

/-! ## The frames -/

section

omit [LinearOrder K] [IsStrictOrderedRing K]

theorem length_stack (running : K) (lengths : List K) : (split.stack running lengths).length = lengths.length := by
  induction lengths generalizing running with
  | nil => rfl
  | cons length lengths ih => rw [stack, List.length_cons, List.length_cons, ih]

theorem length_newLengths (hne : split.subviews ≠ []) : split.newLengths.length = split.subviews.length := by
  have hp := List.length_pos_iff.mpr hne
  rw [newLengths, List.length_append, List.length_map, List.length_dropLast, List.length_singleton]
  omega

end

omit [IsStrictOrderedRing K] in
theorem ne_nil_of_suitable (h : split.Suitable) : split.subviews ≠ [] := by
  intro hn
  exact h.total.ne' (by rw [oldTotal, hn]; rfl)

omit [IsStrictOrderedRing K] in
theorem laidOut_of_shared (h : split.Suitable) (hs : split.Shared) :
    split.LaidOut ((split.stack 0 split.newLengths).map setFrame) := by
  have hne := ne_nil_of_suitable h
  have hp := List.length_pos_iff.mpr hne
  have hst := stack_setFrame h.bounds hs.nonneg 0
  have hln : (split.stack 0 split.newLengths).map (lengthAlong split.isVertical) = split.newLengths := by
    have hc := lengths_stack split 0 split.newLengths
    rw [hst] at hc
    rw [hc]
    have hk : ∀ length ∈ split.newLengths, (if length < 0 then 0 else length) = id length :=
      fun length hl => if_neg (not_lt.mpr (hs.nonneg length hl))
    rw [List.map_congr_left hk, List.map_id]
  rw [hst]
  have hfr {n : ℕ} {frame : Rect K} (hn : (split.stack 0 split.newLengths)[n]? = some frame) :
      split.newLengths[n]? = some (lengthAlong split.isVertical frame) := by
    rw [← hln, List.getElem?_map, hn, Option.map_some]
  refine ⟨⟨by rw [hln], fun frame hmem => ?_, ?_⟩, fun n sub frame hsub hn hfx => ?_,
    fun n sub frame hsub hn hfx => hs.share n sub _ hsub (hfr hn) hfx, fun hf => ?_⟩
  · refine hs.nonneg _ ?_
    rw [← hln]
    exact List.mem_map_of_mem hmem
  · rw [hln, length_stack, length_newLengths hne, newLengths, List.sum_append, List.sum_singleton, add_sub_cancel,
      newTotal, sub_add_cancel]
  · have hlt : n < split.subviews.dropLast.length := by
      rw [List.length_dropLast]
      have := hfx.1
      omega
    have hl := hfr hn
    rw [newLengths, List.getElem?_append_left (by rwa [List.length_map]), List.getElem?_map, List.getElem?_dropLast,
      if_pos (by rwa [List.length_dropLast] at hlt), hsub, Option.map_some, Option.some.injEq] at hl
    rw [← hl, share, hfx.2, if_neg Bool.false_ne_true]
  · have hm : (split.subviews.map Subview.frame).map (lengthAlong split.isVertical) = split.subviews.map split.length :=
      List.map_map
    have hsm : split.newTotal = split.oldTotal := by
      have ht := hf.total
      rw [hm, List.length_map] at ht
      rw [newTotal, ← ht, oldTotal, add_sub_cancel_right]
    have ho := hf.order
    rw [hm] at ho
    rw [hs.unchanged hsm, ← ho]

/-- The layout does what is claimed if, and only if, the shares of the fixed subviews or of the others are nothing. -/
theorem laidOut_iff (split : SplitView K) (h : split.Suitable) :
    (∃ frames, split.adjustSubviews = some frames ∧ split.LaidOut frames) ↔ split.SharesFit := by
  have hne := ne_nil_of_suitable h
  have hs := (List.dropLast_append_getLast hne).symm
  have ht := oldTotal_eq hs
  constructor
  · rintro ⟨frames, hf2, hld⟩
    by_cases hfx : split.fixedTotal = 0
    · exact .inl hfx
    have hr (ha : ∃ sub ∈ split.subviews.dropLast, sub.shouldAdjust = true) :
        split.oldTotal ≠ split.fixedTotal := by
      intro hsm
      rw [adjustSubviews_eq_none h.saved h.total.ne' ha hsm] at hf2
      exact absurd hf2 nofun
    refine .inr ⟨fun sub hm ha => ?_, hr⟩
    have hne' := sub_ne_zero.mpr (hr ⟨sub, hm, ha⟩)
    have had := adjusted_nonneg h hs
    have hls := h.nonneg _ (List.getLast_mem hne)
    have hr' : 0 < split.oldTotal - split.fixedTotal := lt_of_le_of_ne (by linarith) hne'.symm
    have hsh : split.share sub = split.length sub * split.newTotal / (split.oldTotal - split.fixedTotal) := by
      rw [share, if_pos ha]
    have hnn : 0 ≤ split.share sub := by
      rw [hsh]
      exact div_nonneg (mul_nonneg (h.nonneg sub (List.dropLast_subset _ hm))
        ((fixedTotal_nonneg h).trans h.room)) hr'.le
    obtain ⟨n, hn, hg⟩ := List.getElem_of_mem hm
    rw [List.length_dropLast] at hn
    obtain rfl := Option.some.inj ((adjustSubviews_eq h.saved h.total.ne' hr).symm.trans hf2)
    have hl : (split.newLengths.map fun length => if length < 0 then 0 else length)[n]? =
        some (split.share sub) := by
      rw [newLengths, List.map_append, List.getElem?_append_left (by simpa using hn), List.getElem?_map,
        List.getElem?_map, List.getElem?_eq_getElem (by simpa using hn), hg, Option.map_some, Option.map_some,
        if_neg (not_lt.mpr hnn)]
    rw [← lengths_stack split 0, List.getElem?_map, Option.map_eq_some_iff] at hl
    obtain ⟨frame, hfr, hl⟩ := hl
    have hsb : split.subviews[n]? = some sub := by
      rw [List.getElem_dropLast] at hg
      rw [List.getElem?_eq_getElem (by omega), hg]
    have hp := hld.proportional n sub frame hsb hfr fun hfix => absurd (ha.symm.trans hfix.2) nofun
    rw [hl, hsh, div_mul_cancel₀ _ hne', mul_sub] at hp
    have hz : split.length sub * split.fixedTotal = 0 := by linarith
    exact (mul_eq_zero.mp hz).resolve_right hfx
  · intro hfit
    refine ⟨_, adjustSubviews_eq h.saved h.total.ne' fun ha => ?_, laidOut_of_shared h (shared_of_fit h hs hfit)⟩
    rcases hfit with hfx | ⟨-, hr⟩
    · rw [hfx]
      exact h.total.ne'
    · exact hr ha

end Shares

end SplitView

end Adjusting

/-- Three subviews of width 10 that fill the bounds. -/
def threeSubviews (shouldAdjust : Bool) : SplitView ℚ :=
  ⟨true, ⟨30, 5⟩, 0, [⟨⟨⟨0, 0⟩, ⟨10, 5⟩⟩, shouldAdjust⟩, ⟨⟨⟨10, 0⟩, ⟨10, 5⟩⟩, true⟩, ⟨⟨⟨20, 0⟩, ⟨10, 5⟩⟩, true⟩], none⟩

theorem threeSubviews_suitable (shouldAdjust : Bool) : (threeSubviews shouldAdjust).Suitable := by
  have h : ∀ shouldAdjust, (∀ sub ∈ (threeSubviews shouldAdjust).subviews, 0 ≤ (threeSubviews shouldAdjust).length sub) ∧
      0 < (threeSubviews shouldAdjust).oldTotal ∧
        (threeSubviews shouldAdjust).fixedTotal ≤ (threeSubviews shouldAdjust).newTotal := by
    decide +kernel
  obtain ⟨hn, ht, hr⟩ := h shouldAdjust
  exact ⟨rfl, ⟨by norm_num [threeSubviews], by norm_num [threeSubviews]⟩, hn, ht, hr⟩

theorem laidOut_threeSubviews : ∃ frames, (threeSubviews true).adjustSubviews = some frames ∧
    (threeSubviews true).LaidOut frames :=
  (SplitView.laidOut_iff (threeSubviews true) (threeSubviews_suitable true)).mpr (.inl rfl)

/-- With the first one fixed, the second one gets half of all the space. -/
theorem not_laidOut_threeSubviews : ¬ ∀ split : SplitView ℚ, split.Suitable →
    ∃ frames, split.adjustSubviews = some frames ∧ split.LaidOut frames := by
  intro h
  obtain ⟨frames, hf2, hl⟩ := h (threeSubviews false) (threeSubviews_suitable false)
  have hs : (threeSubviews false).adjustSubviews = some [⟨⟨0, 0⟩, ⟨10, 5⟩⟩, ⟨⟨10, 0⟩, ⟨15, 5⟩⟩,
      ⟨⟨25, 0⟩, ⟨5, 5⟩⟩] := by
    decide +kernel
  obtain rfl := Option.some.inj (hs.symm.trans hf2)
  have hp := hl.proportional 1 _ _ rfl rfl fun hfx => absurd hfx.2 nofun
  norm_num [threeSubviews, SplitView.oldTotal, SplitView.fixedTotal, SplitView.newTotal, SplitView.boundsLength,
    SplitView.length, lengthAlong] at hp

end GnustepGui.NSSplitView
