import GnustepGui.BezierPath.Bounds
import GnustepGui.Library.Chords

/-!
# Flattening a curve

`flatten` halves a curve until its control polygon is flat, and draws a line to the end of each piece. The
pieces get shorter, so it ends. A piece that passes the test for flatness is near to its chord, but a piece
whose ends nearly coincide is accepted without that test: the lines are near to the curve if and only if they
are near to those pieces (`flattensRight_iff`).
-/

namespace GnustepGui.BezierPath

attribute [local instance] Numerals.two Numerals.three

universe u

/-- `coeff[4]` -/
structure Coefficients (α : Type u) where
  p0 : NSPoint α
  p1 : NSPoint α
  p2 : NSPoint α
  p3 : NSPoint α
deriving DecidableEq, Repr

section Code

variable {α : Type u} [Field α] [LinearOrder α]

namespace Coefficients

def z30Dot (coeff : Coefficients α) : α :=
  let x30 := coeff.p3.x - coeff.p0.x
  let y30 := coeff.p3.y - coeff.p0.y
  x30 * x30 + y30 * y30

def z1Perp (coeff : Coefficients α) : α :=
  (coeff.p1.y - coeff.p0.y) * (coeff.p3.x - coeff.p0.x) - (coeff.p1.x - coeff.p0.x) * (coeff.p3.y - coeff.p0.y)

def z2Perp (coeff : Coefficients α) : α :=
  (coeff.p3.y - coeff.p2.y) * (coeff.p3.x - coeff.p0.x) - (coeff.p3.x - coeff.p2.x) * (coeff.p3.y - coeff.p0.y)

def z1Dot (coeff : Coefficients α) : α :=
  (coeff.p1.x - coeff.p0.x) * (coeff.p3.x - coeff.p0.x) + (coeff.p1.y - coeff.p0.y) * (coeff.p3.y - coeff.p0.y)

def z2Dot (coeff : Coefficients α) : α :=
  (coeff.p3.x - coeff.p2.x) * (coeff.p3.x - coeff.p0.x) + (coeff.p3.y - coeff.p2.y) * (coeff.p3.y - coeff.p0.y)

/-- The ends nearly coincide. -/
abbrev NearlyClosed (coeff : Coefficients α) : Prop := coeff.z30Dot < 1 / 1000

/-- What `flatten` leaves in `flat`. -/
def flat (coeff : Coefficients α) (flatness : α) : Bool :=
  if coeff.NearlyClosed then true
  else
    let maxPerpSq := flatness * flatness * coeff.z30Dot
    if coeff.z1Perp * coeff.z1Perp > maxPerpSq then false
    else if coeff.z2Perp * coeff.z2Perp > maxPerpSq then false
    else if coeff.z1Dot < 0 ∧ coeff.z1Dot * coeff.z1Dot > maxPerpSq then false
    else if coeff.z2Dot < 0 ∧ coeff.z2Dot * coeff.z2Dot > maxPerpSq then false
    else if coeff.z1Dot + coeff.z1Dot > coeff.z30Dot ∨ coeff.z2Dot + coeff.z2Dot > coeff.z30Dot then false
    else true

def bleft (coeff : Coefficients α) : Coefficients α where
  p0 := coeff.p0
  p1 := ⟨(coeff.p0.x + coeff.p1.x) / 2, (coeff.p0.y + coeff.p1.y) / 2⟩
  p2 := ⟨(coeff.p0.x + 2 * coeff.p1.x + coeff.p2.x) / 4, (coeff.p0.y + 2 * coeff.p1.y + coeff.p2.y) / 4⟩
  p3 := ⟨(coeff.p0.x + 3 * (coeff.p1.x + coeff.p2.x) + coeff.p3.x) / 8,
    (coeff.p0.y + 3 * (coeff.p1.y + coeff.p2.y) + coeff.p3.y) / 8⟩

def bright (coeff : Coefficients α) : Coefficients α where
  p0 := coeff.bleft.p3
  p1 := ⟨(coeff.p3.x + 2 * coeff.p2.x + coeff.p1.x) / 4, (coeff.p3.y + 2 * coeff.p2.y + coeff.p1.y) / 4⟩
  p2 := ⟨(coeff.p3.x + coeff.p2.x) / 2, (coeff.p3.y + coeff.p2.y) / 2⟩
  p3 := coeff.p3

end Coefficients

/-- `flatten`, with no more than `depth` calls inside each other. -/
def flatten : (depth : Nat) → Coefficients α → α → NSBezierPath α → Option (NSBezierPath α)
  | 0, _, _, _ => none
  | depth + 1, coeff, flatness, path =>
    if coeff.flat flatness then some (path.lineToPoint coeff.p3)
    else
      match flatten depth coeff.bleft flatness path with
      | none => none
      | some path => flatten depth coeff.bright flatness path

end Code

/-! ## Lines near a curve -/

section Near

variable {α : Type u} [Field α] [LinearOrder α]

/-- Lines from point to point. -/
def linesThrough (a : NSPoint α) : List (NSPoint α) → List (Segment α)
  | [] => []
  | b :: points => .line a b :: linesThrough b points

def NSBezierPath.linesToPoints (path : NSBezierPath α) (points : List (NSPoint α)) : NSBezierPath α :=
  points.foldl NSBezierPath.lineToPoint path

def distanceSq (p q : NSPoint α) : α := (p.x - q.x) * (p.x - q.x) + (p.y - q.y) * (p.y - q.y)

/-- Within `r` of a point of the segment. -/
def Segment.Near (r : α) (segment : Segment α) (q : NSPoint α) : Prop :=
  ∃ p, OnSegment segment p ∧ distanceSq q p ≤ r * r

namespace Coefficients

/-- The pieces of a curve that are accepted as flat. -/
inductive Accepted (flatness : α) : Coefficients α → Coefficients α → Prop
  | flat {coeff : Coefficients α} : coeff.flat flatness = true → Accepted flatness coeff coeff
  | left {coeff piece : Coefficients α} : coeff.flat flatness = false → Accepted flatness coeff.bleft piece →
      Accepted flatness coeff piece
  | right {coeff piece : Coefficients α} : coeff.flat flatness = false → Accepted flatness coeff.bright piece →
      Accepted flatness coeff piece

variable (coeff : Coefficients α) (flatness : α)

def segment : Segment α := .cubic coeff.p0 coeff.p1 coeff.p2 coeff.p3

def chord : Segment α := .line coeff.p0 coeff.p3

/-- With depth enough, a polyline from the start of the curve to its end is drawn, and the curve is near to it. -/
def FlattensRight : Prop :=
  ∃ points,
    (∃ depth, ∀ depth' ≥ depth, ∀ path, flatten depth' coeff flatness path = some (path.linesToPoints points)) ∧
      points.getLast? = some coeff.p3 ∧
        ∀ q, OnSegment coeff.segment q → ∃ line ∈ linesThrough coeff.p0 points, line.Near flatness q

/-- Whatever is on an accepted piece with nearly coincident ends is near to the chord of some accepted piece. -/
def LoopsCovered : Prop :=
  ∀ piece, Accepted flatness coeff piece → piece.NearlyClosed → ∀ q, OnSegment piece.segment q →
    ∃ other, Accepted flatness coeff other ∧ other.chord.Near flatness q

end Coefficients

end Near

/-! ## The pieces -/

namespace Coefficients

section Pieces

variable {α : Type u} [Field α] [LinearOrder α] {flatness : α} {coeff piece : Coefficients α}
  {pieces : List (Coefficients α)}

/-- The accepted pieces in order. -/
inductive Pieces (flatness : α) : Coefficients α → List (Coefficients α) → Prop
  | flat {coeff : Coefficients α} : coeff.flat flatness = true → Pieces flatness coeff [coeff]
  | halves {coeff : Coefficients α} {left right : List (Coefficients α)} : coeff.flat flatness = false →
      Pieces flatness coeff.bleft left → Pieces flatness coeff.bright right → Pieces flatness coeff (left ++ right)

theorem accepted_flat_iff (hf : coeff.flat flatness = true) : Accepted flatness coeff piece ↔ piece = coeff := by
  constructor
  · intro h
    cases h with
    | flat _ => rfl
    | left hn _ => exact absurd (hn.symm.trans hf) Bool.false_ne_true
    | right hn _ => exact absurd (hn.symm.trans hf) Bool.false_ne_true
  · rintro rfl
    exact .flat hf

theorem accepted_halves_iff (hn : coeff.flat flatness = false) :
    Accepted flatness coeff piece ↔ Accepted flatness coeff.bleft piece ∨ Accepted flatness coeff.bright piece := by
  constructor
  · intro h
    cases h with
    | flat hf => exact absurd (hn.symm.trans hf) Bool.false_ne_true
    | left _ h => exact .inl h
    | right _ h => exact .inr h
  · rintro (h | h)
    · exact .left hn h
    · exact .right hn h

theorem Pieces.mem_iff (h : Pieces flatness coeff pieces) : piece ∈ pieces ↔ Accepted flatness coeff piece := by
  induction h with
  | flat hf => rw [List.mem_singleton, accepted_flat_iff hf]
  | halves hn _ _ ihleft ihright => rw [List.mem_append, ihleft, ihright, accepted_halves_iff hn]

theorem Accepted.flat_piece (h : Accepted flatness coeff piece) : piece.flat flatness = true := by
  induction h with
  | flat hf => exact hf
  | left _ _ ih => exact ih
  | right _ _ ih => exact ih

/-- The call draws a line to the end of each piece. -/
theorem Pieces.flatten (h : Pieces flatness coeff pieces) : ∃ depth, ∀ depth' ≥ depth, ∀ path,
      flatten depth' coeff flatness path = some (path.linesToPoints (pieces.map Coefficients.p3)) := by
  induction h with
  | flat hf =>
    refine ⟨1, fun depth' hd path => ?_⟩
    obtain ⟨depth, rfl⟩ := Nat.exists_eq_add_of_le' hd
    exact if_pos hf
  | @halves coeff left right hn _ _ ihleft ihright =>
    obtain ⟨depthLeft, hl⟩ := ihleft
    obtain ⟨depthRight, hr⟩ := ihright
    refine ⟨max depthLeft depthRight + 1, fun depth' hd path => ?_⟩
    obtain ⟨depth, rfl⟩ := Nat.exists_eq_add_of_le' (le_of_add_le_right hd)
    have hm : max depthLeft depthRight ≤ depth := Nat.le_of_succ_le_succ hd
    have hj : path.linesToPoints ((left ++ right).map Coefficients.p3) =
        (path.linesToPoints (left.map Coefficients.p3)).linesToPoints (right.map Coefficients.p3) := by
      unfold NSBezierPath.linesToPoints
      rw [List.map_append, List.foldl_append]
    rw [BezierPath.flatten, hn, if_neg Bool.false_ne_true, hl depth ((le_max_left ..).trans hm), hj]
    exact hr depth ((le_max_right ..).trans hm) _

omit [Field α] [LinearOrder α] in
theorem linesThrough_append {a b : NSPoint α} {xs ys : List (NSPoint α)} (h : xs.getLast? = some b) :
    linesThrough a (xs ++ ys) = linesThrough a xs ++ linesThrough b ys := by
  induction xs generalizing a with
  | nil => exact absurd h.symm (Option.some_ne_none b)
  | cons x xs ih =>
    cases xs with
    | nil =>
      obtain rfl := Option.some.inj h
      rfl
    | cons y xs => exact congrArg (Segment.line a x :: ·) (ih (by rwa [List.getLast?_cons_cons] at h))

theorem Pieces.getLast? (h : Pieces flatness coeff pieces) : (pieces.map Coefficients.p3).getLast? = some coeff.p3 := by
  induction h with
  | flat _ => rfl
  | @halves coeff _ _ _ _ _ _ ihright =>
    rw [List.map_append, List.getLast?_append, ihright]
    rfl

theorem Pieces.linesThrough (h : Pieces flatness coeff pieces) :
    linesThrough coeff.p0 (pieces.map Coefficients.p3) = pieces.map chord := by
  induction h with
  | flat _ => rfl
  | @halves coeff _ _ _ hl _ ihleft ihright =>
    rw [List.map_append, List.map_append, linesThrough_append hl.getLast?]
    exact congrArg₂ (· ++ ·) ihleft ihright

end Pieces

/-! ## The recursion ends -/

section Halving

variable {α : Type u} [Field α] [LinearOrder α] [IsStrictOrderedRing α] {flatness B : α} {coeff : Coefficients α}

/-- No step of the control polygon is longer than `B` in a coordinate. -/
def StepsWithin (B : α) (coeff : Coefficients α) : Prop :=
  Bernstein.StepsWithin B coeff.p0.x coeff.p1.x coeff.p2.x coeff.p3.x ∧
    Bernstein.StepsWithin B coeff.p0.y coeff.p1.y coeff.p2.y coeff.p3.y

omit [IsStrictOrderedRing α] in
theorem exists_stepsWithin (coeff : Coefficients α) : ∃ B, coeff.StepsWithin B := by
  obtain ⟨Bx, hx⟩ := Bernstein.exists_stepsWithin coeff.p0.x coeff.p1.x coeff.p2.x coeff.p3.x
  obtain ⟨By, hy⟩ := Bernstein.exists_stepsWithin coeff.p0.y coeff.p1.y coeff.p2.y coeff.p3.y
  exact ⟨max Bx By, hx.mono (le_max_left ..), hy.mono (le_max_right ..)⟩

theorem StepsWithin.bleft (h : coeff.StepsWithin B) : coeff.bleft.StepsWithin (B / 2) := ⟨h.1.left, h.2.left⟩

theorem StepsWithin.bright (h : coeff.StepsWithin B) : coeff.bright.StepsWithin (B / 2) := ⟨h.1.right, h.2.right⟩

theorem StepsWithin.z30Dot_le (h : coeff.StepsWithin B) : coeff.z30Dot ≤ 18 * (B * B) := by
  have hx := h.1.chord_sq_le
  have hy := h.2.chord_sq_le
  unfold z30Dot
  linarith

theorem exists_pieces_of_stepsWithin (n : Nat) (h : coeff.StepsWithin B) (hB : 18 * (B * B) < 1 / 1000 * 4 ^ n) :
    ∃ pieces, Pieces flatness coeff pieces := by
  induction n generalizing coeff B with
  | zero =>
    have hc : coeff.NearlyClosed := by
      rw [pow_zero, mul_one] at hB
      exact h.z30Dot_le.trans_lt hB
    exact ⟨[coeff], .flat (if_pos hc)⟩
  | succ n ih =>
    by_cases hf : coeff.flat flatness = true
    · exact ⟨[coeff], .flat hf⟩
    · have hq : 18 * (B / 2 * (B / 2)) < 1 / 1000 * 4 ^ n := by
        rw [pow_succ] at hB
        linarith
      obtain ⟨left, hl⟩ := ih h.bleft hq
      obtain ⟨right, hr⟩ := ih h.bright hq
      exact ⟨left ++ right, .halves (Bool.eq_false_of_not_eq_true hf) hl hr⟩

theorem exists_pieces [Archimedean α] (flatness : α) (coeff : Coefficients α) :
    ∃ pieces, Pieces flatness coeff pieces := by
  obtain ⟨B, hB⟩ := coeff.exists_stepsWithin
  obtain ⟨n, hn⟩ := Bernstein.exists_lt_pow_four (1000 * (18 * (B * B)))
  exact exists_pieces_of_stepsWithin n hB (by linarith)

end Halving

/-! ## Points of the pieces -/

section Points

variable {α : Type u} [Field α] [LinearOrder α] [IsStrictOrderedRing α] {flatness : α} {coeff piece : Coefficients α}
  {pieces : List (Coefficients α)} {q : NSPoint α}

omit [LinearOrder α] [IsStrictOrderedRing α] in
theorem pointAt_segment (coeff : Coefficients α) (t : α) :
    coeff.segment.pointAt t =
      ⟨Bernstein.cubic coeff.p0.x coeff.p1.x coeff.p2.x coeff.p3.x t,
        Bernstein.cubic coeff.p0.y coeff.p1.y coeff.p2.y coeff.p3.y t⟩ := rfl

theorem pointAt_bleft (coeff : Coefficients α) (t : α) :
    coeff.bleft.segment.pointAt t = coeff.segment.pointAt (t / 2) := by
  rw [pointAt_segment, pointAt_segment, ← Bernstein.cubic_left, ← Bernstein.cubic_left]
  rfl

theorem pointAt_bright (coeff : Coefficients α) (t : α) :
    coeff.bright.segment.pointAt t = coeff.segment.pointAt ((1 + t) / 2) := by
  rw [pointAt_segment, pointAt_segment, ← Bernstein.cubic_right, ← Bernstein.cubic_right]
  rfl

theorem onSegment_halves_iff :
    OnSegment coeff.segment q ↔ OnSegment coeff.bleft.segment q ∨ OnSegment coeff.bright.segment q := by
  constructor
  · rintro ⟨t, ht, ht', rfl⟩
    rcases le_total t (1 / 2) with hf | hs
    · refine .inl ⟨2 * t, by linarith, by linarith, ?_⟩
      rw [pointAt_bleft, mul_div_cancel_left₀ t two_ne_zero]
    · refine .inr ⟨2 * t - 1, by linarith, by linarith, ?_⟩
      rw [pointAt_bright, add_sub_cancel, mul_div_cancel_left₀ t two_ne_zero]
  · rintro (⟨t, ht, ht', rfl⟩ | ⟨t, ht, ht', rfl⟩)
    · exact ⟨t / 2, by linarith, by linarith, pointAt_bleft coeff t⟩
    · exact ⟨(1 + t) / 2, by linarith, by linarith, pointAt_bright coeff t⟩

theorem Pieces.onSegment_iff (h : Pieces flatness coeff pieces) :
    OnSegment coeff.segment q ↔ ∃ piece ∈ pieces, OnSegment piece.segment q := by
  induction h with
  | flat _ => simp only [List.mem_singleton, exists_eq_left]
  | halves _ _ _ ihleft ihright =>
    rw [onSegment_halves_iff, ihleft, ihright]
    simp only [List.mem_append, or_and_right, exists_or]

omit [LinearOrder α] [IsStrictOrderedRing α] in
/-- A coordinate of a point, from the start of the curve. -/
theorem cubic_sub_start (a b c d t : α) :
    Bernstein.cubic a b c d t = a + Bernstein.cubic 0 (b - a) (d - a - (d - c)) (d - a) t := by
  unfold Bernstein.cubic
  ring

theorem near_chord_of_flat (hf : coeff.flat flatness = true) (ho : ¬ coeff.NearlyClosed)
    (hq : OnSegment coeff.segment q) : coeff.chord.Near flatness q := by
  obtain ⟨t, ht, ht', rfl⟩ := hq
  have hc : 0 < coeff.z30Dot := by
    have hl := not_lt.mp ho
    have : (0 : α) < 1 / 1000 := by norm_num
    linarith
  unfold flat at hf
  rw [if_neg ho] at hf
  dsimp only at hf
  split_ifs at hf with hp1 hp2 hd1 hd2 hl
  rw [not_or, not_lt, not_lt] at hl
  obtain ⟨hh1, hh2⟩ := hl
  have hsh1 : coeff.z1Dot ≤ coeff.z30Dot := by linarith
  have hsh2 : coeff.z2Dot ≤ coeff.z30Dot := by linarith
  obtain ⟨s, hs, hs', hnr⟩ := Bernstein.near_chord (t := t) hc (not_lt.mp hp1) (not_lt.mp hp2)
    (fun hn => not_lt.mp fun hlt => hd1 ⟨hn, hlt⟩) (fun hn => not_lt.mp fun hlt => hd2 ⟨hn, hlt⟩)
    hsh1 hsh2 ht ht'
  refine ⟨coeff.chord.pointAt s, ⟨s, hs, hs', rfl⟩, ?_⟩
  rw [pointAt_segment, cubic_sub_start coeff.p0.x, cubic_sub_start coeff.p0.y]
  simpa only [distanceSq, chord, Segment.pointAt, add_sub_add_left_eq_sub] using hnr

end Points

/-! ## The lines -/

section Lines

variable {α : Type u} [Field α] [LinearOrder α]

section

omit [Field α] [LinearOrder α]

theorem pathElements_linesToPoints (path : NSBezierPath α) (points : List (NSPoint α)) :
    (path.linesToPoints points).pathElements = path.pathElements ++ points.map PathElement.lineTo := by
  unfold NSBezierPath.linesToPoints
  induction points generalizing path with
  | nil => exact (List.append_nil _).symm
  | cons p points ih =>
    rw [List.foldl_cons, ih, NSBezierPath.lineToPoint_pathElements, List.append_assoc]
    rfl

theorem linesToPoints_injective {path : NSBezierPath α} {xs ys : List (NSPoint α)}
    (h : path.linesToPoints xs = path.linesToPoints ys) : xs = ys := by
  have he := congrArg NSBezierPath.pathElements h
  rw [pathElements_linesToPoints, pathElements_linesToPoints, List.append_cancel_left_eq] at he
  exact List.map_injective_iff.mpr (fun _ _ => PathElement.lineTo.inj) he

end

end Lines

/-! ## Curves and their lines -/

section Curves

variable {α : Type u} [Field α] [LinearOrder α] [IsStrictOrderedRing α] [Archimedean α] {flatness : α}
  {coeff : Coefficients α}

theorem FlattensRight.loopsCovered (h : coeff.FlattensRight flatness) : coeff.LoopsCovered flatness := by
  obtain ⟨pieces, hp⟩ := exists_pieces flatness coeff
  obtain ⟨depth, hd⟩ := hp.flatten
  obtain ⟨points, ⟨depth', hd'⟩, -, hn⟩ := h
  have hpn : points = pieces.map p3 := by
    have hs := (hd' _ (le_max_right depth depth') (NSBezierPath.init ⟨0, 0, 0, 0, 0, 0, 0⟩)).symm.trans
      (hd _ (le_max_left depth depth') _)
    exact linesToPoints_injective (Option.some.inj hs)
  intro piece hpc _ q hq
  obtain ⟨line, hl, hq⟩ := hn q (hp.onSegment_iff.mpr ⟨piece, hp.mem_iff.mpr hpc, hq⟩)
  rw [hpn, hp.linesThrough] at hl
  obtain ⟨other, hother, rfl⟩ := List.mem_map.mp hl
  exact ⟨other, hp.mem_iff.mp hother, hq⟩

theorem LoopsCovered.flattensRight (h : coeff.LoopsCovered flatness) : coeff.FlattensRight flatness := by
  obtain ⟨pieces, hp⟩ := exists_pieces flatness coeff
  refine ⟨pieces.map p3, hp.flatten, hp.getLast?, fun q hq => ?_⟩
  rw [hp.linesThrough]
  obtain ⟨piece, hpc, hq⟩ := hp.onSegment_iff.mp hq
  have ha := hp.mem_iff.mp hpc
  by_cases hc : piece.NearlyClosed
  · obtain ⟨other, hother, hn⟩ := h piece ha hc q hq
    exact ⟨other.chord, List.mem_map_of_mem (hp.mem_iff.mpr hother), hn⟩
  · exact ⟨piece.chord, List.mem_map_of_mem hpc, near_chord_of_flat ha.flat_piece hc hq⟩

/-- The lines are near to the curve if and only if they are near to its pieces with nearly coincident ends. -/
theorem flattensRight_iff (coeff : Coefficients α) (flatness : α) :
    coeff.FlattensRight flatness ↔ coeff.LoopsCovered flatness :=
  ⟨FlattensRight.loopsCovered, LoopsCovered.flattensRight⟩

end Curves

/-- A loop as high as `6 / 8` of `size`. -/
def loop (size : ℚ) : Coefficients ℚ := ⟨⟨0, 0⟩, ⟨size, size⟩, ⟨-size, size⟩, ⟨0, 0⟩⟩

theorem loop_flat (size flatness : ℚ) : (loop size).flat flatness = true := by
  refine if_pos ?_
  norm_num [NearlyClosed, z30Dot, loop]

/-- A loop smaller than the flatness. -/
theorem flattensRight_smallLoop : (loop 1).FlattensRight 1 := by
  refine (flattensRight_iff (loop 1) 1).mpr fun piece hp _ q hq => ?_
  obtain rfl := (accepted_flat_iff (loop_flat 1 1)).mp hp
  obtain ⟨t, ht, ht', rfl⟩ := hq
  refine ⟨loop 1, .flat (loop_flat 1 1), ⟨0, 0⟩,
    ⟨0, le_rfl, zero_le_one, by simp [chord, loop, Segment.pointAt]⟩, ?_⟩
  obtain ⟨hn, hqr⟩ := Bernstein.quarter_le ht ht'
  have hd : distanceSq ((loop 1).segment.pointAt t) ⟨0, 0⟩ =
      9 * ((1 - t) * t) * ((1 - t) * t) * (2 - 4 * ((1 - t) * t)) := by
    simp only [distanceSq, segment, loop, Segment.pointAt, pointOnCurve]
    ring
  rw [hd]
  nlinarith [mul_nonneg hn hn]

/-- A loop larger than the flatness vanishes. -/
theorem not_flattensRight_loop :
    ¬ ∀ (coeff : Coefficients ℚ) (flatness : ℚ), 0 < flatness → coeff.FlattensRight flatness := by
  intro h
  have hc := (h (loop 8) 1 one_pos).loopsCovered
  obtain ⟨other, hother, p, ⟨s, -, -, hp⟩, hn⟩ :=
    hc (loop 8) (.flat (loop_flat 8 1)) (by norm_num [NearlyClosed, z30Dot, loop]) ⟨0, 6⟩
      ⟨1 / 2, by norm_num, by norm_num, by norm_num [segment, loop, Segment.pointAt, pointOnCurve]⟩
  obtain rfl := (accepted_flat_iff (loop_flat 8 1)).mp hother
  subst hp
  norm_num [distanceSq, chord, loop, Segment.pointAt] at hn

end Coefficients

end GnustepGui.BezierPath
