import GnustepGui.BezierPath.Bounds
import GnustepGui.Library.Cycles

/-!
# Winding counts

`windingCountAtPoint:` traces a line from the left to the point and counts the edges that cross it, by two:
an edge that ends on the line counts for one, and its neighbour for the other. For a point that is on no
edge the halves pair up around each polygon, and the count is that of the signed crossings
(`winding_polygons`).
-/

namespace GnustepGui.BezierPath

universe u

section Code

variable {α : Type u} [Field α] [LinearOrder α]

/-- The part of `winding_line` for an edge over the height of the point. -/
def windingCrossed (source target p : NSPoint α) (yDir : Int) : Int :=
  let yDir := if p.y = source.y ∨ p.y = target.y then yDir.tdiv 2 else yDir
  let k := (source.x - target.x) / (source.y - target.y)
  let x := target.x + k * (p.y - target.y)
  if target.x < source.x then
    if p.x < target.x then 0
    else if p.x > source.x then yDir
    else if x < p.x then yDir
    else 0
  else
    if p.x < source.x then 0
    else if p.x > target.x then yDir
    else if x < p.x then yDir
    else 0

/-- `winding_line` -/
def windingLine (source target p : NSPoint α) : Int :=
  if source.y = target.y then 0
  else if target.y < source.y then
    if p.y < target.y then 0
    else if p.y > source.y then 0
    else windingCrossed source target p (-2)
  else
    if p.y < source.y then 0
    else if p.y > target.y then 0
    else windingCrossed source target p 2

/-- The flatness test of `winding_curve`. -/
def flatEnough (sqrt : α → α) (source target c1 c2 : NSPoint α) (x0 x1 y0 y1 scale : α) : Bool :=
  if target.x = source.x ∧ target.y = source.y then decide (x1 - x0 < scale ∧ y1 - y0 < scale)
  else
    let dx := target.x - source.x
    let dy := target.y - source.y
    let d0 := sqrt (dx * dx + dy * dy)
    let dx := dx / d0
    let dy := dy / d0
    let nx := dy
    let ny := -dx
    let d0 := source.x * dx + source.y * dy
    let d1 := c1.x * dx + c1.y * dy
    let d2 := c2.x * dx + c2.y * dy
    let d3 := target.x * dx + target.y * dy
    if (d3 > d2 ∧ d2 > d1 ∧ d1 > d0) ∨ (d3 < d2 ∧ d2 < d1 ∧ d1 < d0) then
      let d0 := target.x * nx + target.y * ny
      let d1 := c1.x * nx + c1.y * ny
      let d2 := c2.x * nx + c2.y * ny
      decide (|d0 - d1| < scale ∧ |d0 - d2| < scale)
    else false

/-- `winding_curve`, with `deeper` more levels before its limit of 40. -/
def windingCurve (sqrt : α → α) (p : NSPoint α) : (deeper : Nat) → (source target c1 c2 : NSPoint α) → Int
  | deeper, source, target, c1, c2 =>
    let y0 := min (min (min source.y target.y) c1.y) c2.y
    let y1 := max (max (max source.y target.y) c1.y) c2.y
    if p.y < y0 ∨ p.y > y1 then 0
    else
      let x0 := min (min (min source.x target.x) c1.x) c2.x
      let x1 := max (max (max source.x target.x) c1.x) c2.x
      if p.x < x0 then 0
      else if p.x > x1 then windingLine source target p
      else
        match deeper with
        | 0 => windingLine source target p
        | deeper + 1 =>
          let scale := |x0| + |x1| + |y0| + |y1|
          if scale = 0 then 0
          else if flatEnough sqrt source target c1 c2 x0 x1 y0 y1 (scale / 40000000) then windingLine source target p
          else
            let m : NSPoint α :=
              ⟨(source.x + target.x + 3 * (c1.x + c2.x)) / 8, (source.y + target.y + 3 * (c1.y + c2.y)) / 8⟩
            let l1 : NSPoint α := ⟨(source.x + c1.x) / 2, (source.y + c1.y) / 2⟩
            let l2 : NSPoint α := ⟨(source.x + 2 * c1.x + c2.x) / 4, (source.y + 2 * c1.y + c2.y) / 4⟩
            let r2 : NSPoint α := ⟨(target.x + c2.x) / 2, (target.y + c2.y) / 2⟩
            let r1 : NSPoint α := ⟨(target.x + 2 * c2.x + c1.x) / 4, (target.y + 2 * c2.y + c1.y) / 4⟩
            windingCurve sqrt p deeper source m l1 l2 + windingCurve sqrt p deeper m target r1 r2

/-- The variables of the loop; `first` says that there is no open subpath. -/
structure WindingLocals (α : Type u) where
  total : Int
  firstP : NSPoint α
  lastP : NSPoint α
  first : Bool

namespace WindingLocals

/-- The total with the open subpath closed. -/
def closing (point : NSPoint α) (s : WindingLocals α) : Int :=
  if !s.first then s.total + windingLine s.lastP s.firstP point else s.total

end WindingLocals

/-- The loop; there is no total for an invalid path. -/
def windingFrom (sqrt : α → α) (point : NSPoint α) (s : WindingLocals α) : List (PathElement α) → Option Int
  | [] => some (s.closing point)
  | .moveTo p :: rest => windingFrom sqrt point ⟨s.closing point, p, p, false⟩ rest
  | .lineTo p :: rest =>
    if s.first then none
    else windingFrom sqrt point { s with total := s.total + windingLine s.lastP p point, lastP := p } rest
  | .curveTo c1 c2 p :: rest =>
    if s.first then none
    else
      windingFrom sqrt point { s with total := s.total + windingCurve sqrt point 40 s.lastP p c1 c2, lastP := p } rest
  | .closePath :: rest =>
    if s.first then none
    else
      windingFrom sqrt point { s with first := true, total := s.total + windingLine s.lastP s.firstP point } rest

/-- The doubled total of `windingCountAtPoint:`. -/
def windingTotal (sqrt : α → α) (self : NSBezierPath α) (point : NSPoint α) : Option Int :=
  match self.pathElements with
  | [] => some 0
  | .moveTo p :: rest => windingFrom sqrt point ⟨0, p, p, false⟩ rest
  | _ => none

def windingCountAtPoint (sqrt : α → α) (self : NSBezierPath α) (point : NSPoint α) : Int :=
  match windingTotal sqrt self point with
  | none => 0
  | some total => total.tdiv 2

/-- `NSPointInRect` of Foundation. -/
def pointInRect (p : NSPoint α) (r : NSRect α) : Bool :=
  decide (p.x ≥ r.origin.x ∧ p.y ≥ r.origin.y ∧ p.x < r.origin.x + r.width ∧ p.y < r.origin.y + r.height)

/-- `NSNonZeroWindingRule` -/
def nonZeroWindingRule : NSWindingRule := 0

def containsPoint (sqrt : α → α) (pts : AssociatedPoints α) (self : NSBezierPath α) (point : NSPoint α) : Bool :=
  if self.elementCount = 0 then false
  else if !pointInRect point (bounds sqrt pts self) then false
  else
    let sum := windingCountAtPoint sqrt self point
    if self.windingRule = nonZeroWindingRule then decide (sum ≠ 0) else decide (sum.tmod 2 ≠ 0)

end Code

/-! ## One edge -/

section Edge

variable {α : Type u} [Field α] [LinearOrder α]

/-- Below, at or above the height of a point. -/
def level (p v : NSPoint α) : Int := if v.y < p.y then -1 else if v.y = p.y then 0 else 1

/-- Where the line of an edge is at the height of a point. -/
def crossX (p source target : NSPoint α) : α :=
  target.x + (source.x - target.x) / (source.y - target.y) * (p.y - target.y)

/-- An edge crosses the line on the left of a point, upwards or downwards. Points at the height of the line
are above it or below it. -/
def crossing (above : NSPoint α → Bool) (p source target : NSPoint α) : Int :=
  if above source = false ∧ above target = true ∧ crossX p source target < p.x then 1
  else if above source = true ∧ above target = false ∧ crossX p source target < p.x then -1
  else 0

/-- Points at the height of the line are below it. -/
def aboveLine (p v : NSPoint α) : Bool := decide (p.y < v.y)

/-- Points at the height of the line are above it. -/
def notBelowLine (p v : NSPoint α) : Bool := decide (p.y ≤ v.y)

/-- A vertex on the line. -/
def onLine (p v : NSPoint α) : Int := if v.y = p.y ∧ v.x < p.x then 1 else 0

variable [IsStrictOrderedRing α] {p a b : NSPoint α}

/-- The line of an edge over a height is between its ends. -/
theorem crossX_bounds (hne : a.y ≠ b.y) (hs : (b.y ≤ p.y ∧ p.y ≤ a.y) ∨ (a.y ≤ p.y ∧ p.y ≤ b.y)) :
    min a.x b.x ≤ crossX p a b ∧ crossX p a b ≤ max a.x b.x := by
  have hpt : ∃ t, 0 ≤ t ∧ t ≤ 1 ∧ crossX p a b = b.x + t * (a.x - b.x) := by
    refine ⟨(p.y - b.y) / (a.y - b.y), ?_, ?_, ?_⟩
    · rcases hs with ⟨h, h'⟩ | ⟨h, h'⟩
      · exact div_nonneg (by linarith) (by linarith)
      · exact div_nonneg_of_nonpos (by linarith) (by linarith)
    · rcases hs with ⟨h, h'⟩ | ⟨h, h'⟩
      · have hp : 0 < a.y - b.y := sub_pos.mpr (lt_of_le_of_ne (h.trans h') hne.symm)
        rw [div_le_one hp]
        linarith
      · have hn : a.y - b.y < 0 := sub_neg.mpr (lt_of_le_of_ne (h.trans h') hne)
        rw [div_le_one_of_neg hn]
        linarith
    · unfold crossX
      ring
  obtain ⟨t, ht, ht', hc⟩ := hpt
  rw [hc]
  rcases le_total a.x b.x with h | h
  · rw [min_eq_left h, max_eq_right h]
    constructor <;> nlinarith
  · rw [min_eq_right h, max_eq_left h]
    constructor <;> nlinarith

theorem windingCrossed_eq (hne : a.y ≠ b.y) (hs : (b.y ≤ p.y ∧ p.y ≤ a.y) ∨ (a.y ≤ p.y ∧ p.y ≤ b.y)) (yDir : Int) :
    windingCrossed a b p yDir =
      if crossX p a b < p.x then if p.y = a.y ∨ p.y = b.y then yDir.tdiv 2 else yDir else 0 := by
  obtain ⟨hlo, hu⟩ := crossX_bounds hne hs
  have hc : b.x + (a.x - b.x) / (a.y - b.y) * (p.y - b.y) = crossX p a b := rfl
  unfold windingCrossed
  simp only [hc]
  generalize (if p.y = a.y ∨ p.y = b.y then yDir.tdiv 2 else yDir) = result
  by_cases hd : b.x < a.x
  · rw [if_pos hd]
    rw [min_eq_right hd.le] at hlo
    rw [max_eq_left hd.le] at hu
    by_cases hl : p.x < b.x
    · rw [if_pos hl, if_neg (by linarith)]
    · rw [if_neg hl]
      by_cases hr : p.x > a.x
      · rw [if_pos hr, if_pos (by linarith)]
      · rw [if_neg hr]
  · rw [if_neg hd]
    rw [min_eq_left (not_lt.mp hd)] at hlo
    rw [max_eq_right (not_lt.mp hd)] at hu
    by_cases hl : p.x < a.x
    · rw [if_pos hl, if_neg (by linarith)]
    · rw [if_neg hl]
      by_cases hr : p.x > b.x
      · rw [if_pos hr, if_pos (by linarith)]
      · rw [if_neg hr]

theorem windingLine_eq : windingLine a b p = if crossX p a b < p.x then level p b - level p a else 0 := by
  have ht : Int.tdiv (-2) 2 = -1 := rfl
  have ht' : Int.tdiv 2 2 = 1 := rfl
  unfold windingLine level
  by_cases heq : a.y = b.y
  · rw [if_pos heq, heq]
    simp
  rw [if_neg heq]
  by_cases hd : b.y < a.y
  · rw [if_pos hd]
    by_cases hb : p.y < b.y
    · have hb' : p.y < a.y := hb.trans hd
      rw [if_pos hb]
      simp [hb.not_gt, hb.ne', hb'.not_gt, hb'.ne']
    · rw [if_neg hb]
      by_cases ha : p.y > a.y
      · have ha' : p.y > b.y := hd.trans ha
        rw [if_pos ha]
        simp [ha, ha']
      · rw [if_neg ha, windingCrossed_eq heq (.inl ⟨not_lt.mp hb, not_lt.mp ha⟩), ht]
        split
        · grind
        · rfl
  · rw [if_neg hd]
    have hup : a.y < b.y := lt_of_le_of_ne (not_lt.mp hd) heq
    by_cases hb : p.y < a.y
    · have hb' : p.y < b.y := hb.trans hup
      rw [if_pos hb]
      simp [hb.not_gt, hb.ne', hb'.not_gt, hb'.ne']
    · rw [if_neg hb]
      by_cases ha : p.y > b.y
      · have ha' : p.y > a.y := hup.trans ha
        rw [if_pos ha]
        simp [ha, ha']
      · rw [if_neg ha, windingCrossed_eq heq (.inr ⟨not_lt.mp hb, not_lt.mp ha⟩), ht']
        split
        · grind
        · rfl

section

omit [LinearOrder α] [IsStrictOrderedRing α]

theorem crossX_source (hne : a.y ≠ b.y) (ha : a.y = p.y) : crossX p a b = a.x := by
  have hd : a.y - b.y ≠ 0 := sub_ne_zero.mpr hne
  unfold crossX
  rw [← ha, div_mul_cancel₀ _ hd]
  ring

theorem crossX_target (hb : b.y = p.y) : crossX p a b = b.x := by
  unfold crossX
  rw [← hb, sub_self, mul_zero, add_zero]

end

theorem onLine_eq (ho : ¬ OnSegment (.line a b) p) (ha : a.y = p.y) (hb : b.y = p.y) : onLine p a = onLine p b := by
  have hs : a.x < p.x ↔ b.x < p.x := by
    by_contra hne
    refine ho ⟨(p.x - a.x) / (b.x - a.x), ?_⟩
    have hbtw : (a.x < p.x ∧ p.x ≤ b.x) ∨ (b.x < p.x ∧ p.x ≤ a.x) := by grind
    have hd : b.x - a.x ≠ 0 := by
      rcases hbtw with h | h
      · exact sub_ne_zero.mpr (h.1.trans_le h.2).ne'
      · exact sub_ne_zero.mpr (h.1.trans_le h.2).ne
    have hp : p = Segment.pointAt ((p.x - a.x) / (b.x - a.x)) (.line a b) := by
      have hx : p.x = a.x + (p.x - a.x) / (b.x - a.x) * (b.x - a.x) := by
        rw [div_mul_cancel₀ _ hd]
        ring
      have hy : p.y = a.y + (p.x - a.x) / (b.x - a.x) * (b.y - a.y) := by
        rw [ha, hb, sub_self, mul_zero, add_zero]
      exact congrArg₂ NSPoint.mk hx hy
    rcases hbtw with ⟨h, h'⟩ | ⟨h, h'⟩
    · exact ⟨div_nonneg (by linarith) (by linarith), (div_le_one (by linarith)).mpr (by linarith), hp⟩
    · exact ⟨div_nonneg_of_nonpos (by linarith) (by linarith), (div_le_one_of_neg (by linarith)).mpr (by linarith), hp⟩
  unfold onLine
  simp only [ha, hb, true_and, hs]

theorem windingLine_eq_crossing (ho : ¬ OnSegment (.line a b) p) :
    windingLine a b p = 2 * crossing (aboveLine p) p a b + (onLine p b - onLine p a) := by
  rw [windingLine_eq]
  by_cases hon : a.y = p.y ∧ b.y = p.y
  · rw [onLine_eq ho hon.1 hon.2]
    unfold level crossing aboveLine
    grind
  · have hs : a.y = p.y → crossX p a b = a.x := fun h => crossX_source (fun ha => hon ⟨h, ha ▸ h⟩) h
    have ht : b.y = p.y → crossX p a b = b.x := crossX_target
    unfold level crossing onLine aboveLine
    grind

theorem windingLine_eq_crossing_above (ho : ¬ OnSegment (.line a b) p) :
    windingLine a b p = 2 * crossing (notBelowLine p) p a b + (-onLine p b - -onLine p a) := by
  rw [windingLine_eq]
  by_cases hon : a.y = p.y ∧ b.y = p.y
  · rw [onLine_eq ho hon.1 hon.2]
    unfold level crossing notBelowLine
    grind
  · have hs : a.y = p.y → crossX p a b = a.x := fun h => crossX_source (fun ha => hon ⟨h, ha ▸ h⟩) h
    have ht : b.y = p.y → crossX p a b = b.x := crossX_target
    unfold level crossing onLine notBelowLine
    grind

end Edge

/-! ## Polygons -/

/-- A subpath of lines, with its vertices in order. -/
structure Polygon (α : Type u) where
  first : NSPoint α
  others : List (NSPoint α)
  closed : Bool

namespace Polygon

variable {α : Type u}

def vertices (poly : Polygon α) : List (NSPoint α) := poly.first :: poly.others

/-- The edges, with the one back to the first vertex whether the subpath is closed or not. -/
def edges (poly : Polygon α) : List (NSPoint α × NSPoint α) := Cycles.pairs poly.vertices

def elements (poly : Polygon α) : List (PathElement α) :=
  .moveTo poly.first :: (poly.others.map .lineTo ++ if poly.closed then [.closePath] else [])

end Polygon

section Polygons

variable {α : Type u} [Field α] [LinearOrder α] (sqrt : α → α) (point : NSPoint α)

/-- The signed crossings of the edges of all polygons. -/
def crossings (above : NSPoint α → Bool) (point : NSPoint α) (polygons : List (Polygon α)) : Int :=
  (polygons.map fun poly => (poly.edges.map fun e => crossing above point e.1 e.2).sum).sum

/-- What the edges of a polygon add to the total. -/
def polygonTotal (point : NSPoint α) (poly : Polygon α) : Int :=
  (poly.edges.map fun e => windingLine e.1 e.2 point).sum

theorem windingFrom_lines (vertices : List (NSPoint α)) (total : Int) (start last : NSPoint α)
    (rest : List (PathElement α)) :
    ∃ total' last', windingFrom sqrt point ⟨total, start, last, false⟩ (vertices.map .lineTo ++ rest) =
        windingFrom sqrt point ⟨total', start, last', false⟩ rest ∧ total' + windingLine last' start point =
        total + Cycles.along (fun a b => windingLine a b point) start last vertices := by
  induction vertices generalizing total last with
  | nil => exact ⟨total, last, rfl, rfl⟩
  | cons v vertices ih =>
    obtain ⟨total', last', hr, ht⟩ := ih (total + windingLine last v point) v
    refine ⟨total', last', hr, ?_⟩
    rw [ht, Cycles.along, add_assoc]

theorem windingFrom_polygons (polygons : List (Polygon α)) (s : WindingLocals α) :
    windingFrom sqrt point s (polygons.flatMap Polygon.elements) =
      some (s.closing point + (polygons.map (polygonTotal point)).sum) := by
  induction polygons generalizing s with
  | nil => simp [windingFrom]
  | cons poly polygons ih =>
    rw [List.flatMap_cons, Polygon.elements, List.cons_append, List.append_assoc, windingFrom, List.map_cons,
      List.sum_cons, ← add_assoc]
    have ht : polygonTotal point poly =
        Cycles.along (fun a b => windingLine a b point) poly.first poly.first poly.others :=
      Cycles.sum_pairs_cons (fun a b => windingLine a b point) poly.first poly.others
    obtain ⟨total, last, hr, hs⟩ := windingFrom_lines sqrt point poly.others (s.closing point) poly.first
      poly.first ((if poly.closed then [.closePath] else []) ++ polygons.flatMap Polygon.elements)
    rw [hr, ht, ← hs]
    cases poly.closed with
    | true =>
      rw [if_pos rfl, List.singleton_append, windingFrom, if_neg Bool.false_ne_true, ih]
      rfl
    | false =>
      rw [if_neg Bool.false_ne_true, List.nil_append, ih]
      rfl

theorem windingTotal_polygons {self : NSBezierPath α} {polygons : List (Polygon α)}
    (he : self.pathElements = polygons.flatMap Polygon.elements) :
    windingTotal sqrt self point = some (polygons.map (polygonTotal point)).sum := by
  unfold windingTotal
  cases polygons with
  | nil =>
    rw [he]
    rfl
  | cons poly polygons =>
    have hr := windingFrom_polygons sqrt point (poly :: polygons) ⟨0, poly.first, poly.first, true⟩
    rw [← he] at hr
    have hf : self.pathElements = .moveTo poly.first :: (self.pathElements.drop 1) := by
      rw [he]
      rfl
    rw [hf] at hr ⊢
    change windingFrom sqrt point ⟨0, poly.first, poly.first, false⟩ _ = _ at hr
    refine hr.trans ?_
    simp [WindingLocals.closing]

end Polygons

/-! ## The count -/

section Count

variable {α : Type u} [Field α] [LinearOrder α] [IsStrictOrderedRing α] (sqrt : α → α) {point : NSPoint α}
  {polygons : List (Polygon α)}

variable {poly : Polygon α}

theorem polygonTotal_eq (ho : ∀ e ∈ poly.edges, ¬ OnSegment (.line e.1 e.2) point) :
    polygonTotal point poly = 2 * (poly.edges.map fun e => crossing (aboveLine point) point e.1 e.2).sum := by
  rw [← List.sum_map_mul_left]
  exact Cycles.sum_pairs_congr (fun a b => windingLine a b point)
    (fun a b => 2 * crossing (aboveLine point) point a b) (onLine point) fun e he => windingLine_eq_crossing (ho e he)

theorem polygonTotal_eq_above (ho : ∀ e ∈ poly.edges, ¬ OnSegment (.line e.1 e.2) point) :
    polygonTotal point poly = 2 * (poly.edges.map fun e => crossing (notBelowLine point) point e.1 e.2).sum := by
  rw [← List.sum_map_mul_left]
  exact Cycles.sum_pairs_congr (fun a b => windingLine a b point)
    (fun a b => 2 * crossing (notBelowLine point) point a b) (fun v => -onLine point v)
    fun e he => windingLine_eq_crossing_above (ho e he)

theorem sum_polygonTotal (ho : ∀ poly ∈ polygons, ∀ e ∈ poly.edges, ¬ OnSegment (.line e.1 e.2) point) :
    (polygons.map (polygonTotal point)).sum = 2 * crossings (aboveLine point) point polygons := by
  rw [crossings, ← List.sum_map_mul_left]
  exact congrArg List.sum (List.map_congr_left fun poly hp => polygonTotal_eq (ho poly hp))

theorem sum_polygonTotal_above (ho : ∀ poly ∈ polygons, ∀ e ∈ poly.edges, ¬ OnSegment (.line e.1 e.2) point) :
    (polygons.map (polygonTotal point)).sum = 2 * crossings (notBelowLine point) point polygons := by
  rw [crossings, ← List.sum_map_mul_left]
  exact congrArg List.sum (List.map_congr_left fun poly hp => polygonTotal_eq_above (ho poly hp))

/-- Where the line of an edge meets a point the edge does. -/
theorem onSegment_of_crossX {a b : NSPoint α} (hne : a.y ≠ b.y)
    (hs : (b.y ≤ point.y ∧ point.y ≤ a.y) ∨ (a.y ≤ point.y ∧ point.y ≤ b.y)) (hc : crossX point a b = point.x) :
    OnSegment (.line a b) point := by
  have hd : b.y - a.y ≠ 0 := sub_ne_zero.mpr hne.symm
  have hd' : a.y - b.y ≠ 0 := sub_ne_zero.mpr hne
  refine ⟨(point.y - a.y) / (b.y - a.y), ?_, ?_, ?_⟩
  · rcases hs with ⟨h, h'⟩ | ⟨h, h'⟩
    · exact div_nonneg_of_nonpos (by linarith) (by linarith)
    · exact div_nonneg (by linarith) (by linarith)
  · rcases hs with ⟨h, h'⟩ | ⟨h, h'⟩
    · have hn : b.y - a.y < 0 := sub_neg.mpr (lt_of_le_of_ne (h.trans h') hne.symm)
      rw [div_le_one_of_neg hn]
      linarith
    · have hp : 0 < b.y - a.y := sub_pos.mpr (lt_of_le_of_ne (h.trans h') hne)
      rw [div_le_one hp]
      linarith
  · have hx : point.x = a.x + (point.y - a.y) / (b.y - a.y) * (b.x - a.x) := by
      rw [← hc]
      unfold crossX
      field_simp
      ring
    have hy : point.y = a.y + (point.y - a.y) / (b.y - a.y) * (b.y - a.y) := by
      rw [div_mul_cancel₀ _ hd]
      ring
    exact congrArg₂ NSPoint.mk hx hy

theorem sum_crossing_outside {r : NSRect α} (hin : ∀ q ∈ poly.vertices, r.Contains q)
    (ho : pointInRect point r = false) (hoff : ∀ e ∈ poly.edges, ¬ OnSegment (.line e.1 e.2) point) :
    (poly.edges.map fun e => crossing (aboveLine point) point e.1 e.2).sum = 0 := by
  have hen : ∀ e ∈ poly.edges, r.Contains e.1 ∧ r.Contains e.2 := fun e he =>
    ⟨hin _ (Cycles.mem_of_mem_pairs he).1, hin _ (Cycles.mem_of_mem_pairs he).2⟩
  -- an edge whose ends are on different sides of the line passes its height
  have hsp : ∀ e : NSPoint α × NSPoint α, aboveLine point e.1 ≠ aboveLine point e.2 → e.1.y ≠ e.2.y ∧
      ((e.2.y ≤ point.y ∧ point.y ≤ e.1.y) ∨ (e.1.y ≤ point.y ∧ point.y ≤ e.2.y)) := by
    intro e hne
    unfold aboveLine at hne
    grind
  have hsd : point.x < r.origin.x ∨ point.y < r.origin.y ∨ r.origin.x + r.width ≤ point.x ∨
      r.origin.y + r.height ≤ point.y := by
    unfold pointInRect at ho
    rw [decide_eq_false_iff_not] at ho
    grind
  rcases hsd with hl | hb | hr | ha
  · -- all edges are on the right
    refine List.sum_eq_zero fun n hn => ?_
    obtain ⟨e, he, rfl⟩ := List.mem_map.mp hn
    obtain ⟨⟨hx, -⟩, ⟨hx', -⟩⟩ := hen e he
    by_cases hs : aboveLine point e.1 = aboveLine point e.2
    · unfold crossing
      grind
    · obtain ⟨hne, hp⟩ := hsp e hs
      have hc := (crossX_bounds hne hp).1
      have hm := le_min hx hx'
      unfold crossing
      rw [if_neg fun h => absurd h.2.2 (by linarith), if_neg fun h => absurd h.2.2 (by linarith)]
  · refine List.sum_eq_zero fun n hn => ?_
    obtain ⟨e, he, rfl⟩ := List.mem_map.mp hn
    obtain ⟨⟨-, -, hy, -⟩, ⟨-, -, hy', -⟩⟩ := hen e he
    unfold crossing aboveLine
    grind
  · -- all edges over the height are on the left
    have hd : ∀ e ∈ poly.edges, crossing (aboveLine point) point e.1 e.2 =
        (if aboveLine point e.2 then 1 else 0) - if aboveLine point e.1 then 1 else 0 := by
      intro e he
      obtain ⟨⟨-, hx, -⟩, ⟨-, hx', -⟩⟩ := hen e he
      by_cases hs : aboveLine point e.1 = aboveLine point e.2
      · unfold crossing
        grind
      · obtain ⟨hne, hp⟩ := hsp e hs
        have hc := (crossX_bounds hne hp).2
        have hmax := max_le hx hx'
        have hlt : crossX point e.1 e.2 < point.x :=
          lt_of_le_of_ne (by linarith) fun h => hoff e he (onSegment_of_crossX hne hp h)
        unfold crossing
        grind
    rw [List.map_congr_left hd]
    exact Cycles.sum_differences (fun v => if aboveLine point v then (1 : Int) else 0) poly.vertices
  · refine List.sum_eq_zero fun n hn => ?_
    obtain ⟨e, he, rfl⟩ := List.mem_map.mp hn
    obtain ⟨⟨-, -, -, hy⟩, ⟨-, -, -, hy'⟩⟩ := hen e he
    unfold crossing aboveLine
    grind

variable {self : NSBezierPath α}

omit [IsStrictOrderedRing α] in
theorem contains_polygon_vertex {pts : AssociatedPoints α}
    (he : self.pathElements = polygons.flatMap Polygon.elements) (hp : poly ∈ polygons)
    {q : NSPoint α} (hq : q ∈ poly.vertices) : (bounds sqrt pts self).Contains q := by
  have hm : .moveTo q ∈ self.pathElements ∨ .lineTo q ∈ self.pathElements := by
    rw [he]
    rcases List.mem_cons.mp hq with rfl | hother
    · exact .inl (List.mem_flatMap.mpr ⟨poly, hp, List.mem_cons_self ..⟩)
    · exact .inr (List.mem_flatMap.mpr ⟨poly, hp,
        List.mem_cons_of_mem _ (List.mem_append_left _ (List.mem_map_of_mem hother))⟩)
  obtain ⟨p, rest, hf⟩ : ∃ p rest, self.pathElements = .moveTo p :: rest := by
    rw [he]
    cases polygons with
    | nil => exact absurd hp List.not_mem_nil
    | cons first polygons => exact ⟨first.first, _, rfl⟩
  exact contains_vertex sqrt hf hm

theorem windingCountAtPoint_polygons (he : self.pathElements = polygons.flatMap Polygon.elements)
    (ho : ∀ poly ∈ polygons, ∀ e ∈ poly.edges, ¬ OnSegment (.line e.1 e.2) point) :
    windingCountAtPoint sqrt self point = crossings (aboveLine point) point polygons := by
  unfold windingCountAtPoint
  rw [windingTotal_polygons sqrt point he, sum_polygonTotal ho]
  exact Int.mul_tdiv_cancel_left _ (by decide)

theorem containsPoint_polygons {pts : AssociatedPoints α}
    (hel : self.pathElements = polygons.flatMap Polygon.elements)
    (ho : ∀ poly ∈ polygons, ∀ e ∈ poly.edges, ¬ OnSegment (.line e.1 e.2) point) :
    containsPoint sqrt pts self point = true ↔
      if self.windingRule = nonZeroWindingRule then crossings (aboveLine point) point polygons ≠ 0
      else Odd (crossings (aboveLine point) point polygons) := by
  have hz : crossings (aboveLine point) point polygons = 0 →
      (False ↔ if self.windingRule = nonZeroWindingRule then crossings (aboveLine point) point polygons ≠ 0
        else Odd (crossings (aboveLine point) point polygons)) := by
    intro h
    rw [h]
    split <;> simp
  unfold containsPoint
  by_cases he : self.elementCount = 0
  · rw [if_pos he, Bool.false_eq_true]
    refine hz ?_
    cases polygons with
    | nil => rfl
    | cons first polygons =>
      rw [NSBezierPath.elementCount, hel] at he
      exact absurd he (Nat.succ_ne_zero _)
  · rw [if_neg he]
    cases hr : pointInRect point (bounds sqrt pts self) with
    | false =>
      rw [if_pos (by rfl), Bool.false_eq_true]
      refine hz (List.sum_eq_zero fun n hn => ?_)
      obtain ⟨poly, hp, rfl⟩ := List.mem_map.mp hn
      exact sum_crossing_outside (fun q hq => contains_polygon_vertex sqrt hel hp hq) hr (ho poly hp)
    | true =>
      rw [if_neg (by decide), windingCountAtPoint_polygons sqrt hel ho]
      dsimp only
      split
      · rw [decide_eq_true_iff]
      · rw [decide_eq_true_iff, ← Int.not_even_iff_odd, even_iff_two_dvd, Int.dvd_iff_tmod_eq_zero]

theorem winding_polygons (pts : AssociatedPoints α) {self : NSBezierPath α}
    (helements : self.pathElements = polygons.flatMap Polygon.elements)
    (hoff : ∀ poly ∈ polygons, ∀ e ∈ poly.edges, ¬ OnSegment (.line e.1 e.2) point) :
    (∃ total, windingTotal sqrt self point = some total ∧ Even total ∧
        total = 2 * windingCountAtPoint sqrt self point) ∧
      windingCountAtPoint sqrt self point = crossings (aboveLine point) point polygons ∧
      windingCountAtPoint sqrt self point = crossings (notBelowLine point) point polygons ∧
      (∀ (other : NSBezierPath α) (polygons' : List (Polygon α)),
        other.pathElements = polygons'.flatMap Polygon.elements →
        List.Forall₂ (fun poly poly' => List.IsRotated poly.vertices poly'.vertices) polygons polygons' →
        windingCountAtPoint sqrt other point = windingCountAtPoint sqrt self point) ∧
      (containsPoint sqrt pts self point = true ↔
        if self.windingRule = nonZeroWindingRule then windingCountAtPoint sqrt self point ≠ 0
        else Odd (windingCountAtPoint sqrt self point)) := by
  have hc := windingCountAtPoint_polygons sqrt helements hoff
  refine ⟨⟨_, windingTotal_polygons sqrt point helements, ?_, ?_⟩, hc, ?_, ?_, ?_⟩
  · rw [sum_polygonTotal hoff]
    exact even_two_mul _
  · rw [sum_polygonTotal hoff, hc]
  · have hb := (sum_polygonTotal hoff).symm.trans (sum_polygonTotal_above hoff)
    rw [hc]
    omega
  · intro other polygons' hother hr
    unfold windingCountAtPoint
    rw [windingTotal_polygons sqrt point hother, windingTotal_polygons sqrt point helements]
    have hs : (polygons'.map (polygonTotal point)) = polygons.map (polygonTotal point) := by
      clear helements hoff hc hother
      induction hr with
      | nil => rfl
      | cons hf _ ih =>
        rw [List.map_cons, List.map_cons, ih]
        exact congrArg₂ List.cons (Cycles.sum_pairs_of_isRotated (fun a b => windingLine a b point) hf) rfl
    rw [hs]
  · rw [hc]
    exact containsPoint_polygons sqrt helements hoff

end Count

/-- A square on its corner, two of its vertices at the height of its center. -/
def diamond : Polygon ℚ := ⟨⟨0, -2⟩, [⟨2, 0⟩, ⟨0, 2⟩, ⟨-2, 0⟩], true⟩

def diamondPath : NSBezierPath ℚ :=
  { NSBezierPath.init ⟨1, 1, 0, 0, 10, 0, 0⟩ with pathElements := [diamond].flatMap Polygon.elements }

theorem winding_diamond :
    (∃ total, windingTotal id diamondPath ⟨0, 0⟩ = some total ∧ Even total ∧
        total = 2 * windingCountAtPoint id diamondPath ⟨0, 0⟩) ∧
      windingCountAtPoint id diamondPath ⟨0, 0⟩ = crossings (aboveLine ⟨0, 0⟩) ⟨0, 0⟩ [diamond] := by
  have ho : ∀ poly ∈ [diamond], ∀ e ∈ poly.edges, ¬ OnSegment (.line e.1 e.2) (⟨0, 0⟩ : NSPoint ℚ) := by
    rintro poly hp e he ⟨t, -, -, hpt⟩
    have hedg : poly.edges = [(⟨0, -2⟩, ⟨2, 0⟩), (⟨2, 0⟩, ⟨0, 2⟩), (⟨0, 2⟩, ⟨-2, 0⟩), (⟨-2, 0⟩, ⟨0, -2⟩)] := by
      rw [List.mem_singleton.mp hp]
      rfl
    obtain ⟨hx, hy⟩ := NSPoint.mk.inj hpt
    rw [hedg] at he
    simp only [List.mem_cons, List.not_mem_nil, or_false] at he
    rcases he with rfl | rfl | rfl | rfl <;> dsimp only at hx hy <;> linarith
  have h := @winding_polygons ℚ _ _ _ id ⟨0, 0⟩ [diamond] ⟨⟨0, 0⟩, ⟨0, 0⟩, ⟨0, 0⟩⟩ diamondPath rfl ho
  exact ⟨h.1, h.2.1⟩

end GnustepGui.BezierPath
