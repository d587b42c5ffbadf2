import GnustepGui.Library.Plane
import GnustepGui.Library.Stacking
import Mathlib.Data.Rat.Floor

/-!
# The rows of `NSTableView` as rectangles

Where the rows are, and which row is at a point: `rectOfRow:`, `rowAtPoint:` and the drop computation
`_computedRowAtPoint:`, for rows of one height and for rows with heights of their own, with exact
arithmetic. All agree where the rows have heights of their own; for rows of one height the drop
computation agrees with the others if and only if the height is integral and there is at most one row
height of room below the rows, or the bounds are not higher than the integral part of one row
(`rowGeometry_iff`).
-/

namespace GnustepGui.TableView

open Plane

/-- The conversion `(NSInteger)q`, towards zero. -/
def trunc (q : ℚ) : Int := if 0 ≤ q then ⌊q⌋ else ⌈q⌉

/-- `NSMouseInRect` for a flipped view. -/
def mouseInRect (aPoint : Point ℚ) (aRect : Rect ℚ) : Prop :=
  (aRect.origin.x ≤ aPoint.x ∧ aPoint.x < aRect.origin.x + aRect.size.width) ∧
    (aRect.origin.y ≤ aPoint.y ∧ aPoint.y < aRect.origin.y + aRect.size.height)

instance (aPoint : Point ℚ) (aRect : Rect ℚ) : Decidable (mouseInRect aPoint aRect) := instDecidableAnd

/-- A table, or an outline view whose delegate gives the heights of the rows (`heightOfRow`). -/
structure RowLayout where
  bounds : Rect ℚ
  numberOfRows : Nat
  rowHeight : ℚ
  heightOfRow : Option (Nat → ℚ)

namespace RowLayout

def usesVariableRowHeights (t : RowLayout) : Bool := t.heightOfRow.isSome

def rowHeightForRow (t : RowLayout) (rowIndex : Int) : ℚ :=
  if rowIndex < 0 ∨ rowIndex ≥ t.numberOfRows then t.rowHeight
  else
    match t.heightOfRow with
    | some heightOfRow =>
      let height := heightOfRow rowIndex.toNat
      if height > 0 then height else t.rowHeight
    | none => t.rowHeight

def rowsHeight (t : RowLayout) : ℚ :=
  if t.usesVariableRowHeights = false then t.numberOfRows * t.rowHeight
  else (List.range t.numberOfRows).foldl (fun totalHeight (i : Nat) => totalHeight + t.rowHeightForRow i) 0

def yOriginForRow (t : RowLayout) (rowIndex : Int) : ℚ :=
  if rowIndex ≤ 0 then t.bounds.origin.y
  else if t.usesVariableRowHeights = false then t.bounds.origin.y + t.rowHeight * rowIndex
  else
    (List.range (min rowIndex.toNat t.numberOfRows)).foldl (fun y (i : Nat) => y + t.rowHeightForRow i)
      t.bounds.origin.y

/-- The loop over the rows from `rowIndex` on; none if the position is below the last of them. -/
def findRow (t : RowLayout) (y : ℚ) (currentY : ℚ) (rowIndex : Nat) : Nat → Option Nat
  | 0 => none
  | left + 1 =>
    let height := t.rowHeightForRow rowIndex
    if y < currentY + height then some rowIndex
    else t.findRow y (currentY + height) (rowIndex + 1) left

/-- `rowAtPoint:`, that is `_rowAtPointUsingVariableHeights:` -/
def rowAtPoint (t : RowLayout) (aPoint : Point ℚ) : Int :=
  if ¬ mouseInRect aPoint t.bounds then -1
  else if t.numberOfRows = 0 then -1
  else if t.usesVariableRowHeights = false then
    if t.rowHeight = 0 then -1
    else
      let row := trunc ((aPoint.y - t.bounds.origin.y) / t.rowHeight)
      if row ≥ t.numberOfRows then -1 else row
  else
    let y := aPoint.y - t.bounds.origin.y
    if y < 0 then -1
    else
      match t.findRow y 0 0 t.numberOfRows with
      | some rowIndex => rowIndex
      | none => -1

/-- None is a division by zero. -/
def computedRowAtPoint (t : RowLayout) (p : Point ℚ) : Option Int :=
  if t.usesVariableRowHeights = false then
    if trunc t.rowHeight = 0 then none
    else some ((trunc (p.y - t.bounds.origin.y)).tdiv (trunc t.rowHeight))
  else if t.numberOfRows = 0 then some 0
  else
    let y := p.y - t.bounds.origin.y
    if y ≤ 0 then some 0
    else
      match t.findRow y 0 0 t.numberOfRows with
      | some rowIndex => some rowIndex
      | none => some t.numberOfRows

def rectOfRow (t : RowLayout) (rowIndex : Int) : Rect ℚ :=
  if rowIndex < 0 ∨ rowIndex ≥ t.numberOfRows then ⟨⟨0, 0⟩, ⟨0, 0⟩⟩
  else ⟨⟨t.bounds.origin.x, t.yOriginForRow rowIndex⟩, ⟨t.bounds.size.width, t.rowHeightForRow rowIndex⟩⟩

/-! ## What has to agree -/

/-- The height is one of the row's, which has its upper edge but not its lower one. -/
def InRow (t : RowLayout) (y : ℚ) (rowIndex : Int) : Prop :=
  (t.rectOfRow rowIndex).origin.y ≤ y ∧ y < (t.rectOfRow rowIndex).origin.y + (t.rectOfRow rowIndex).size.height

def bottom (t : RowLayout) : ℚ := t.bounds.origin.y + t.rowsHeight

/-- Every height from the first row to the bottom of the last is in exactly one row, and no other is. -/
def Tiles (t : RowLayout) : Prop :=
  ∀ y, (t.bounds.origin.y ≤ y ∧ y < t.bottom) ↔ ∃! row : Nat, row < t.numberOfRows ∧ t.InRow y row

/-- `rowAtPoint:` is right, and the drop computation is the same in the rows and the row count below
them. -/
structure AgreesAt (t : RowLayout) (p : Point ℚ) : Prop where
  row : ∀ row : Nat, t.rowAtPoint p = row ↔ t.InRow p.y row
  below : t.bottom ≤ p.y → t.rowAtPoint p = -1
  computed : p.y < t.bottom → t.computedRowAtPoint p = some (t.rowAtPoint p)
  computedBelow : t.bottom ≤ p.y → t.computedRowAtPoint p = some t.numberOfRows

structure RowGeometry (t : RowLayout) : Prop where
  tiles : t.Tiles
  agrees : ∀ p, mouseInRect p t.bounds → t.AgreesAt p

/-- The bounds have no points, or the rows suit the integers that the drop computation uses. -/
def SuitsDrops (t : RowLayout) : Prop :=
  t.usesVariableRowHeights = true ∨ t.bounds.size.width ≤ 0 ∨ t.bounds.size.height ≤ 0 ∨
    (t.rowHeight = ⌊t.rowHeight⌋ ∧ t.bounds.size.height ≤ (t.numberOfRows + 1) * t.rowHeight) ∨
    t.bounds.size.height ≤ ⌊t.rowHeight⌋

open Stacking

variable {t : RowLayout} {p : Point ℚ} {y : ℚ} {row : Nat}

/-- The heights of the rows, by row. -/
def height (t : RowLayout) (row : Nat) : ℚ := t.rowHeightForRow row

/-! ## The rows -/

theorem height_pos (hpos : 0 < t.rowHeight) (row : Nat) : 0 < t.height row := by
  unfold height rowHeightForRow
  split
  · exact hpos
  · split
    · dsimp only
      split
      · assumption
      · exact hpos
    · exact hpos

theorem height_uniform (hu : t.usesVariableRowHeights = false) : t.height = fun _ => t.rowHeight := by
  have hn : t.heightOfRow = none := Option.isSome_eq_false_iff.mp hu |> Option.isNone_iff_eq_none.mp
  funext row
  unfold height rowHeightForRow
  rw [hn]
  split <;> rfl

theorem foldl_heights (t : RowLayout) (a : ℚ) (n : Nat) :
    (List.range n).foldl (fun y (i : Nat) => y + t.rowHeightForRow i) a = a + top t.height n := by
  induction n with
  | zero => rw [top_zero, add_zero, List.range_zero, List.foldl_nil]
  | succ n ih =>
    rw [List.range_succ, List.foldl_append, ih, List.foldl_cons, List.foldl_nil, top_succ, add_assoc, height]

theorem rowsHeight_eq (t : RowLayout) : t.rowsHeight = top t.height t.numberOfRows := by
  unfold rowsHeight
  split
  · rename_i hu
    rw [height_uniform hu, top_const, nsmul_eq_mul]
  · rw [foldl_heights, zero_add]

theorem yOriginForRow_eq (hr : row ≤ t.numberOfRows) : t.yOriginForRow row = t.bounds.origin.y + top t.height row := by
  unfold yOriginForRow
  split
  · rename_i hz
    obtain rfl : row = 0 := by omega
    rw [top_zero, add_zero]
  · split
    · rename_i hu
      rw [height_uniform hu, top_const, nsmul_eq_mul, Int.cast_natCast, mul_comm]
    · rw [foldl_heights, Int.toNat_natCast, Nat.min_eq_left hr]

theorem inRow_iff : t.InRow y row ↔ row < t.numberOfRows ∧ Holds t.height (y - t.bounds.origin.y) row := by
  unfold InRow rectOfRow
  by_cases hr : row < t.numberOfRows
  · rw [if_neg (by omega), and_iff_right hr]
    dsimp only
    rw [yOriginForRow_eq hr.le, Holds, top_succ]
    constructor
    · exact fun ⟨hle, hlt⟩ => ⟨by linarith, by unfold height at *; linarith⟩
    · exact fun ⟨hle, hlt⟩ => ⟨by linarith, by unfold height at *; linarith⟩
  · rw [if_pos (by omega)]
    refine iff_of_false ?_ fun h => hr h.1
    rintro ⟨hle, hlt⟩
    dsimp only at hle hlt
    linarith

theorem bottom_eq (t : RowLayout) : t.bottom = t.bounds.origin.y + top t.height t.numberOfRows := by
  rw [bottom, rowsHeight_eq]

theorem tiles (hpos : 0 < t.rowHeight) : t.Tiles := by
  intro y
  have hh : ∀ k < t.numberOfRows, 0 < t.height k := fun k _ => height_pos hpos k
  rw [bottom_eq]
  constructor
  · rintro ⟨hle, hlt⟩
    obtain ⟨row, hr, hhol⟩ := exists_holds (h := t.height) (y := y - t.bounds.origin.y) (n := t.numberOfRows)
      (by linarith) (by linarith)
    refine ⟨row, ⟨hr, inRow_iff.mpr ⟨hr, hhol⟩⟩, fun row' h => ?_⟩
    exact (inRow_iff.mp h.2).2.unique hh h.1 hr hhol
  · rintro ⟨row, ⟨hr, hin⟩, -⟩
    obtain ⟨hle, hlt⟩ := (inRow_iff.mp hin).2.bounds hh hr
    exact ⟨by linarith, by linarith⟩

/-! ## The loops -/

theorem findRow_spec (left : Nat) (hy : top t.height row ≤ y) :
    match t.findRow y (top t.height row) row left with
    | some found => found < row + left ∧ Holds t.height y found
    | none => top t.height (row + left) ≤ y := by
  induction left generalizing row with
  | zero => exact hy
  | succ left ih =>
    unfold findRow
    have hs : top t.height row + t.rowHeightForRow row = top t.height (row + 1) := (top_succ t.height row).symm
    dsimp only
    rw [hs]
    by_cases hlt : y < top t.height (row + 1)
    · rw [if_pos hlt]
      exact ⟨by omega, hy, hlt⟩
    · rw [if_neg hlt]
      have hr := ih (not_lt.mp hlt)
      rw [Nat.add_right_comm] at hr
      exact hr

theorem findRow_eq_some_iff (hpos : 0 < t.rowHeight) (hy : 0 ≤ y) :
    t.findRow y 0 0 t.numberOfRows = some row ↔ row < t.numberOfRows ∧ Holds t.height y row := by
  have hh : ∀ k < t.numberOfRows, 0 < t.height k := fun k _ => height_pos hpos k
  have hs := @findRow_spec t y 0 t.numberOfRows (by rwa [top_zero])
  rw [top_zero, Nat.zero_add] at hs
  cases hf : t.findRow y 0 0 t.numberOfRows with
  | some found =>
    rw [hf] at hs
    obtain ⟨hlt, hhol⟩ := hs
    rw [Option.some_inj]
    constructor
    · rintro rfl
      exact ⟨hlt, hhol⟩
    · exact fun h => hhol.unique hh hlt h.1 h.2
  | none =>
    rw [hf] at hs
    refine iff_of_false nofun fun h => ?_
    exact absurd (h.2.bounds hh h.1).2 (not_lt.mpr hs)

theorem trunc_of_nonneg {q : ℚ} (hq : 0 ≤ q) : trunc q = ⌊q⌋ := if_pos hq

theorem holds_uniform_iff {c : ℚ} (hc : 0 < c) : Holds (fun _ => c) y row ↔ ⌊y / c⌋ = row := by
  rw [Holds, top_const, top_const, nsmul_eq_mul, nsmul_eq_mul, Int.floor_eq_iff, le_div_iff₀ hc, div_lt_iff₀ hc]
  push_cast
  rfl

section Positive

variable (hpos : 0 < t.rowHeight)

include hpos

/-! ## The row at a point -/

theorem rowAtPoint_cases (hin : mouseInRect p t.bounds) :
    (∃ row < t.numberOfRows, t.rowAtPoint p = row ∧ Holds t.height (p.y - t.bounds.origin.y) row) ∨
      (t.rowAtPoint p = -1 ∧ t.bottom ≤ p.y) := by
  have hy : 0 ≤ p.y - t.bounds.origin.y := sub_nonneg.mpr hin.2.1
  have hb : t.bottom ≤ p.y ↔ top t.height t.numberOfRows ≤ p.y - t.bounds.origin.y := by
    rw [bottom_eq, le_sub_iff_add_le']
  rw [hb]
  unfold rowAtPoint
  rw [if_neg (not_not.mpr hin)]
  by_cases hz : t.numberOfRows = 0
  · rw [if_pos hz]
    exact .inr ⟨rfl, by rwa [hz, top_zero]⟩
  rw [if_neg hz]
  by_cases hu : t.usesVariableRowHeights = false
  · rw [if_pos hu, if_neg hpos.ne', trunc_of_nonneg (div_nonneg hy hpos.le), height_uniform hu]
    dsimp only
    have hflr : 0 ≤ ⌊(p.y - t.bounds.origin.y) / t.rowHeight⌋ := Int.floor_nonneg.mpr (div_nonneg hy hpos.le)
    split
    · rename_i hblw
      refine .inr ⟨rfl, ?_⟩
      rwa [ge_iff_le, Int.le_floor, le_div_iff₀ hpos, Int.cast_natCast, ← nsmul_eq_mul, ← top_const] at hblw
    · rename_i ha
      refine .inl ⟨⌊(p.y - t.bounds.origin.y) / t.rowHeight⌋.toNat, by omega, by omega, ?_⟩
      rw [holds_uniform_iff hpos]
      omega
  · rw [if_neg hu]
    dsimp only
    rw [if_neg (not_lt.mpr hy)]
    cases hf : t.findRow (p.y - t.bounds.origin.y) 0 0 t.numberOfRows with
    | some row =>
      obtain ⟨hr, hh⟩ := (findRow_eq_some_iff hpos hy).mp hf
      exact .inl ⟨row, hr, rfl, hh⟩
    | none =>
      refine .inr ⟨rfl, not_lt.mp fun hlt => ?_⟩
      obtain ⟨row, hr, hh⟩ := exists_holds hy hlt
      rw [(findRow_eq_some_iff hpos hy).mpr ⟨hr, hh⟩] at hf
      cases hf

theorem rowAtPoint_eq_iff (hin : mouseInRect p t.bounds) (row : Nat) : t.rowAtPoint p = row ↔ t.InRow p.y row := by
  have hh : ∀ k < t.numberOfRows, 0 < t.height k := fun k _ => height_pos hpos k
  rw [inRow_iff]
  rcases rowAtPoint_cases hpos hin with ⟨found, hf, heq, hhol⟩ | ⟨heq, hb⟩
  · rw [heq, Int.natCast_inj]
    constructor
    · rintro rfl
      exact ⟨hf, hhol⟩
    · exact fun h => hhol.unique hh hf h.1 h.2
  · rw [heq]
    refine iff_of_false (by omega) fun h => ?_
    have hlt := (h.2.bounds hh h.1).2
    rw [bottom_eq] at hb
    linarith

theorem rowAtPoint_below (hin : mouseInRect p t.bounds) (hb : t.bottom ≤ p.y) : t.rowAtPoint p = -1 := by
  rcases rowAtPoint_cases hpos hin with ⟨row, hr, -, hh⟩ | ⟨heq, -⟩
  · have hlt := (hh.bounds (fun k _ => height_pos hpos k) hr).2
    rw [bottom_eq] at hb
    linarith
  · exact heq

/-- What is left to show of the drop computation: that it gives the row that holds the point, or the row
count. -/
theorem agreesAt_iff (hin : mouseInRect p t.bounds) : t.AgreesAt p ↔
      (∀ row < t.numberOfRows, Holds t.height (p.y - t.bounds.origin.y) row → t.computedRowAtPoint p = some ↑row) ∧
        (t.bottom ≤ p.y → t.computedRowAtPoint p = some ↑t.numberOfRows) := by
  constructor
  · intro h
    refine ⟨fun row hr hh => ?_, h.computedBelow⟩
    have hlt := (hh.bounds (fun k _ => height_pos hpos k) hr).2
    rw [h.computed (by rw [bottom_eq]; linarith), (h.row row).mpr (inRow_iff.mpr ⟨hr, hh⟩)]
  · rintro ⟨hrw, hb⟩
    refine ⟨rowAtPoint_eq_iff hpos hin, rowAtPoint_below hpos hin, fun ha => ?_, hb⟩
    rcases rowAtPoint_cases hpos hin with ⟨row, hr, heq, hh⟩ | ⟨-, hle⟩
    · rw [heq, hrw row hr hh]
    · exact absurd ha (not_lt.mpr hle)

/-! ## The drop computation -/

theorem agreesAt_variable (hv : t.usesVariableRowHeights = true) (hin : mouseInRect p t.bounds) : t.AgreesAt p := by
  have hy : 0 ≤ p.y - t.bounds.origin.y := sub_nonneg.mpr hin.2.1
  have hhts : ∀ k < t.numberOfRows, 0 < t.height k := fun k _ => height_pos hpos k
  rw [agreesAt_iff hpos hin]
  unfold computedRowAtPoint
  rw [if_neg (by rw [hv]; exact Bool.noConfusion)]
  by_cases hz : t.numberOfRows = 0
  · rw [if_pos hz]
    exact ⟨fun row hr => absurd hr (by omega), fun _ => by rw [hz]; rfl⟩
  rw [if_neg hz]
  dsimp only
  by_cases hf : p.y - t.bounds.origin.y ≤ 0
  · -- the upper edge of the first row
    have ht : p.y - t.bounds.origin.y = 0 := le_antisymm hf hy
    have hh : Holds t.height 0 0 := by
      rw [Holds, top_succ, top_zero, zero_add]
      exact ⟨le_rfl, height_pos hpos 0⟩
    rw [if_pos hf, ht]
    refine ⟨fun row hr h => ?_, fun hb => ?_⟩
    · rw [h.unique hhts hr (Nat.pos_of_ne_zero hz) hh]
      rfl
    · have hlt := (hh.bounds hhts (Nat.pos_of_ne_zero hz)).2
      rw [bottom_eq] at hb
      linarith
  · rw [if_neg hf]
    constructor
    · intro row hr hh
      rw [(findRow_eq_some_iff hpos hy).mpr ⟨hr, hh⟩]
    · intro hb
      cases hfnd : t.findRow (p.y - t.bounds.origin.y) 0 0 t.numberOfRows with
      | some row =>
        obtain ⟨hr, hh⟩ := (findRow_eq_some_iff hpos hy).mp hfnd
        have hlt := (hh.bounds hhts hr).2
        rw [bottom_eq] at hb
        linarith
      | none => rfl

theorem agreesAt_uniform_iff (hu : t.usesVariableRowHeights = false) (hin : mouseInRect p t.bounds) :
    t.AgreesAt p ↔ ⌊t.rowHeight⌋ ≠ 0 ∧
      ⌊p.y - t.bounds.origin.y⌋ / ⌊t.rowHeight⌋ = min ⌊(p.y - t.bounds.origin.y) / t.rowHeight⌋ t.numberOfRows := by
  have hy : 0 ≤ p.y - t.bounds.origin.y := sub_nonneg.mpr hin.2.1
  have hb : t.bottom ≤ p.y ↔ (t.numberOfRows : Int) ≤ ⌊(p.y - t.bounds.origin.y) / t.rowHeight⌋ := by
    rw [bottom_eq, height_uniform hu, top_const, nsmul_eq_mul, Int.le_floor, le_div_iff₀ hpos,
      Int.cast_natCast, le_sub_iff_add_le']
  have hc : ∀ row : Int, t.computedRowAtPoint p = some row ↔
      ⌊t.rowHeight⌋ ≠ 0 ∧ ⌊p.y - t.bounds.origin.y⌋ / ⌊t.rowHeight⌋ = row := by
    intro row
    unfold computedRowAtPoint
    rw [if_pos hu, trunc_of_nonneg hpos.le, trunc_of_nonneg hy]
    by_cases hz : ⌊t.rowHeight⌋ = 0
    · rw [if_pos hz]
      exact iff_of_false nofun fun h => h.1 hz
    · rw [if_neg hz, Option.some_inj, and_iff_right hz, Int.tdiv_eq_ediv_of_nonneg (Int.floor_nonneg.mpr hy)]
  have hf : 0 ≤ ⌊(p.y - t.bounds.origin.y) / t.rowHeight⌋ := Int.floor_nonneg.mpr (div_nonneg hy hpos.le)
  rw [agreesAt_iff hpos hin, hb, height_uniform hu]
  simp only [hc, holds_uniform_iff hpos]
  generalize ⌊(p.y - t.bounds.origin.y) / t.rowHeight⌋ = row at *
  constructor
  · rintro ⟨hrw, hblw⟩
    by_cases hle : (t.numberOfRows : Int) ≤ row
    · rw [min_eq_right hle]
      exact hblw hle
    · rw [min_eq_left (by omega)]
      have hfnd := hrw row.toNat (by omega) (by omega)
      rwa [Int.toNat_of_nonneg hf] at hfnd
  · intro h
    constructor
    · rintro row' hr' rfl
      rwa [min_eq_left (by omega)] at h
    · intro hle
      rwa [min_eq_right hle] at h

/-! ## All points -/

theorem agreesAt_heights_iff (hu : t.usesVariableRowHeights = false) (hw : 0 < t.bounds.size.width) :
    (∀ p, mouseInRect p t.bounds → t.AgreesAt p) ↔ ∀ v, 0 ≤ v → v < t.bounds.size.height →
        ⌊t.rowHeight⌋ ≠ 0 ∧ ⌊v⌋ / ⌊t.rowHeight⌋ = min ⌊v / t.rowHeight⌋ t.numberOfRows := by
  constructor
  · intro h v hv hlt
    have hin : mouseInRect ⟨t.bounds.origin.x, t.bounds.origin.y + v⟩ t.bounds :=
      ⟨⟨le_rfl, by dsimp only; linarith⟩, by dsimp only; linarith, by dsimp only; linarith⟩
    have ha := (agreesAt_uniform_iff hpos hu hin).mp (h _ hin)
    dsimp only at ha
    rwa [add_sub_cancel_left] at ha
  · intro h p hin
    obtain ⟨-, hle, hlt⟩ := id hin
    exact (agreesAt_uniform_iff hpos hu hin).mpr (h _ (by linarith) (by linarith))

omit hpos in
theorem quotients_agree_iff {h height : ℚ} (hh : 0 < h) (hht : 0 < height) (n : Nat) :
    (∀ v, 0 ≤ v → v < height → ⌊h⌋ ≠ 0 ∧ ⌊v⌋ / ⌊h⌋ = min ⌊v / h⌋ n) ↔
      (h = ⌊h⌋ ∧ height ≤ (n + 1) * h) ∨ height ≤ ⌊h⌋ := by
  have hf : 0 ≤ ⌊h⌋ := Int.floor_nonneg.mpr hh.le
  constructor
  · intro ha
    obtain ⟨hne, -⟩ := ha 0 le_rfl hht
    have ho : 1 ≤ ⌊h⌋ := by omega
    by_cases hs : height ≤ ⌊h⌋
    · exact .inr hs
    -- the height of the integral part is still in the first row, if it is not the whole height
    obtain ⟨-, hfst⟩ := ha ⌊h⌋ (by exact_mod_cast hf) (not_le.mp hs)
    rw [Int.floor_intCast, Int.ediv_self hne] at hfst
    have hr : 1 ≤ ⌊(⌊h⌋ : ℚ) / h⌋ := by omega
    have hintegral : h = ⌊h⌋ := by
      rw [Int.le_floor, Int.cast_one, le_div_iff₀ hh, one_mul] at hr
      exact le_antisymm hr (Int.floor_le h)
    refine .inl ⟨hintegral, not_lt.mp fun hl => ?_⟩
    obtain ⟨-, hb⟩ := ha ((n + 1) * h) (by positivity) hl
    have hc : ((n : ℚ) + 1) * h = ((n + 1 : Int) * ⌊h⌋ : Int) := by
      rw [Int.cast_mul, ← hintegral]
      push_cast
      rfl
    rw [hc, Int.floor_intCast, Int.mul_ediv_cancel _ hne] at hb
    omega
  · rintro (⟨hintegral, hrm⟩ | hs) v hv hlt
    · have hne : ⌊h⌋ ≠ 0 := by
        intro hz
        rw [hz, Int.cast_zero] at hintegral
        exact hh.ne' hintegral
      have hr : ⌊v / h⌋ = ⌊v⌋ / ⌊h⌋ := by rw [← Int.floor_div_cast_of_nonneg hf, ← hintegral]
      have hle : ⌊v / h⌋ < n + 1 := by
        rw [Int.floor_lt, div_lt_iff₀ hh]
        push_cast
        exact hlt.trans_le hrm
      exact ⟨hne, by rw [← hr, min_eq_left (by omega)]⟩
    · have hvh : ⌊v⌋ < ⌊h⌋ := Int.floor_lt.mpr (hlt.trans_le hs)
      have hv0 : 0 ≤ ⌊v⌋ := Int.floor_nonneg.mpr hv
      have hz : ⌊v / h⌋ = 0 := by
        rw [Int.floor_eq_zero_iff]
        exact ⟨div_nonneg hv hh.le, (div_lt_one hh).mpr ((hlt.trans_le hs).trans_le (Int.floor_le h))⟩
      refine ⟨by omega, ?_⟩
      rw [hz, Int.ediv_eq_zero_of_lt hv0 hvh, min_eq_left (by omega)]

end Positive

end RowLayout

open RowLayout

/-- When all the ways to find a row agree with the rectangles of the rows. -/
theorem rowGeometry_iff (t : RowLayout) (hpos : 0 < t.rowHeight) : t.RowGeometry ↔ t.SuitsDrops := by
  have hg : t.RowGeometry ↔ ∀ p, mouseInRect p t.bounds → t.AgreesAt p :=
    ⟨fun h => h.agrees, fun h => ⟨tiles hpos, h⟩⟩
  rw [hg, SuitsDrops]
  by_cases hv : t.usesVariableRowHeights = true
  · exact iff_of_true (fun p => agreesAt_variable hpos hv) (.inl hv)
  rw [or_iff_right hv]
  by_cases hw : 0 < t.bounds.size.width
  · rw [or_iff_right (not_le.mpr hw)]
    by_cases hh : 0 < t.bounds.size.height
    · rw [or_iff_right (not_le.mpr hh),
        agreesAt_heights_iff hpos (Bool.eq_false_of_not_eq_true hv) hw, quotients_agree_iff hpos hh]
    · refine iff_of_true (fun p hin => ?_) (.inl (not_lt.mp hh))
      obtain ⟨-, hle, hlt⟩ := id hin
      linarith
  · refine iff_of_true (fun p hin => ?_) (.inl (not_lt.mp hw))
    obtain ⟨⟨hle, hlt⟩, -⟩ := id hin
    linarith

/-- Two rows of a height, in bounds of 100 by 49. -/
def twoRows (rowHeight : ℚ) : RowLayout where
  bounds := ⟨⟨0, 0⟩, ⟨100, 49⟩⟩
  numberOfRows := 2
  rowHeight := rowHeight
  heightOfRow := none

theorem rowGeometry_twoRows : (twoRows 17).RowGeometry ↔ (twoRows 17).SuitsDrops :=
  rowGeometry_iff (twoRows 17) (by decide +kernel)

/-- A height that is not integral, and room for more than one row below the rows. -/
theorem not_rowGeometry : ¬ (twoRows (5 / 2)).RowGeometry ∧ ¬ (twoRows 10).RowGeometry := by
  constructor
  · intro h
    have hc := (h.agrees ⟨0, 2⟩ (by decide +kernel)).computed (by decide +kernel)
    revert hc
    decide +kernel
  · intro h
    have hc := (h.agrees ⟨0, 40⟩ (by decide +kernel)).computedBelow (by decide +kernel)
    revert hc
    decide +kernel

end GnustepGui.TableView
