import GnustepGui.Library.Plane
import Mathlib.Data.Rat.Floor
import Mathlib.Tactic.LinearCombination

/-!
# The grid of a collection view

Where `tile` and `frameForItemAtIndex:` put the items of a collection view without a layout, and the way back with
`_indexAtPoint:`, which does not stop at the last column (`gridRight_iff`).
-/

namespace GnustepGui.CollectionView.Tiling

open Plane

/-- What the grid depends on. There is no frame offset while nothing is dragged over an item. -/
structure Grid (K : Type*) where
  width : K
  minItemSize : Size K
  maxItemSize : Size K
  maxNumberOfColumns : ℕ
  maxNumberOfRows : ℕ
  verticalMargin : K
  count : ℕ
  draggingOnIndex : Option ℕ

namespace Grid

variable {K : Type*} [Field K] [LinearOrder K] [IsStrictOrderedRing K] [FloorRing K] (grid : Grid K)

/-! ## `tile` -/

def numberOfColumns : ℕ :=
  let columns := (max 1 ⌊grid.width / grid.minItemSize.width⌋).toNat
  let columns := if grid.maxNumberOfColumns > 0 then min grid.maxNumberOfColumns columns else columns
  if columns = 0 then 1 else columns

/-- The width of an item with its part of the space that remains. -/
def widenedWidth : K :=
  let width := grid.minItemSize.width
  let remaining := grid.width - grid.numberOfColumns * width
  if remaining > 0 ∧ width < grid.maxItemSize.width then
    min grid.maxItemSize.width (width + ⌊remaining / grid.numberOfColumns⌋)
  else width

/-- The width of `_itemSize`. -/
def itemWidth : K :=
  if grid.maxNumberOfColumns = 1 ∧ grid.widenedWidth < grid.maxItemSize.width ∧ grid.widenedWidth < grid.width then
    min grid.maxItemSize.width grid.width
  else grid.widenedWidth

def itemSize : Size K :=
  ⟨grid.itemWidth, grid.minItemSize.height⟩

def horizontalMargin : K :=
  (⌊(grid.width - grid.numberOfColumns * grid.itemSize.width) / (grid.numberOfColumns + 1)⌋ : ℤ)

/-! ## `frameForItemAtIndex:` -/

/-- The items that are shown. -/
def shown : ℕ :=
  if grid.maxNumberOfColumns > 0 ∧ grid.maxNumberOfRows > 0 then
    min grid.count (grid.maxNumberOfColumns * grid.maxNumberOfRows)
  else grid.count

def draggingOffset (theIndex : ℕ) : K :=
  match grid.draggingOnIndex with
  | none => 0
  | some draggingOnIndex =>
    if draggingOnIndex / grid.numberOfColumns = theIndex / grid.numberOfColumns then
      if theIndex < draggingOnIndex then -20 else 20
    else 0

/-- The loop over the items that remain. -/
def frameLoop (theIndex : ℕ) : ℕ → ℕ → K → K → Rect K
  | 0, _, _, _ => ⟨⟨0, 0⟩, ⟨0, 0⟩⟩
  | remaining + 1, index, x, y =>
    let (x, y) :=
      if index % grid.numberOfColumns = 0 then (grid.horizontalMargin, y + (grid.verticalMargin + grid.itemSize.height))
      else (x, y)
    if index = theIndex then ⟨⟨x + grid.draggingOffset theIndex, y⟩, grid.itemSize⟩
    else frameLoop theIndex remaining (index + 1) (x + (grid.itemSize.width + grid.horizontalMargin)) y

def frameForItemAtIndex (theIndex : ℕ) : Rect K :=
  let itemFrame := grid.frameLoop theIndex grid.shown 0 0 (-grid.itemSize.height)
  if grid.maxNumberOfColumns = 1 then { itemFrame with size := ⟨grid.width, itemFrame.size.height⟩ } else itemFrame

/-! ## `_indexAtPoint:` and `drawRect:` -/

/-- The distance from one column to the next. -/
def stride : K :=
  grid.itemSize.width + grid.horizontalMargin

def rowAt (point : Point K) : ℤ :=
  ⌊point.y / (grid.itemSize.height + grid.verticalMargin)⌋

/-- There is no index where the code divides by zero. -/
def indexAtPoint (point : Point K) : Option ℤ :=
  if grid.stride = 0 then none else some (⌊point.x / grid.stride⌋ + grid.rowAt point * grid.numberOfColumns)

/-- The first and the last index in a rectangle that is drawn. -/
def drawnRange (dirtyRect : Rect K) : Option (ℤ × ℤ) := do
  let first ← grid.indexAtPoint dirtyRect.origin
  let last ← grid.indexAtPoint
    ⟨dirtyRect.origin.x + dirtyRect.size.width, dirtyRect.origin.y + dirtyRect.size.height⟩
  some (max 0 first, min (grid.count - 1) last)

/-! ## What is claimed, and where it holds -/

/-- `NSPointInRect` -/
def PointInRect (point : Point K) (rect : Rect K) : Prop :=
  (rect.origin.x ≤ point.x ∧ point.x < rect.origin.x + rect.size.width) ∧
    rect.origin.y ≤ point.y ∧ point.y < rect.origin.y + rect.size.height

/-- A point in the width of the view, and not above it. -/
def InView (point : Point K) : Prop :=
  (0 ≤ point.x ∧ point.x < grid.width) ∧ 0 ≤ point.y

/-- What is claimed of the grid. -/
structure GridRight : Prop where
  disjoint : ∀ i j point, i < grid.count → j < grid.count → PointInRect point (grid.frameForItemAtIndex i) →
    PointInRect point (grid.frameForItemAtIndex j) → i = j
  inside : grid.minItemSize.width ≤ grid.width → ∀ i < grid.count, 0 ≤ (grid.frameForItemAtIndex i).origin.x ∧
    (grid.frameForItemAtIndex i).origin.x + (grid.frameForItemAtIndex i).size.width ≤ grid.width
  mapped : ∀ i < grid.count, ∀ point, grid.InView point → PointInRect point (grid.frameForItemAtIndex i) →
    grid.indexAtPoint point = some i
  margin : ∀ point, grid.InView point → (∀ i < grid.count, ¬ PointInRect point (grid.frameForItemAtIndex i)) →
    ∀ j < grid.count, grid.indexAtPoint point = some (j : ℤ) →
      ((j / grid.numberOfColumns : ℕ) : ℤ) = grid.rowAt point
  drawn : ∀ dirtyRect : Rect K, ∀ i < grid.count,
    (∃ point, grid.InView point ∧ PointInRect point (grid.frameForItemAtIndex i) ∧ PointInRect point dirtyRect) →
      ∃ first last, grid.drawnRange dirtyRect = some (first, last) ∧ first ≤ i ∧ i ≤ last

/-- Sizes of items, with nothing dragged over them. -/
structure Suitable : Prop where
  minWidth : 0 < grid.minItemSize.width
  minHeight : 0 < grid.minItemSize.height
  maxWidth : grid.minItemSize.width ≤ grid.maxItemSize.width
  margin : 0 ≤ grid.verticalMargin
  dragging : grid.draggingOnIndex = none

/-- The columns of the smallest items that fit in the width, within the limit. -/
def fittingColumns : ℕ :=
  if grid.maxNumberOfColumns > 0 then min grid.maxNumberOfColumns ⌊grid.width / grid.minItemSize.width⌋₊
  else ⌊grid.width / grid.minItemSize.width⌋₊

/-- There is no item, or: an item is wider than the view, and no column begins in it behind the only one; a single
column may be as wide as the view; or the items fit in one row, or all columns, widened by a whole number, fill the
width. -/
def Fits : Prop :=
  grid.count = 0 ∨
    if grid.width < grid.minItemSize.width then
      grid.width ≤ 0 ∨ grid.width + 1 ≤ grid.minItemSize.width ∨ grid.minItemSize.width = 1 ∨
        grid.count = 1 ∧ 1 < grid.minItemSize.width
    else if grid.maxNumberOfColumns = 1 then grid.width ≤ grid.maxItemSize.width
    else grid.count ≤ grid.fittingColumns ∨ ∃ k : ℕ, grid.minItemSize.width + k ≤ grid.maxItemSize.width ∧
      grid.width = grid.fittingColumns * (grid.minItemSize.width + k)

/-! ## Columns and widths -/

variable {grid}

omit [IsStrictOrderedRing K] in
theorem numberOfColumns_pos : 0 < grid.numberOfColumns := by
  unfold numberOfColumns
  dsimp only
  generalize (if grid.maxNumberOfColumns > 0 then _ else _ : ℕ) = columns
  split <;> omega

theorem numberOfColumns_of_narrow (h : grid.Suitable) (hn : grid.width < grid.minItemSize.width) :
    grid.numberOfColumns = 1 := by
  have hf : ⌊grid.width / grid.minItemSize.width⌋ < 1 := by
    rw [Int.floor_lt, Int.cast_one, div_lt_one h.minWidth]
    exact hn
  unfold numberOfColumns
  rw [max_eq_left (by omega)]
  dsimp only
  split <;> split <;> omega

theorem one_le_floor (h : grid.Suitable) (hw : grid.minItemSize.width ≤ grid.width) :
    1 ≤ ⌊grid.width / grid.minItemSize.width⌋ := by
  rw [Int.le_floor, Int.cast_one, one_le_div h.minWidth]
  exact hw

theorem numberOfColumns_of_wide (h : grid.Suitable) (hw : grid.minItemSize.width ≤ grid.width) :
    grid.numberOfColumns = grid.fittingColumns := by
  have hf := one_le_floor h hw
  unfold numberOfColumns fittingColumns
  rw [max_eq_right hf, Int.floor_toNat]
  have hp : 1 ≤ ⌊grid.width / grid.minItemSize.width⌋₊ := by
    rw [← Int.floor_toNat]
    omega
  dsimp only
  split
  · exact if_neg (by omega)
  · exact if_neg (by omega)

theorem columns_mul_minWidth_le (h : grid.Suitable) (hw : grid.minItemSize.width ≤ grid.width) :
    grid.numberOfColumns * grid.minItemSize.width ≤ grid.width := by
  have hle : grid.numberOfColumns ≤ ⌊grid.width / grid.minItemSize.width⌋₊ := by
    rw [numberOfColumns_of_wide h hw, fittingColumns]
    split
    · exact min_le_right _ _
    · exact le_rfl
  have hd : 0 ≤ grid.width / grid.minItemSize.width := div_nonneg (h.minWidth.le.trans hw) h.minWidth.le
  have hc : (grid.numberOfColumns : K) ≤ grid.width / grid.minItemSize.width :=
    (Nat.cast_le.mpr hle).trans (Nat.floor_le hd)
  exact (le_div_iff₀ h.minWidth).mp hc

omit [IsStrictOrderedRing K] in
theorem numberOfColumns_of_one (ho : grid.maxNumberOfColumns = 1) : grid.numberOfColumns = 1 := by
  unfold numberOfColumns
  rw [ho]
  dsimp only
  split <;> split <;> omega

omit [IsStrictOrderedRing K] in
/-- The width of an item where more than one column may be made. -/
theorem itemWidth_of_ne_one (ho : grid.maxNumberOfColumns ≠ 1) : grid.itemWidth = grid.widenedWidth :=
  if_neg fun h => ho h.1

theorem widened_le (grid : Grid K) : grid.numberOfColumns * (grid.minItemSize.width +
      (⌊(grid.width - grid.numberOfColumns * grid.minItemSize.width) / grid.numberOfColumns⌋ : ℤ)) ≤ grid.width := by
  have hp : (0 : K) < grid.numberOfColumns := Nat.cast_pos.mpr numberOfColumns_pos
  have hf := Int.floor_le ((grid.width - grid.numberOfColumns * grid.minItemSize.width) / grid.numberOfColumns)
  rw [le_div_iff₀ hp] at hf
  linarith

theorem minWidth_le_widenedWidth (h : grid.Suitable) : grid.minItemSize.width ≤ grid.widenedWidth := by
  have hp : (0 : K) < grid.numberOfColumns := Nat.cast_pos.mpr numberOfColumns_pos
  unfold widenedWidth
  dsimp only
  split
  · rename_i hr
    refine le_min h.maxWidth (le_add_of_nonneg_right (Int.cast_nonneg (Int.floor_nonneg.mpr ?_)))
    exact div_nonneg hr.1.le hp.le
  · exact le_rfl

omit [IsStrictOrderedRing K] in
theorem widenedWidth_le (h : grid.Suitable) : grid.widenedWidth ≤ grid.maxItemSize.width := by
  unfold widenedWidth
  dsimp only
  split
  · exact min_le_left _ _
  · exact h.maxWidth

theorem columns_mul_widenedWidth_le (h : grid.Suitable) (hw : grid.minItemSize.width ≤ grid.width) :
    grid.numberOfColumns * grid.widenedWidth ≤ grid.width := by
  have hp : (0 : K) < grid.numberOfColumns := Nat.cast_pos.mpr numberOfColumns_pos
  unfold widenedWidth
  dsimp only
  split
  · exact (mul_le_mul_of_nonneg_left (min_le_right _ _) hp.le).trans (widened_le grid)
  · exact columns_mul_minWidth_le h hw

theorem itemWidth_of_one (h : grid.Suitable) (hwd : grid.minItemSize.width ≤ grid.width)
    (ho : grid.maxNumberOfColumns = 1) : grid.itemWidth = min grid.maxItemSize.width grid.width := by
  have hw := columns_mul_widenedWidth_le h hwd
  rw [numberOfColumns_of_one ho, Nat.cast_one, one_mul] at hw
  unfold itemWidth
  split
  · rfl
  · rename_i hn
    refine le_antisymm (le_min (widenedWidth_le h) hw) (not_lt.mp fun hlt => hn ⟨ho, ?_⟩)
    exact lt_min_iff.mp hlt

theorem minWidth_le_itemWidth (h : grid.Suitable) : grid.minItemSize.width ≤ grid.itemWidth := by
  unfold itemWidth
  split
  · rename_i hlt
    exact le_min h.maxWidth ((minWidth_le_widenedWidth h).trans hlt.2.2.le)
  · exact minWidth_le_widenedWidth h

theorem itemWidth_of_narrow (h : grid.Suitable) (hn : grid.width < grid.minItemSize.width) :
    grid.itemWidth = grid.minItemSize.width := by
  have hw : grid.widenedWidth = grid.minItemSize.width := by
    unfold widenedWidth
    rw [numberOfColumns_of_narrow h hn, Nat.cast_one]
    exact if_neg fun hr => absurd hr.1 (by linarith)
  unfold itemWidth
  rw [hw]
  exact if_neg fun hlt => absurd hlt.2.2 (not_lt.mpr hn.le)

theorem itemWidth_pos (h : grid.Suitable) : 0 < grid.itemWidth := h.minWidth.trans_le (minWidth_le_itemWidth h)

theorem columns_mul_itemWidth_le (h : grid.Suitable) (hw : grid.minItemSize.width ≤ grid.width) :
    grid.numberOfColumns * grid.itemWidth ≤ grid.width := by
  by_cases ho : grid.maxNumberOfColumns = 1
  · rw [itemWidth_of_one h hw ho, numberOfColumns_of_one ho, Nat.cast_one, one_mul]
    exact min_le_right _ _
  · rw [itemWidth_of_ne_one ho]
    exact columns_mul_widenedWidth_le h hw

theorem horizontalMargin_nonneg (h : grid.Suitable) (hw : grid.minItemSize.width ≤ grid.width) :
    0 ≤ grid.horizontalMargin := by
  have hr := sub_nonneg.mpr (columns_mul_itemWidth_le h hw)
  exact Int.cast_nonneg (Int.floor_nonneg.mpr (div_nonneg hr (by positivity)))

theorem margins_le (grid : Grid K) :
    (grid.numberOfColumns + 1) * grid.horizontalMargin ≤ grid.width - grid.numberOfColumns * grid.itemWidth := by
  have hf := Int.floor_le ((grid.width - grid.numberOfColumns * grid.itemSize.width) / (grid.numberOfColumns + 1))
  rw [le_div_iff₀ (by positivity), mul_comm] at hf
  exact hf

theorem fills_iff (h : grid.Suitable) (hwd : grid.minItemSize.width ≤ grid.width)
    (ho : grid.maxNumberOfColumns ≠ 1) : grid.width = grid.numberOfColumns * grid.itemWidth ↔
      ∃ k : ℕ, grid.minItemSize.width + k ≤ grid.maxItemSize.width ∧
        grid.width = grid.fittingColumns * (grid.minItemSize.width + k) := by
  have hp : (0 : K) < grid.numberOfColumns := Nat.cast_pos.mpr numberOfColumns_pos
  rw [← numberOfColumns_of_wide h hwd]
  have hw := widened_le grid
  have hr := sub_nonneg.mpr (columns_mul_minWidth_le h hwd)
  have hflr : 0 ≤ ⌊(grid.width - grid.numberOfColumns * grid.minItemSize.width) / (grid.numberOfColumns : K)⌋ :=
    Int.floor_nonneg.mpr (div_nonneg hr hp.le)
  rw [itemWidth_of_ne_one ho, widenedWidth]
  constructor
  · intro hf
    split at hf
    · obtain ⟨k, hk⟩ := Int.eq_ofNat_of_zero_le hflr
      rw [hk, Int.cast_natCast] at hf hw
      rcases le_total (grid.minItemSize.width + (k : K)) grid.maxItemSize.width with hle | hle
      · rw [min_eq_right hle] at hf
        exact ⟨k, hle, hf⟩
      · rw [min_eq_left hle] at hf
        rw [hf] at hw
        have hs := le_antisymm (le_of_mul_le_mul_left hw hp) hle
        exact ⟨k, hs.le, by rw [hs]; exact hf⟩
    · exact ⟨0, by rw [Nat.cast_zero, add_zero]; exact h.maxWidth, by rw [Nat.cast_zero, add_zero]; exact hf⟩
  · rintro ⟨k, hle, hf⟩
    have hrs : grid.width - grid.numberOfColumns * grid.minItemSize.width = grid.numberOfColumns * k := by
      linear_combination hf
    rw [hrs, mul_div_cancel_left₀ _ hp.ne', Int.floor_natCast, Int.cast_natCast, min_eq_right hle]
    split
    · exact hf
    · rename_i hn
      have hk : (k : K) = 0 := by
        by_contra hk
        have hkp : (0 : K) < k := lt_of_le_of_ne (Nat.cast_nonneg k) (Ne.symm hk)
        exact hn ⟨mul_pos hp hkp, by linarith⟩
      rw [hf, hk, add_zero]

/-! ## Frames -/

/-- The frame of the row and the column of an index. -/
def cellFrame (grid : Grid K) (index : ℕ) : Rect K :=
  ⟨⟨grid.horizontalMargin + (index % grid.numberOfColumns : ℕ) * grid.stride,
      grid.verticalMargin + (index / grid.numberOfColumns : ℕ) * (grid.itemSize.height + grid.verticalMargin)⟩,
    grid.itemSize⟩

/-- The next index is in the next column, or begins a row. -/
theorem next_cell (index : ℕ) {columns : ℕ} (hp : 0 < columns) :
    (index + 1) % columns = 0 ∧ (index + 1) / columns = index / columns + 1 ∨
      (index + 1) % columns = index % columns + 1 ∧ (index + 1) / columns = index / columns := by
  have hi := Nat.div_add_mod index columns
  have hlt := Nat.mod_lt index hp
  rcases Nat.lt_or_ge (index % columns + 1) columns with hm | he
  · right
    have hn : index + 1 = columns * (index / columns) + (index % columns + 1) := by omega
    generalize index / columns = row at hn ⊢
    generalize index % columns = column at hm hn ⊢
    rw [hn, Nat.mul_add_mod, Nat.mod_eq_of_lt hm, Nat.mul_add_div hp, Nat.div_eq_of_lt hm]
    exact ⟨rfl, rfl⟩
  · left
    have hn : index + 1 = columns * (index / columns + 1) := by
      rw [Nat.mul_add, Nat.mul_one]
      omega
    generalize index / columns = row at hn ⊢
    rw [hn, Nat.mul_mod_right, Nat.mul_div_cancel_left _ hp]
    exact ⟨rfl, rfl⟩

omit [IsStrictOrderedRing K] in
theorem frameLoop_eq (hdr : grid.draggingOnIndex = none) {theIndex : ℕ} (remaining index : ℕ)
    (hle : index ≤ theIndex) (x y : K)
    (hx : index % grid.numberOfColumns ≠ 0 → x = (grid.cellFrame index).origin.x)
    (hy : y = (grid.cellFrame index).origin.y -
      if index % grid.numberOfColumns = 0 then grid.verticalMargin + grid.itemSize.height else 0) :
    grid.frameLoop theIndex remaining index x y =
      if theIndex < index + remaining then grid.cellFrame theIndex else ⟨⟨0, 0⟩, ⟨0, 0⟩⟩ := by
  have hc : 0 < grid.numberOfColumns := numberOfColumns_pos
  induction remaining generalizing index x y with
  | zero => rw [frameLoop, if_neg (by omega)]
  | succ remaining ih =>
    have hsp : (if index % grid.numberOfColumns = 0 then
        (grid.horizontalMargin, y + (grid.verticalMargin + grid.itemSize.height)) else (x, y)) =
          ((grid.cellFrame index).origin.x, (grid.cellFrame index).origin.y) := by
      by_cases hs : index % grid.numberOfColumns = 0
      · rw [if_pos hs, hy, if_pos hs, sub_add_cancel]
        simp [cellFrame, hs]
      · rw [if_neg hs, hy, if_neg hs, sub_zero, hx hs]
    rw [frameLoop, hsp]
    dsimp only
    by_cases hf : index = theIndex
    · rw [if_pos hf, if_pos (by omega), draggingOffset, hdr, hf]
      simp [cellFrame]
    · rw [if_neg hf, ih (index + 1) (by omega), Nat.add_right_comm, Nat.add_assoc]
      · intro hn
        obtain ⟨hm, -⟩ | ⟨hm, -⟩ := next_cell index hc
        · exact absurd hm hn
        · rw [cellFrame, cellFrame, hm]
          push_cast
          simp only [stride]
          ring
      · obtain ⟨hm, hd⟩ | ⟨hm, hd⟩ := next_cell index hc
        · rw [if_pos hm, cellFrame, cellFrame, hd]
          push_cast
          ring
        · rw [if_neg (by omega), cellFrame, cellFrame, hd, sub_zero]

omit [IsStrictOrderedRing K] in
theorem frame_eq (h : grid.Suitable) (index : ℕ) : grid.frameForItemAtIndex index =
    if index < grid.shown then
      ⟨(grid.cellFrame index).origin,
        ⟨if grid.maxNumberOfColumns = 1 then grid.width else grid.itemWidth, grid.itemSize.height⟩⟩
    else ⟨⟨0, 0⟩, ⟨if grid.maxNumberOfColumns = 1 then grid.width else 0, 0⟩⟩ := by
  have hl := frameLoop_eq h.dragging grid.shown 0 (Nat.zero_le index) 0 (-grid.itemSize.height)
    (fun hne => absurd (Nat.zero_mod _) hne) (by simp [cellFrame])
  rw [zero_add] at hl
  unfold frameForItemAtIndex
  rw [hl]
  dsimp only
  split <;> split <;> rfl

/-- The width of a frame. -/
def frameWidth (grid : Grid K) : K :=
  if grid.maxNumberOfColumns = 1 then grid.width else grid.itemWidth

omit [IsStrictOrderedRing K] in
theorem pointInRect_frame_iff (h : grid.Suitable) (index : ℕ) (point : Point K) :
    PointInRect point (grid.frameForItemAtIndex index) ↔ index < grid.shown ∧
      ((grid.cellFrame index).origin.x ≤ point.x ∧ point.x < (grid.cellFrame index).origin.x + grid.frameWidth) ∧
        (grid.cellFrame index).origin.y ≤ point.y ∧
          point.y < (grid.cellFrame index).origin.y + grid.minItemSize.height := by
  rw [frame_eq h]
  by_cases hs : index < grid.shown
  · rw [if_pos hs, and_iff_right hs]
    rfl
  · rw [if_neg hs]
    refine iff_of_false (fun hp => ?_) fun hp => hs hp.1
    have hy := hp.2
    dsimp only at hy
    rw [add_zero] at hy
    exact absurd hy.2 (not_lt.mpr hy.1)

theorem floor_div_eq {stride place : K} {n : ℕ} (hs : 0 < stride) (hle : n * stride ≤ place)
    (hlt : place < (n + 1) * stride) : ⌊place / stride⌋ = n := by
  rw [Int.floor_eq_iff, Int.cast_natCast, le_div_iff₀ hs, div_lt_iff₀ hs]
  exact ⟨hle, hlt⟩

variable {point : Point K} {index : ℕ}

theorem rowAt_of_mem (h : grid.Suitable) (hle : (grid.cellFrame index).origin.y ≤ point.y)
    (hlt : point.y < (grid.cellFrame index).origin.y + grid.minItemSize.height) :
    grid.rowAt point = ((index / grid.numberOfColumns : ℕ) : ℤ) := by
  have hh := h.minHeight
  have hm := h.margin
  simp only [cellFrame, itemSize] at hle hlt
  refine floor_div_eq (add_pos_of_pos_of_nonneg hh hm) ?_ ?_
  · simp only [itemSize]
    linarith
  · rw [add_mul, one_mul]
    simp only [itemSize]
    linarith

theorem rowAt_nonneg (h : grid.Suitable) (hp : grid.InView point) : 0 ≤ grid.rowAt point :=
  Int.floor_nonneg.mpr (div_nonneg hp.2 (add_nonneg h.minHeight.le h.margin))

theorem stride_pos_of_wide (h : grid.Suitable) (hw : grid.minItemSize.width ≤ grid.width) : 0 < grid.stride :=
  add_pos_of_pos_of_nonneg (itemWidth_pos h) (horizontalMargin_nonneg h hw)

theorem horizontalMargin_of_narrow (h : grid.Suitable) (hn : grid.width < grid.minItemSize.width) :
    grid.horizontalMargin = (⌊(grid.width - grid.minItemSize.width) / 2⌋ : ℤ) := by
  rw [horizontalMargin, numberOfColumns_of_narrow h hn, itemSize, itemWidth_of_narrow h hn, Nat.cast_one, one_mul]
  norm_num

theorem stride_of_narrow (h : grid.Suitable) (hn : grid.width < grid.minItemSize.width) :
    grid.stride = grid.minItemSize.width + (⌊(grid.width - grid.minItemSize.width) / 2⌋ : ℤ) := by
  rw [stride, horizontalMargin_of_narrow h hn, itemSize, itemWidth_of_narrow h hn]

theorem floor_half (missing : K) (hp : 0 < missing) (hle : missing ≤ 2) : ⌊-missing / 2⌋ = -1 := by
  rw [Int.floor_eq_iff]
  push_cast
  constructor <;> linarith

theorem frameWidth_le_of_narrow (h : grid.Suitable) (hn : grid.width < grid.minItemSize.width) :
    grid.frameWidth ≤ grid.minItemSize.width := by
  unfold frameWidth
  split
  · exact hn.le
  · exact (itemWidth_of_narrow h hn).le

/-- Where the condition holds, a point in a frame is in the row and the column of its index. -/
theorem cell_of_mem (h : grid.Suitable) (ho : grid.width < grid.minItemSize.width ∨
      (grid.maxNumberOfColumns = 1 → grid.width ≤ grid.maxItemSize.width))
    (hv : grid.InView point) (hpt : PointInRect point (grid.frameForItemAtIndex index)) :
    0 < grid.stride ∧ ⌊point.x / grid.stride⌋ = ((index % grid.numberOfColumns : ℕ) : ℤ) ∧
      grid.rowAt point = ((index / grid.numberOfColumns : ℕ) : ℤ) := by
  obtain ⟨-, ⟨hle, hlt⟩, hy, hy'⟩ := (pointInRect_frame_iff h index point).mp hpt
  have hr := rowAt_of_mem h hy hy'
  rw [← and_assoc]
  refine ⟨?_, hr⟩
  obtain ⟨⟨hx, hx'⟩, -⟩ := hv
  simp only [cellFrame] at hle hlt
  by_cases hn : grid.width < grid.minItemSize.width
  · have hc := numberOfColumns_of_narrow h hn
    have hf := frameWidth_le_of_narrow h hn
    rw [hc, Nat.mod_one, Nat.cast_zero, zero_mul, add_zero] at hlt
    have hs : point.x < grid.stride := by
      rw [stride, itemSize, itemWidth_of_narrow h hn]
      linarith
    have hp := hx.trans_lt hs
    rw [hc, Nat.mod_one]
    exact ⟨hp, floor_div_eq hp (by simpa using hx) (by simpa using hs)⟩
  · have hw := not_lt.mp hn
    have hp := stride_pos_of_wide h hw
    refine ⟨hp, ?_⟩
    by_cases hsgl : grid.maxNumberOfColumns = 1
    · have hwd : grid.itemWidth = grid.width := by
        rw [itemWidth_of_one h hw hsgl, min_eq_right (ho.resolve_left hn hsgl)]
      have hm := horizontalMargin_nonneg h hw
      have hs : grid.stride = grid.width + grid.horizontalMargin := by rw [stride, itemSize, hwd]
      rw [numberOfColumns_of_one hsgl, Nat.mod_one]
      exact floor_div_eq hp (by simpa using hx) (by rw [hs]; push_cast; linarith)
    · have hm := horizontalMargin_nonneg h hw
      have hwd : grid.frameWidth = grid.itemWidth := if_neg hsgl
      have hs : grid.stride = grid.itemWidth + grid.horizontalMargin := rfl
      refine floor_div_eq hp (by linarith) ?_
      rw [add_mul, one_mul]
      linarith

/-! ## Where the condition holds -/

omit [IsStrictOrderedRing K] in
theorem indexAtPoint_eq (hp : 0 < grid.stride) (point : Point K) :
    grid.indexAtPoint point = some (⌊point.x / grid.stride⌋ + grid.rowAt point * grid.numberOfColumns) :=
  if_neg hp.ne'

theorem indexAtPoint_of_mem (h : grid.Suitable) (ho : grid.width < grid.minItemSize.width ∨
      (grid.maxNumberOfColumns = 1 → grid.width ≤ grid.maxItemSize.width))
    (hv : grid.InView point) (hpt : PointInRect point (grid.frameForItemAtIndex index)) :
    grid.indexAtPoint point = some (index : ℤ) := by
  obtain ⟨hp, hc, hr⟩ := cell_of_mem h ho hv hpt
  rw [indexAtPoint_eq hp, hc, hr]
  congr 1
  have hi := Nat.mod_add_div index grid.numberOfColumns
  rw [mul_comm] at hi
  exact_mod_cast hi

theorem index_mono (h : grid.Suitable) (hp : 0 < grid.stride) {p q : Point K} (hx : p.x ≤ q.x) (hy : p.y ≤ q.y) :
    ⌊p.x / grid.stride⌋ + grid.rowAt p * grid.numberOfColumns ≤
      ⌊q.x / grid.stride⌋ + grid.rowAt q * grid.numberOfColumns := by
  have hh : 0 < grid.itemSize.height + grid.verticalMargin := add_pos_of_pos_of_nonneg h.minHeight h.margin
  have hr : grid.rowAt p ≤ grid.rowAt q := Int.floor_le_floor (div_le_div_of_nonneg_right hy hh.le)
  exact add_le_add (Int.floor_le_floor (div_le_div_of_nonneg_right hx hp.le))
    (mul_le_mul_of_nonneg_right hr (Int.natCast_nonneg _))

theorem disjoint_frames (h : grid.Suitable) {i j : ℕ}
    (hi : PointInRect point (grid.frameForItemAtIndex i)) (hj : PointInRect point (grid.frameForItemAtIndex j)) :
    i = j := by
  obtain ⟨-, ⟨hx, hx'⟩, hy, hy'⟩ := (pointInRect_frame_iff h i point).mp hi
  obtain ⟨-, ⟨hxj, hxj'⟩, hyj, hyj'⟩ := (pointInRect_frame_iff h j point).mp hj
  have hr : i / grid.numberOfColumns = j / grid.numberOfColumns := by
    exact_mod_cast (rowAt_of_mem h hy hy').symm.trans (rowAt_of_mem h hyj hyj')
  have hc : i % grid.numberOfColumns = j % grid.numberOfColumns := by
    by_cases hs : grid.numberOfColumns = 1
    · rw [hs, Nat.mod_one, Nat.mod_one]
    · have hw : grid.minItemSize.width ≤ grid.width := by
        by_contra hn
        exact hs (numberOfColumns_of_narrow h (not_le.mp hn))
      have hne : grid.maxNumberOfColumns ≠ 1 := fun ho => hs (numberOfColumns_of_one ho)
      have hp := stride_pos_of_wide h hw
      have hm := horizontalMargin_nonneg h hw
      have hwd : grid.frameWidth = grid.itemWidth := if_neg hne
      have hstr : grid.stride = grid.itemWidth + grid.horizontalMargin := rfl
      simp only [cellFrame] at hx hx' hxj hxj'
      have hf (n : ℕ) (hle : grid.horizontalMargin + n * grid.stride ≤ point.x)
          (hlt : point.x < grid.horizontalMargin + n * grid.stride + grid.frameWidth) :
          ⌊point.x / grid.stride⌋ = n := by
        refine floor_div_eq hp (by linarith) ?_
        rw [add_mul, one_mul]
        linarith
      exact_mod_cast (hf _ hx hx').symm.trans (hf _ hxj hxj')
  have hd := Nat.div_add_mod i grid.numberOfColumns
  rw [hr, hc, Nat.div_add_mod] at hd
  exact hd.symm

theorem frames_inside (h : grid.Suitable) (hw : grid.minItemSize.width ≤ grid.width)
    (ho : grid.maxNumberOfColumns = 1 → grid.width ≤ grid.maxItemSize.width) (index : ℕ) :
    0 ≤ (grid.frameForItemAtIndex index).origin.x ∧
      (grid.frameForItemAtIndex index).origin.x + (grid.frameForItemAtIndex index).size.width ≤ grid.width := by
  have hwd := h.minWidth.le.trans hw
  have hm := horizontalMargin_nonneg h hw
  have hp := stride_pos_of_wide h hw
  have hmr := margins_le grid
  have hstr : grid.stride = grid.itemWidth + grid.horizontalMargin := rfl
  rw [frame_eq h]
  by_cases hshn : index < grid.shown
  · rw [if_pos hshn]
    dsimp only [cellFrame]
    have hc : ((index % grid.numberOfColumns : ℕ) : K) + 1 ≤ grid.numberOfColumns := by
      exact_mod_cast Nat.mod_lt index numberOfColumns_pos
    have he := mul_le_mul_of_nonneg_right hc hp.le
    have hst : 0 ≤ ((index % grid.numberOfColumns : ℕ) : K) * grid.stride := mul_nonneg (Nat.cast_nonneg _) hp.le
    refine ⟨add_nonneg hm hst, ?_⟩
    by_cases hs : grid.maxNumberOfColumns = 1
    · have hsm : grid.itemWidth = grid.width := by rw [itemWidth_of_one h hw hs, min_eq_right (ho hs)]
      rw [numberOfColumns_of_one hs, hsm] at hmr
      rw [if_pos hs, numberOfColumns_of_one hs, Nat.mod_one, Nat.cast_zero, zero_mul, add_zero]
      push_cast at hmr
      linarith
    · rw [if_neg hs]
      rw [add_mul, one_mul] at he
      rw [add_mul, one_mul] at hmr
      have hcs : (grid.numberOfColumns : K) * grid.stride =
          grid.numberOfColumns * grid.itemWidth + grid.numberOfColumns * grid.horizontalMargin := by
        rw [hstr, mul_add]
      linarith
  · rw [if_neg hshn]
    dsimp only
    rw [zero_add]
    refine ⟨le_rfl, ?_⟩
    split
    · exact le_rfl
    · exact hwd

theorem row_of_index {column row : ℤ} {columns j : ℕ} (hn : 0 ≤ column) (hlt : column < columns)
    (hj : column + row * columns = j) : ((j / columns : ℕ) : ℤ) = row := by
  rw [Int.natCast_div, ← hj, Int.add_mul_ediv_right _ _ (by omega), Int.ediv_eq_zero_of_lt hn hlt, zero_add]

theorem stride_of_little (h : grid.Suitable) (hn : grid.width < grid.minItemSize.width)
    (hl : grid.minItemSize.width < grid.width + 1) : grid.stride = grid.minItemSize.width - 1 := by
  have hh := floor_half (grid.minItemSize.width - grid.width) (by linarith) (by linarith)
  rw [neg_sub] at hh
  rw [stride_of_narrow h hn, hh]
  push_cast
  ring

theorem width_le_stride (h : grid.Suitable) (hm : grid.width + 1 ≤ grid.minItemSize.width) :
    grid.width ≤ grid.stride := by
  rw [stride_of_narrow h (by linarith)]
  rcases le_total (grid.minItemSize.width - grid.width) 2 with hle | hge
  · have hh := floor_half (grid.minItemSize.width - grid.width) (by linarith) hle
    rw [neg_sub] at hh
    rw [hh]
    push_cast
    linarith
  · have hf := Int.lt_floor_add_one ((grid.width - grid.minItemSize.width) / 2)
    linarith

theorem margin_of_fits (h : grid.Suitable) (hft : grid.Fits) (hv : grid.InView point) {j : ℕ}
    (hj : j < grid.count) (hi : grid.indexAtPoint point = some (j : ℤ)) :
    ((j / grid.numberOfColumns : ℕ) : ℤ) = grid.rowAt point := by
  have hr := rowAt_nonneg h hv
  obtain ⟨⟨hx, hx'⟩, -⟩ := hv
  have hsum : grid.stride ≠ 0 ∧ ⌊point.x / grid.stride⌋ + grid.rowAt point * grid.numberOfColumns = j := by
    unfold indexAtPoint at hi
    split at hi
    · exact absurd hi nofun
    · rename_i hne
      exact ⟨hne, Option.some.inj hi⟩
  obtain ⟨hne, hsum⟩ := hsum
  have hco (hp : 0 < grid.stride) : 0 ≤ ⌊point.x / grid.stride⌋ := Int.floor_nonneg.mpr (div_nonneg hx hp.le)
  have hb (hp : 0 < grid.stride) (hlt : point.x < grid.numberOfColumns * grid.stride) :
      ((j / grid.numberOfColumns : ℕ) : ℤ) = grid.rowAt point := by
    refine row_of_index (hco hp) ?_ hsum
    rw [Int.floor_lt, div_lt_iff₀ hp]
    exact_mod_cast hlt
  rcases hft with hnn | hft
  · omega
  split at hft
  · rename_i hn
    have hcl := numberOfColumns_of_narrow h hn
    rcases le_or_gt (grid.width + 1) grid.minItemSize.width with hmc | hl
    · have hs := width_le_stride h hmc
      exact hb ((hx.trans_lt hx').trans_le hs) (by rw [hcl, Nat.cast_one, one_mul]; linarith)
    · have hs := stride_of_little h hn hl
      rcases hft with hwd | hmc | ho | ⟨hc, hlrg⟩
      · linarith
      · linarith
      · exact absurd (by rw [hs, ho, sub_self]) hne
      · have hcol := hco (by rw [hs]; linarith)
        rw [hcl] at hsum ⊢
        push_cast at hsum
        rw [Nat.div_one]
        omega
  · rename_i hn
    have hw := not_lt.mp hn
    have hp := stride_pos_of_wide h hw
    have hm := horizontalMargin_nonneg h hw
    have hs : grid.stride = grid.itemWidth + grid.horizontalMargin := rfl
    split at hft
    · rename_i hsgl
      have hsm : grid.itemWidth = grid.width := by rw [itemWidth_of_one h hw hsgl, min_eq_right hft]
      refine hb hp ?_
      rw [numberOfColumns_of_one hsgl, Nat.cast_one, one_mul]
      linarith
    · rename_i hsgl
      rcases hft with hc | hf
      · rw [← numberOfColumns_of_wide h hw] at hc
        have hcol := hco hp
        have hjlt : (j : ℤ) < grid.numberOfColumns := by omega
        have hz : grid.rowAt point = 0 := by
          by_contra hne
          have ho : 1 ≤ grid.rowAt point := by omega
          have hmul := mul_le_mul_of_nonneg_right ho (Int.natCast_nonneg grid.numberOfColumns)
          omega
        rw [hz, Nat.div_eq_of_lt (by omega)]
        rfl
      · have hf' := (fills_iff h hw hsgl).mpr hf
        refine hb hp ?_
        rw [hs, mul_add, ← hf']
        have hcl : (0 : K) ≤ grid.numberOfColumns := Nat.cast_nonneg _
        have hmr := mul_nonneg hcl hm
        linarith

theorem gridRight_of_fits (h : grid.Suitable) (hf : grid.Fits) : grid.GridRight := by
  by_cases hn : grid.count = 0
  · exact ⟨fun i _ _ hi => by omega, fun _ i hi => by omega, fun i hi => by omega, fun _ _ _ j hj => by omega,
      fun _ i hi => by omega⟩
  have ho : grid.width < grid.minItemSize.width ∨
      (grid.maxNumberOfColumns = 1 → grid.width ≤ grid.maxItemSize.width) := by
    refine or_iff_not_imp_left.mpr fun hw hs => ?_
    have hf' := hf.resolve_left hn
    rwa [if_neg hw, if_pos hs] at hf'
  refine ⟨fun i j point _ _ => disjoint_frames h, fun hw i _ => ?_, fun i _ point => indexAtPoint_of_mem h ho,
    fun point hv _ j => margin_of_fits h hf hv, fun dirtyRect i hi => ?_⟩
  · exact frames_inside h hw (ho.resolve_left (not_lt.mpr hw)) i
  · rintro ⟨point, hv, hfr, ⟨hle, hlt⟩, hle', hlt'⟩
    obtain ⟨hp, -⟩ := cell_of_mem h ho hv hfr
    have hidx := indexAtPoint_of_mem h ho hv hfr
    rw [indexAtPoint_eq hp, Option.some.injEq] at hidx
    refine ⟨_, _, by rw [drawnRange, indexAtPoint_eq hp, indexAtPoint_eq hp]; rfl, ?_, ?_⟩
    · refine max_le (Int.natCast_nonneg i) ?_
      rw [← hidx]
      exact index_mono h hp hle hle'
    · refine le_min (by omega) ?_
      rw [← hidx]
      exact index_mono h hp hlt.le hlt'.le

/-! ## Where it does not hold -/

omit [Field K] [LinearOrder K] [IsStrictOrderedRing K] [FloorRing K] in
theorem shown_pos (hc : grid.count ≠ 0) : 0 < grid.shown := by
  unfold shown
  split
  · rename_i hl
    exact lt_min (Nat.pos_of_ne_zero hc) (Nat.mul_pos hl.1 hl.2)
  · exact Nat.pos_of_ne_zero hc

theorem rowAt_zero (h : grid.Suitable) (hle : 0 ≤ point.y)
    (hlt : point.y < grid.minItemSize.height + grid.verticalMargin) : grid.rowAt point = 0 := by
  have hp := add_pos_of_pos_of_nonneg h.minHeight h.margin
  exact Int.floor_eq_zero_iff.mpr ⟨div_nonneg hle hp.le, (div_lt_one hp).mpr hlt⟩

theorem not_gridRight_behind (h : grid.Suitable) (hrt : grid.GridRight) (hp : 0 < grid.stride)
    (hw : grid.frameWidth + grid.horizontalMargin ≤ grid.stride) :
    grid.width ≤ grid.numberOfColumns * grid.stride ∨ grid.count ≤ grid.numberOfColumns := by
  by_contra hn
  obtain ⟨hlt, hc⟩ := not_or.mp hn
  have hcs : 0 < grid.numberOfColumns := numberOfColumns_pos
  have hh := add_pos_of_pos_of_nonneg h.minHeight h.margin
  let point : Point K := ⟨grid.numberOfColumns * grid.stride, 0⟩
  have hr : grid.rowAt point = 0 := rowAt_zero h le_rfl hh
  have hv : grid.InView point := ⟨⟨mul_nonneg (Nat.cast_nonneg _) hp.le, not_le.mp hlt⟩, le_rfl⟩
  have hi : grid.indexAtPoint point = some ((grid.numberOfColumns : ℕ) : ℤ) := by
    have hcl : ⌊point.x / grid.stride⌋ = grid.numberOfColumns :=
      floor_div_eq hp le_rfl (mul_lt_mul_of_pos_right (lt_add_one _) hp)
    rw [indexAtPoint_eq hp, hr, hcl, zero_mul, add_zero]
  have hm := hrt.margin point hv (fun i _ hpt => ?_) grid.numberOfColumns (not_le.mp hc) hi
  · rw [hr, Nat.div_self hcs] at hm
    exact absurd hm (by decide)
  · obtain ⟨-, ⟨-, hx⟩, -⟩ := (pointInRect_frame_iff h i point).mp hpt
    have hcl : ((i % grid.numberOfColumns : ℕ) : K) + 1 ≤ grid.numberOfColumns := by
      exact_mod_cast Nat.mod_lt i hcs
    have he := mul_le_mul_of_nonneg_right hcl hp.le
    rw [add_mul, one_mul] at he
    simp only [cellFrame, point] at hx
    linarith

theorem not_gridRight_negative (h : grid.Suitable) (hrt : grid.GridRight)
    (hn : grid.width < grid.minItemSize.width) (hl : grid.minItemSize.width < grid.width + 1)
    (hw : 0 < grid.width) (hc : grid.count ≠ 0) : 1 ≤ grid.minItemSize.width := by
  by_contra hs
  have hstr := stride_of_little h hn hl
  have hneg : grid.stride < 0 := by linarith
  have hcl := numberOfColumns_of_narrow h hn
  have hh := add_pos_of_pos_of_nonneg h.minHeight h.margin
  let point : Point K := ⟨min (grid.width / 2) (-grid.stride), grid.minItemSize.height + grid.verticalMargin⟩
  have hp : 0 < point.x := lt_min (half_pos hw) (neg_pos.mpr hneg)
  have hv : grid.InView point := ⟨⟨hp.le, (min_le_left _ _).trans_lt (half_lt_self hw)⟩, hh.le⟩
  have hr : grid.rowAt point = 1 := by
    have hsl : point.y / (grid.itemSize.height + grid.verticalMargin) = 1 := div_self hh.ne'
    rw [rowAt, hsl, Int.floor_one]
  have hco : ⌊point.x / grid.stride⌋ = -1 := by
    rw [Int.floor_eq_iff]
    push_cast
    constructor
    · rw [le_div_iff_of_neg hneg]
      linarith [min_le_right (grid.width / 2) (-grid.stride)]
    · rw [neg_add_cancel]
      exact div_neg_of_pos_of_neg hp hneg
  have hi : grid.indexAtPoint point = some ((0 : ℕ) : ℤ) := by
    rw [indexAtPoint, if_neg hneg.ne, hco, hr, hcl]
    rfl
  have hm := hrt.margin point hv (fun i _ hpt => ?_) 0 (Nat.pos_of_ne_zero hc) hi
  · rw [hr, Nat.zero_div] at hm
    exact absurd hm (by decide)
  · obtain ⟨-, ⟨-, hx⟩, -⟩ := (pointInRect_frame_iff h i point).mp hpt
    have hf := frameWidth_le_of_narrow h hn
    have hm : grid.horizontalMargin = grid.stride - grid.minItemSize.width := by
      rw [stride, itemSize, itemWidth_of_narrow h hn, add_sub_cancel_left]
    simp only [cellFrame] at hx
    rw [hcl, Nat.mod_one, Nat.cast_zero, zero_mul, add_zero] at hx
    linarith

theorem not_gridRight_single (h : grid.Suitable) (hrt : grid.GridRight)
    (hw : grid.minItemSize.width ≤ grid.width) (hs : grid.maxNumberOfColumns = 1) (hc : grid.count ≠ 0) :
    grid.width ≤ grid.maxItemSize.width := by
  by_contra hl
  have hlt := not_le.mp hl
  have hit : grid.itemWidth = grid.maxItemSize.width := by rw [itemWidth_of_one h hw hs, min_eq_left hlt.le]
  have hcl := numberOfColumns_of_one hs
  have hp := stride_pos_of_wide h hw
  have hmar := horizontalMargin_nonneg h hw
  have hmr := margins_le grid
  have hstr : grid.stride = grid.itemWidth + grid.horizontalMargin := rfl
  have hi := itemWidth_pos h
  rw [hcl, hit] at hmr
  push_cast at hmr
  let point : Point K := ⟨grid.stride, grid.verticalMargin⟩
  have hv : grid.InView point := ⟨⟨hp.le, by simp only [point]; linarith⟩, h.margin⟩
  have hr : grid.rowAt point = 0 := rowAt_zero h h.margin (by simp only [point]; linarith [h.minHeight])
  have hmem : PointInRect point (grid.frameForItemAtIndex 0) := by
    have hh := h.minHeight
    rw [pointInRect_frame_iff h, frameWidth, if_pos hs]
    simp only [cellFrame, point, Nat.zero_mod, Nat.zero_div, Nat.cast_zero, zero_mul, add_zero]
    exact ⟨shown_pos hc, ⟨by linarith, by linarith⟩, le_rfl, by linarith⟩
  have hm := hrt.mapped 0 (Nat.pos_of_ne_zero hc) point hv hmem
  have hsl : point.x / grid.stride = 1 := div_self hp.ne'
  rw [indexAtPoint_eq hp, hr, hsl, Int.floor_one, zero_mul] at hm
  exact absurd (Option.some.inj hm) (by decide)

theorem fits_of_gridRight (h : grid.Suitable) (hr : grid.GridRight) : grid.Fits := by
  refine or_iff_not_imp_left.mpr fun hc => ?_
  split
  · rename_i hn
    have hcl := numberOfColumns_of_narrow h hn
    rcases le_or_gt grid.width 0 with hwd | hwd
    · exact .inl hwd
    rcases le_or_gt (grid.width + 1) grid.minItemSize.width with hmc | hl
    · exact .inr (.inl hmc)
    have ho := not_gridRight_negative h hr hn hl hwd hc
    rcases ho.eq_or_lt with hsm | hlrg
    · exact .inr (.inr (.inl hsm.symm))
    have hstr := stride_of_little h hn hl
    have hp : 0 < grid.stride := by linarith
    have hm : grid.horizontalMargin = grid.stride - grid.minItemSize.width := by
      rw [stride, itemSize, itemWidth_of_narrow h hn, add_sub_cancel_left]
    have hf := frameWidth_le_of_narrow h hn
    rcases not_gridRight_behind h hr hp (by linarith) with hle | hle
    · rw [hcl, Nat.cast_one, one_mul] at hle
      linarith
    · exact .inr (.inr (.inr ⟨by omega, hlrg⟩))
  · rename_i hn
    have hw := not_lt.mp hn
    split
    · rename_i hs
      exact not_gridRight_single h hr hw hs hc
    · rename_i hs
      have hp := stride_pos_of_wide h hw
      have hwd : grid.frameWidth = grid.itemWidth := if_neg hs
      have hstr : grid.stride = grid.itemWidth + grid.horizontalMargin := rfl
      rcases not_gridRight_behind h hr hp (by linarith) with hle | hle
      · refine .inr ((fills_iff h hw hs).mp ?_)
        have hm := horizontalMargin_nonneg h hw
        have hmr := margins_le grid
        rw [hstr, mul_add] at hle
        rw [add_mul, one_mul] at hmr
        have hz : grid.horizontalMargin = 0 := by linarith
        rw [hz, mul_zero] at hle hmr
        linarith
      · rw [numberOfColumns_of_wide h hw] at hle
        exact .inl hle

/-- The grid is what is claimed if, and only if, the condition on the width, the limits and the sizes holds. -/
theorem gridRight_iff (grid : Grid K) (h : grid.Suitable) : grid.GridRight ↔ grid.Fits :=
  ⟨fits_of_gridRight h, gridRight_of_fits h⟩

end Grid

/-- Items of width 10 in a view of this width. -/
def tenWide (width : ℚ) : Grid ℚ :=
  ⟨width, ⟨10, 10⟩, ⟨10, 10⟩, 0, 0, 0, 4, none⟩

theorem tenWide_suitable (width : ℚ) : (tenWide width).Suitable := by
  constructor <;> norm_num [tenWide]

theorem gridRight_thirty : (tenWide 30).GridRight := by
  refine ((tenWide 30).gridRight_iff (tenWide_suitable 30)).mpr (.inr ?_)
  have hc : (tenWide 30).fittingColumns = 3 := by
    norm_num [Grid.fittingColumns, tenWide]
  rw [if_neg (by norm_num [tenWide]), if_neg (by norm_num [tenWide]), hc]
  exact .inr ⟨0, by norm_num [tenWide], by norm_num [tenWide]⟩

/-- At the right end of the first row of three items lies the index of the fourth. -/
theorem not_gridRight_thirtyOne : ¬ ∀ grid : Grid ℚ, grid.Suitable → grid.GridRight := by
  intro h
  have hm := (h (tenWide 31) (tenWide_suitable 31)).margin ⟨30, 0⟩ (by norm_num [Grid.InView, tenWide])
    (fun i hi hp => ?_) 3 (by decide) (by decide +kernel)
  · exact absurd hm (by decide +kernel)
  · have hf2 : ∀ i < 4, ((tenWide 31).frameForItemAtIndex i).origin.x +
        ((tenWide 31).frameForItemAtIndex i).size.width ≤ 30 := by
      decide +kernel
    exact absurd hp.1.2 (not_lt.mpr (hf2 i hi))

end GnustepGui.CollectionView.Tiling
