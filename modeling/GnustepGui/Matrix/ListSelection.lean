import GnustepGui.Library.Settings

/-!
# Selecting cells of `NSMatrix` in list mode

`setSelectionFrom:to:anchor:highlight:` selects the cells from the anchor to the end and unselects those
from the anchor to the start that are not among them. It does so by regions, of cells in a row after
the other or of cells in a rectangle, instead of unselecting all cells from the anchor to the start
first (`setSelectionFrom_eq_plain`).
-/

namespace GnustepGui.Matrix

inductive CellState where
  | mixedState
  | offState
  | onState
  deriving DecidableEq, Repr

structure NSCell where
  state : CellState
  highlighted : Bool
  enabled : Bool
  deriving DecidableEq, Repr

/-- The column and the row of a cell. -/
structure MPoint where
  x : Nat
  y : Nat
  deriving DecidableEq, Repr

/-- The cells and the flags kept beside them, by row and column. -/
structure CellGrid where
  cells : Nat → Nat → NSCell
  selectedCells : Nat → Nat → Bool

/-- `selectedCell` is given by its place in the matrix. -/
structure NSMatrix extends CellGrid where
  numRows : Nat
  numCols : Nat
  selectionByRect : Bool
  selectedCell : Option MPoint
  selectedRow : Int
  selectedColumn : Int

/-! ## Changing the cells of a region -/

/-- The cell and its flag in `_setState:highlight:startIndex:endIndex:`; a cell that is as it has to be,
or that is not enabled, is left alone. -/
def changeCell (state : CellState) (highlight : Bool) (aCell : NSCell) (selected : Bool) : NSCell × Bool :=
  if aCell.enabled ∧ (aCell.state ≠ state ∨ aCell.highlighted ≠ highlight ∨
      (state = .offState ∧ selected = true) ∨ (state ≠ .offState ∧ selected = false)) then
    ({ aCell with state := state, highlighted := highlight }, if state = .offState then false else true)
  else (aCell, selected)

/-- One turn of the inner loop. -/
def CellGrid.changeAt (state : CellState) (highlight : Bool) (i : Nat) (grid : CellGrid) (j : Nat) : CellGrid :=
  let (aCell, selected) := changeCell state highlight (grid.cells i j) (grid.selectedCells i j)
  { cells := Function.update grid.cells i (Function.update (grid.cells i) j aCell)
    selectedCells := Function.update grid.selectedCells i (Function.update (grid.selectedCells i) j selected) }

/-- The numbers of a loop `for (i = a; i <= b; i++)`. -/
def upTo (a b : Nat) : List Nat := List.range' a (b + 1 - a)

namespace NSMatrix

def pointFromIndex (m : NSMatrix) (index : Nat) : MPoint := ⟨index % m.numCols, index / m.numCols⟩

def indexFromCoords (m : NSMatrix) (x y : Nat) : Nat := y * m.numCols + x

/-- The columns of the inner loop for the row `i`. -/
def columns (m : NSMatrix) (startPoint endPoint : MPoint) (i : Nat) : List Nat :=
  let j := if m.selectionByRect ∨ i = startPoint.y then startPoint.x else 0
  let colLimit := if m.selectionByRect ∨ i = endPoint.y then endPoint.x else m.numCols - 1
  upTo j colLimit

/-- `_setState:highlight:startIndex:endIndex:` -/
def setState (m : NSMatrix) (state : CellState) (highlight : Bool) (startIndex endIndex : Nat) : NSMatrix :=
  let startPoint := m.pointFromIndex startIndex
  let endPoint := m.pointFromIndex endIndex
  { m with
    toCellGrid := (upTo startPoint.y endPoint.y).foldl
      (fun grid i => (m.columns startPoint endPoint i).foldl (CellGrid.changeAt state highlight i) grid)
      m.toCellGrid }

/-! ## The selected cell -/

/-- The last flag of a row that is set, below a column. -/
def lastInRow (flags : Nat → Bool) : Nat → Option Nat
  | 0 => none
  | j + 1 => if flags j then some j else lastInRow flags j

/-- The last flag that is set, below a row. -/
def lastFlagged (flags : Nat → Nat → Bool) (numCols : Nat) : Nat → Option MPoint
  | 0 => none
  | i + 1 =>
    match lastInRow (flags i) numCols with
    | some j => some ⟨j, i⟩
    | none => lastFlagged flags numCols i

/-- The end of `setSelectionFrom:to:anchor:highlight:`, which updates `_selectedCell` and related
ivars. -/
def updateSelectedCell (m : NSMatrix) : NSMatrix :=
  match lastFlagged m.selectedCells m.numCols m.numRows with
  | some point => { m with selectedCell := some point, selectedRow := point.y, selectedColumn := point.x }
  | none => { m with selectedCell := none, selectedRow := -1, selectedColumn := -1 }

/-! ## The selection -/

/-- Selected for `flag`. -/
def mark (m : NSMatrix) (flag : Bool) (startIndex endIndex : Nat) : NSMatrix :=
  m.setState (if flag then .onState else .offState) flag startIndex endIndex

/-- Unselected for `flag`. -/
def unmark (m : NSMatrix) (flag : Bool) (startIndex endIndex : Nat) : NSMatrix :=
  m.setState (if flag then .offState else .onState) (!flag) startIndex endIndex

/-- Linear selection. -/
def setLinear (m : NSMatrix) (startPos endPos anchorPos : Nat) (flag : Bool) : NSMatrix :=
  let selStart := min anchorPos endPos
  let selEnd := max anchorPos endPos
  let m := m.mark flag selStart selEnd
  if startPos > selEnd then m.unmark flag (selEnd + 1) startPos
  else if startPos < selStart then m.unmark flag startPos (selStart - 1)
  else m

/-- The columns from the start to the first rectangle, if the start is on the right or on the left of
it. -/
def unmarkColumns (m : NSMatrix) (flag : Bool) (startX minxAE maxxAE minyAS maxyAS : Nat) : NSMatrix :=
  if startX > maxxAE then
    m.unmark flag (m.indexFromCoords (maxxAE + 1) minyAS) (m.indexFromCoords startX maxyAS)
  else if startX < minxAE then
    m.unmark flag (m.indexFromCoords startX minyAS) (m.indexFromCoords (minxAE - 1) maxyAS)
  else m

/-- The rows from the start to the first rectangle, if the start is below or above it. -/
def unmarkRows (m : NSMatrix) (flag : Bool) (startY minyAE maxyAE minxAS maxxAS : Nat) : NSMatrix :=
  if startY > maxyAE then
    m.unmark flag (m.indexFromCoords minxAS (maxyAE + 1)) (m.indexFromCoords maxxAS startY)
  else if startY < minyAE then
    m.unmark flag (m.indexFromCoords minxAS startY) (m.indexFromCoords maxxAS (minyAE - 1))
  else m

/-- Rectangular selection. -/
def setRectangular (m : NSMatrix) (startPos endPos anchorPos : Nat) (flag : Bool) : NSMatrix :=
  let anchorPoint := m.pointFromIndex anchorPos
  let endPoint := m.pointFromIndex endPos
  let startPoint := m.pointFromIndex startPos
  let minxAE := min anchorPoint.x endPoint.x
  let minyAE := min anchorPoint.y endPoint.y
  let maxxAE := max anchorPoint.x endPoint.x
  let maxyAE := max anchorPoint.y endPoint.y
  let minxAS := min anchorPoint.x startPoint.x
  let minyAS := min anchorPoint.y startPoint.y
  let maxxAS := max anchorPoint.x startPoint.x
  let maxyAS := max anchorPoint.y startPoint.y
  let m := m.mark flag (m.indexFromCoords minxAE minyAE) (m.indexFromCoords maxxAE maxyAE)
  let m := m.unmarkColumns flag startPoint.x minxAE maxxAE minyAS maxyAS
  m.unmarkRows flag startPoint.y minyAE maxyAE minxAS maxxAS

/-- `setSelectionFrom:to:anchor:highlight:` -/
def setSelectionFrom (m : NSMatrix) (startPos endPos anchorPos : Nat) (flag : Bool) : NSMatrix :=
  let m :=
    if m.selectionByRect = false ∨ m.numRows = 1 ∨ m.numCols = 1 then m.setLinear startPos endPos anchorPos flag
    else m.setRectangular startPos endPos anchorPos flag
  m.updateSelectedCell

end NSMatrix

/-! ## What is changed -/

/-- A cell with its flag, as it is made. -/
def put (state : CellState) (highlight : Bool) (entry : NSCell × Bool) : NSCell × Bool :=
  if entry.1.enabled then ({ entry.1 with state := state, highlighted := highlight }, decide (state ≠ .offState))
  else entry

def CellGrid.entry (grid : CellGrid) (i j : Nat) : NSCell × Bool := (grid.cells i j, grid.selectedCells i j)

theorem changeCell_eq_put (state : CellState) (highlight : Bool) (aCell : NSCell) (selected : Bool) :
    changeCell state highlight aCell selected = put state highlight (aCell, selected) := by
  obtain ⟨old, lit, enabled⟩ := aCell
  unfold changeCell put
  cases enabled with
  | false => rfl
  | true => cases state <;> cases old <;> cases lit <;> cases highlight <;> cases selected <;> rfl

theorem put_put (state : CellState) (highlight : Bool) (entry : NSCell × Bool) :
    put state highlight (put state highlight entry) = put state highlight entry := by
  unfold put
  by_cases he : entry.1.enabled = true
  · simp only [if_pos he]
  · simp only [if_neg he]

theorem entry_changeAt (state : CellState) (highlight : Bool) (grid : CellGrid) (i j i' j' : Nat) :
    (grid.changeAt state highlight i j).entry i' j' =
      if i = i' ∧ j = j' then put state highlight (grid.entry i' j') else grid.entry i' j' := by
  unfold CellGrid.changeAt CellGrid.entry
  rw [changeCell_eq_put]
  by_cases hi : i = i'
  · subst hi
    by_cases hj : j = j'
    · subst hj
      simp
    · simp [hj, Function.update_of_ne (Ne.symm hj)]
  · simp [hi, Function.update_of_ne (Ne.symm hi)]

theorem mem_upTo {a b k : Nat} : k ∈ upTo a b ↔ a ≤ k ∧ k ≤ b := by
  rw [upTo, List.mem_range'_1]
  omega

namespace NSMatrix

variable {m : NSMatrix} {startIndex endIndex i j : Nat}

/-- The cells that the loops come to. -/
def Visits (m : NSMatrix) (startIndex endIndex i j : Nat) : Prop :=
  i ∈ upTo (m.pointFromIndex startIndex).y (m.pointFromIndex endIndex).y ∧
    j ∈ m.columns (m.pointFromIndex startIndex) (m.pointFromIndex endIndex) i

instance : Decidable (m.Visits startIndex endIndex i j) := instDecidableAnd

/-- `_setState:highlight:startIndex:endIndex:` makes every cell it comes to what it has to be. -/
theorem entry_setState (state : CellState) (highlight : Bool) :
    (m.setState state highlight startIndex endIndex).entry i j =
      if m.Visits startIndex endIndex i j then put state highlight (m.entry i j) else m.entry i j := by
  have hinn : ∀ (grid : CellGrid) (i' : Nat),
      ((m.columns (m.pointFromIndex startIndex) (m.pointFromIndex endIndex) i').foldl
          (CellGrid.changeAt state highlight i') grid).entry i j =
        if i' = i ∧ j ∈ m.columns (m.pointFromIndex startIndex) (m.pointFromIndex endIndex) i then
          put state highlight (grid.entry i j) else grid.entry i j := by
    intro grid i'
    rw [Settings.foldl_touched (CellGrid.changeAt state highlight i') (fun grid => grid.entry i j)
      (put state highlight) (fun j' => i' = i ∧ j' = j) (fun grid j' hj => by rw [entry_changeAt, if_pos hj])
      (fun grid j' hj => by rw [entry_changeAt, if_neg hj]) (put_put state highlight)]
    refine if_congr ?_ rfl rfl
    constructor
    · rintro ⟨j', hj', rfl, rfl⟩
      exact ⟨rfl, hj'⟩
    · rintro ⟨rfl, hj⟩
      exact ⟨j, hj, rfl, rfl⟩
  have ho := Settings.foldl_touched
    (fun grid i' => (m.columns (m.pointFromIndex startIndex) (m.pointFromIndex endIndex) i').foldl
      (CellGrid.changeAt state highlight i') grid)
    (fun grid => grid.entry i j) (put state highlight)
    (fun i' => i' = i ∧ j ∈ m.columns (m.pointFromIndex startIndex) (m.pointFromIndex endIndex) i)
    (fun grid i' hi => by rw [hinn, if_pos hi]) (fun grid i' hi => by rw [hinn, if_neg hi])
    (put_put state highlight) (upTo (m.pointFromIndex startIndex).y (m.pointFromIndex endIndex).y) m.toCellGrid
  refine ho.trans (if_congr ?_ rfl rfl)
  constructor
  · rintro ⟨i', hi', rfl, hj⟩
    exact ⟨hi', hj⟩
  · rintro ⟨hi, hj⟩
    exact ⟨i, hi, rfl, hj⟩

/-! ## Regions -/

theorem index_le_iff {n x y x' y' : Nat} (hx : x < n) (hx' : x' < n) :
    y * n + x ≤ y' * n + x' ↔ y < y' ∨ (y = y' ∧ x ≤ x') := by
  rcases Nat.lt_trichotomy y y' with hlt | rfl | hgt
  · have hr : (y + 1) * n ≤ y' * n := Nat.mul_le_mul_right n hlt
    rw [Nat.succ_mul] at hr
    refine iff_of_true ?_ (.inl hlt)
    omega
  · omega
  · have hr : (y' + 1) * n ≤ y * n := Nat.mul_le_mul_right n hgt
    rw [Nat.succ_mul] at hr
    refine iff_of_false ?_ ?_ <;> omega

theorem pointFromIndex_indexFromCoords {x y : Nat} (hx : x < m.numCols) :
    m.pointFromIndex (m.indexFromCoords x y) = ⟨x, y⟩ := by
  have hp : 0 < m.numCols := by omega
  unfold pointFromIndex indexFromCoords
  rw [Nat.mul_add_mod', Nat.mod_eq_of_lt hx, Nat.add_comm, Nat.add_mul_div_right _ _ hp, Nat.div_eq_of_lt hx, Nat.zero_add]

/-- The cells between two places, in the order of the cells. -/
abbrev InLine (m : NSMatrix) (a b i j : Nat) : Prop :=
  min a b ≤ m.indexFromCoords j i ∧ m.indexFromCoords j i ≤ max a b

/-- The cells between two places, in a rectangle. -/
abbrev InRectangle (a b : MPoint) (i j : Nat) : Prop :=
  (min a.x b.x ≤ j ∧ j ≤ max a.x b.x) ∧ (min a.y b.y ≤ i ∧ i ≤ max a.y b.y)

theorem visits_linear (hlinear : m.selectionByRect = false ∨ m.numRows = 1 ∨ m.numCols = 1)
    (hi : i < m.numRows) (hj : j < m.numCols) (hs : startIndex < m.numRows * m.numCols)
    (he : endIndex < m.numRows * m.numCols) :
    m.Visits startIndex endIndex i j ↔ startIndex ≤ m.indexFromCoords j i ∧ m.indexFromCoords j i ≤ endIndex := by
  have hp : 0 < m.numCols := by omega
  have hx : startIndex % m.numCols < m.numCols := Nat.mod_lt _ hp
  have hxe : endIndex % m.numCols < m.numCols := Nat.mod_lt _ hp
  have hy : startIndex / m.numCols < m.numRows := Nat.div_lt_of_lt_mul (by rwa [Nat.mul_comm])
  have hye : endIndex / m.numCols < m.numRows := Nat.div_lt_of_lt_mul (by rwa [Nat.mul_comm])
  have hf : startIndex ≤ m.indexFromCoords j i ↔
      startIndex / m.numCols < i ∨ (startIndex / m.numCols = i ∧ startIndex % m.numCols ≤ j) := by
    rw [← index_le_iff hx hj, Nat.div_add_mod', indexFromCoords]
  have ht : m.indexFromCoords j i ≤ endIndex ↔
      i < endIndex / m.numCols ∨ (i = endIndex / m.numCols ∧ j ≤ endIndex % m.numCols) := by
    rw [← index_le_iff hj hxe, Nat.div_add_mod', indexFromCoords]
  unfold Visits columns pointFromIndex
  rw [mem_upTo, mem_upTo, hf, ht]
  dsimp only
  clear hf ht
  generalize startIndex / m.numCols = ys at *
  generalize endIndex / m.numCols = ye at *
  generalize startIndex % m.numCols = xs at *
  generalize endIndex % m.numCols = xe at *
  rcases hlinear with hl | hr | hc
  · simp only [hl, Bool.false_eq_true, false_or]
    split_ifs <;> omega
  · split_ifs <;> omega
  · split_ifs <;> omega

theorem visits_rectangular (hrect : m.selectionByRect = true) {x y x' y' : Nat} (hx : x < m.numCols)
    (hx' : x' < m.numCols) :
    m.Visits (m.indexFromCoords x y) (m.indexFromCoords x' y') i j ↔ (x ≤ j ∧ j ≤ x') ∧ (y ≤ i ∧ i ≤ y') := by
  unfold Visits columns
  rw [pointFromIndex_indexFromCoords hx, pointFromIndex_indexFromCoords hx', mem_upTo, mem_upTo,
    if_pos (.inl hrect), if_pos (.inl hrect), and_comm]

/-! ## The plain procedure -/

/-- The cells from one place to another, in the way the matrix selects. -/
def Region (m : NSMatrix) (a b i j : Nat) : Prop :=
  if m.selectionByRect = false ∨ m.numRows = 1 ∨ m.numCols = 1 then m.InLine a b i j
  else InRectangle (m.pointFromIndex a) (m.pointFromIndex b) i j

instance (m : NSMatrix) (a b i j : Nat) : Decidable (m.Region a b i j) := by
  unfold Region
  infer_instance

/-- Every cell of a region is made the same. -/
def putRegion (m : NSMatrix) (a b : Nat) (state : CellState) (highlight : Bool) : NSMatrix :=
  { m with
    cells := fun i j => if m.Region a b i j then (put state highlight (m.entry i j)).1 else m.cells i j
    selectedCells := fun i j =>
      if m.Region a b i j then (put state highlight (m.entry i j)).2 else m.selectedCells i j }

/-- An easy way of doing this is unselecting all cells from A to S and then selecting all cells from A to
E. -/
def plainSelection (m : NSMatrix) (startPos endPos anchorPos : Nat) : NSMatrix :=
  (m.putRegion anchorPos startPos .offState false).putRegion anchorPos endPos .onState true

/-- The selected cell is the last one that is flagged, if any is. -/
def RecordsLast (m : NSMatrix) : Prop :=
  (∃ i < m.numRows, ∃ j < m.numCols, m.selectedCells i j = true ∧
      (∀ i' < m.numRows, ∀ j' < m.numCols, m.selectedCells i' j' = true →
        m.indexFromCoords j' i' ≤ m.indexFromCoords j i) ∧
      m.selectedCell = some ⟨j, i⟩ ∧ m.selectedRow = i ∧ m.selectedColumn = j) ∨
    ((∀ i < m.numRows, ∀ j < m.numCols, m.selectedCells i j = false) ∧
      m.selectedCell = none ∧ m.selectedRow = -1 ∧ m.selectedColumn = -1)

theorem entry_putRegion (a b : Nat) (state : CellState) (highlight : Bool) :
    (m.putRegion a b state highlight).entry i j =
      if m.Region a b i j then put state highlight (m.entry i j) else m.entry i j := by
  unfold CellGrid.entry putRegion
  by_cases hr : m.Region a b i j
  · simp only [if_pos hr]
    rfl
  · simp only [if_neg hr]

theorem put_on_off (entry : NSCell × Bool) :
    put .onState true (put .offState false entry) = put .onState true entry := by
  unfold put
  by_cases he : entry.1.enabled = true
  · simp only [if_pos he]
  · simp only [if_neg he]

theorem entry_plainSelection (startPos endPos anchorPos : Nat) :
    (m.plainSelection startPos endPos anchorPos).entry i j =
      if m.Region anchorPos endPos i j then put .onState true (m.entry i j)
      else if m.Region anchorPos startPos i j then put .offState false (m.entry i j)
      else m.entry i j := by
  unfold plainSelection
  rw [entry_putRegion, entry_putRegion]
  show (if m.Region anchorPos endPos i j then _ else _) = _
  by_cases he : m.Region anchorPos endPos i j
  · rw [if_pos he, if_pos he]
    split
    · exact put_on_off _
    · rfl
  · rw [if_neg he, if_neg he]

/-! ## The regions that are changed -/

theorem entry_mark (startIndex endIndex i j : Nat) :
    (m.mark true startIndex endIndex).entry i j =
      if m.Visits startIndex endIndex i j then put .onState true (m.entry i j) else m.entry i j :=
  entry_setState .onState true

theorem entry_unmark (startIndex endIndex i j : Nat) :
    (m.unmark true startIndex endIndex).entry i j =
      if m.Visits startIndex endIndex i j then put .offState false (m.entry i j) else m.entry i j :=
  entry_setState .offState false

@[simp] theorem indexFromCoords_mark (flag : Bool) (startIndex endIndex x y : Nat) :
    (m.mark flag startIndex endIndex).indexFromCoords x y = m.indexFromCoords x y := rfl

section Linear

variable (hlinear : m.selectionByRect = false ∨ m.numRows = 1 ∨ m.numCols = 1) (hi : i < m.numRows)
  (hj : j < m.numCols)

include hlinear hi hj

theorem entry_mark_linear (hs : startIndex < m.numRows * m.numCols) (he : endIndex < m.numRows * m.numCols) :
    (m.mark true startIndex endIndex).entry i j =
      if startIndex ≤ m.indexFromCoords j i ∧ m.indexFromCoords j i ≤ endIndex then put .onState true (m.entry i j)
      else m.entry i j := by
  rw [entry_mark]
  exact if_congr (visits_linear hlinear hi hj hs he) rfl rfl

theorem entry_unmark_linear (hs : startIndex < m.numRows * m.numCols) (he : endIndex < m.numRows * m.numCols) :
    (m.unmark true startIndex endIndex).entry i j =
      if startIndex ≤ m.indexFromCoords j i ∧ m.indexFromCoords j i ≤ endIndex then put .offState false (m.entry i j)
      else m.entry i j := by
  rw [entry_unmark]
  exact if_congr (visits_linear hlinear hi hj hs he) rfl rfl

/-- The start is behind the interval from the anchor to the end, before it, or in it. -/
theorem entry_setLinear {startPos endPos anchorPos : Nat} (hs : startPos < m.numRows * m.numCols)
    (he : endPos < m.numRows * m.numCols) (ha : anchorPos < m.numRows * m.numCols) :
    (m.setLinear startPos endPos anchorPos true).entry i j =
      if m.InLine anchorPos endPos i j then put .onState true (m.entry i j)
      else if m.InLine anchorPos startPos i j then put .offState false (m.entry i j)
      else m.entry i j := by
  have hm := entry_mark_linear hlinear hi hj (show min anchorPos endPos < m.numRows * m.numCols by omega)
    (show max anchorPos endPos < m.numRows * m.numCols by omega)
  unfold setLinear
  dsimp only
  by_cases hb : startPos > max anchorPos endPos
  · have hu := entry_unmark_linear (m := m.mark true (min anchorPos endPos) (max anchorPos endPos))
      hlinear hi hj (show max anchorPos endPos + 1 < m.numRows * m.numCols by omega) hs
    rw [if_pos hb, hu, hm, indexFromCoords_mark]
    split_ifs <;> first | rfl | (exfalso; omega)
  rw [if_neg hb]
  by_cases hbef : startPos < min anchorPos endPos
  · have hu := entry_unmark_linear (m := m.mark true (min anchorPos endPos) (max anchorPos endPos))
      hlinear hi hj hs (show min anchorPos endPos - 1 < m.numRows * m.numCols by omega)
    rw [if_pos hbef, hu, hm, indexFromCoords_mark]
    split_ifs <;> first | rfl | (exfalso; omega)
  · rw [if_neg hbef, hm]
    split_ifs <;> first | rfl | (exfalso; omega)

end Linear

section Rectangular

variable (hrect : m.selectionByRect = true)

include hrect

theorem entry_mark_rectangular {x y x' y' : Nat} (hx : x < m.numCols) (hx' : x' < m.numCols) :
    (m.mark true (m.indexFromCoords x y) (m.indexFromCoords x' y')).entry i j =
      if (x ≤ j ∧ j ≤ x') ∧ (y ≤ i ∧ i ≤ y') then put .onState true (m.entry i j) else m.entry i j := by
  rw [entry_mark]
  exact if_congr (visits_rectangular hrect hx hx') rfl rfl

theorem entry_unmark_rectangular {x y x' y' : Nat} (hx : x < m.numCols) (hx' : x' < m.numCols) :
    (m.unmark true (m.indexFromCoords x y) (m.indexFromCoords x' y')).entry i j =
      if (x ≤ j ∧ j ≤ x') ∧ (y ≤ i ∧ i ≤ y') then put .offState false (m.entry i j) else m.entry i j := by
  rw [entry_unmark]
  exact if_congr (visits_rectangular hrect hx hx') rfl rfl

theorem entry_unmarkColumns {startX minx maxx miny maxy : Nat} (hs : startX < m.numCols) (hm : minx < m.numCols) :
    (m.unmarkColumns true startX minx maxx miny maxy).entry i j =
      if ((maxx < j ∧ j ≤ startX) ∨ (startX ≤ j ∧ j < minx ∧ startX ≤ maxx)) ∧ (miny ≤ i ∧ i ≤ maxy) then
        put .offState false (m.entry i j) else m.entry i j := by
  unfold unmarkColumns
  split
  · rw [entry_unmark_rectangular hrect (by omega) hs]
    refine if_congr ?_ rfl rfl
    omega
  · split
    · rw [entry_unmark_rectangular hrect hs (by omega)]
      refine if_congr ?_ rfl rfl
      omega
    · rw [if_neg (by omega)]

theorem entry_unmarkRows {startY miny maxy minx maxx : Nat} (hm : minx < m.numCols) (hmx : maxx < m.numCols) :
    (m.unmarkRows true startY miny maxy minx maxx).entry i j =
      if ((maxy < i ∧ i ≤ startY) ∨ (startY ≤ i ∧ i < miny ∧ startY ≤ maxy)) ∧ (minx ≤ j ∧ j ≤ maxx) then
        put .offState false (m.entry i j) else m.entry i j := by
  unfold unmarkRows
  split
  · rw [entry_unmark_rectangular hrect hm hmx]
    refine if_congr ?_ rfl rfl
    omega
  · split
    · rw [entry_unmark_rectangular hrect hm hmx]
      refine if_congr ?_ rfl rfl
      omega
    · rw [if_neg (by omega)]

end Rectangular

@[simp] theorem numCols_unmarkColumns (flag : Bool) (startX minx maxx miny maxy : Nat) :
    (m.unmarkColumns flag startX minx maxx miny maxy).numCols = m.numCols := by
  unfold unmarkColumns
  split
  · rfl
  · split <;> rfl

@[simp] theorem selectionByRect_unmarkColumns (flag : Bool) (startX minx maxx miny maxy : Nat) :
    (m.unmarkColumns flag startX minx maxx miny maxy).selectionByRect = m.selectionByRect := by
  unfold unmarkColumns
  split
  · rfl
  · split <;> rfl

theorem put_off_off (entry : NSCell × Bool) :
    put .offState false (put .offState false entry) = put .offState false entry := put_put _ _ _

theorem strip_iff (a e s k : Nat) : (max a e < k ∧ k ≤ s ∨ s ≤ k ∧ k < min a e ∧ s ≤ max a e) ↔
      (min a s ≤ k ∧ k ≤ max a s) ∧ ¬ (min a e ≤ k ∧ k ≤ max a e) := by
  omega

theorem put_strips (entry : NSCell × Bool) (ex ey sx sy : Prop) [Decidable ex] [Decidable ey] [Decidable sx] [Decidable sy] :
    (let marked := if ex ∧ ey then put .onState true entry else entry
     let cleared := if (sx ∧ ¬ ex) ∧ sy then put .offState false marked else marked
     if (sy ∧ ¬ ey) ∧ sx then put .offState false cleared else cleared) =
      if ex ∧ ey then put .onState true entry else if sx ∧ sy then put .offState false entry else entry := by
  by_cases hx : sx <;> by_cases hy : sy <;> by_cases hex : ex <;> by_cases he : ey <;>
    simp [hx, hy, hex, he, put_off_off]

theorem entry_setRectangular (hrect : m.selectionByRect = true) (hc : 0 < m.numCols) (startPos endPos anchorPos : Nat) :
    (m.setRectangular startPos endPos anchorPos true).entry i j =
      if InRectangle (m.pointFromIndex anchorPos) (m.pointFromIndex endPos) i j then put .onState true (m.entry i j)
      else if InRectangle (m.pointFromIndex anchorPos) (m.pointFromIndex startPos) i j then
        put .offState false (m.entry i j)
      else m.entry i j := by
  have hx : ∀ index, (m.pointFromIndex index).x < m.numCols := fun index => Nat.mod_lt index hc
  unfold setRectangular
  dsimp only
  generalize han : m.pointFromIndex anchorPos = anchor
  generalize hend : m.pointFromIndex endPos = endPoint
  generalize hst : m.pointFromIndex startPos = start
  have ha : anchor.x < m.numCols := han ▸ hx anchorPos
  have he : endPoint.x < m.numCols := hend ▸ hx endPos
  have hs : start.x < m.numCols := hst ▸ hx startPos
  have hmr : (m.mark true (m.indexFromCoords (min anchor.x endPoint.x) (min anchor.y endPoint.y))
      (m.indexFromCoords (max anchor.x endPoint.x) (max anchor.y endPoint.y))).entry i j =
        if InRectangle anchor endPoint i j then put .onState true (m.entry i j) else m.entry i j :=
    entry_mark_rectangular hrect (by omega) (by omega)
  generalize hm1 : m.mark true (m.indexFromCoords (min anchor.x endPoint.x) (min anchor.y endPoint.y))
    (m.indexFromCoords (max anchor.x endPoint.x) (max anchor.y endPoint.y)) = m1 at hmr ⊢
  have hc1 : m1.numCols = m.numCols := hm1 ▸ rfl
  have hrect1 : m1.selectionByRect = true := hm1 ▸ hrect
  rw [entry_unmarkRows (by rw [selectionByRect_unmarkColumns, hrect1]) (by rw [numCols_unmarkColumns, hc1]; omega)
      (by rw [numCols_unmarkColumns, hc1]; omega),
    entry_unmarkColumns hrect1 (by rwa [hc1]) (by rw [hc1]; omega), hmr]
  unfold InRectangle
  simp only [strip_iff]
  exact put_strips ..

/-! ## The selected cell is recorded -/

theorem lastInRow_spec (flags : Nat → Bool) (n : Nat) :
    match lastInRow flags n with
    | some j => j < n ∧ flags j = true ∧ ∀ j' < n, flags j' = true → j' ≤ j
    | none => ∀ j < n, flags j = false := by
  induction n with
  | zero => exact fun j hj => absurd hj (Nat.not_lt_zero j)
  | succ n ih =>
    unfold lastInRow
    cases hf : flags n with
    | true => exact ⟨Nat.lt_succ_self n, hf, fun j' hj' _ => Nat.le_of_lt_succ hj'⟩
    | false =>
      rw [if_neg Bool.noConfusion]
      cases hr : lastInRow flags n with
      | some j =>
        rw [hr] at ih
        obtain ⟨hj, hs, hl⟩ := ih
        refine ⟨Nat.lt_succ_of_lt hj, hs, fun j' hj' hs' => ?_⟩
        rcases Nat.lt_succ_iff_lt_or_eq.mp hj' with hlt | rfl
        · exact hl j' hlt hs'
        · exact absurd (hf.symm.trans hs') Bool.noConfusion
      | none =>
        rw [hr] at ih
        intro j hj
        rcases Nat.lt_succ_iff_lt_or_eq.mp hj with hlt | rfl
        · exact ih j hlt
        · exact hf

theorem lastFlagged_spec (flags : Nat → Nat → Bool) (numCols n : Nat) :
    match lastFlagged flags numCols n with
    | some point => point.y < n ∧ point.x < numCols ∧ flags point.y point.x = true ∧
        ∀ i < n, ∀ j < numCols, flags i j = true → i < point.y ∨ (i = point.y ∧ j ≤ point.x)
    | none => ∀ i < n, ∀ j < numCols, flags i j = false := by
  induction n with
  | zero => exact fun i hi => absurd hi (Nat.not_lt_zero i)
  | succ n ih =>
    unfold lastFlagged
    have hsp := lastInRow_spec (flags n) numCols
    cases hr : lastInRow (flags n) numCols with
    | some j =>
      rw [hr] at hsp
      obtain ⟨hj, hs, hl⟩ := hsp
      refine ⟨Nat.lt_succ_self n, hj, hs, fun i hi j' hj' hs' => ?_⟩
      rcases Nat.lt_succ_iff_lt_or_eq.mp hi with hlt | rfl
      · exact .inl hlt
      · exact .inr ⟨rfl, hl j' hj' hs'⟩
    | none =>
      rw [hr] at hsp
      have hn : ∀ j < numCols, flags n j ≠ true := fun j hj => ne_true_of_eq_false (hsp j hj)
      dsimp only
      cases hrs : lastFlagged flags numCols n with
      | some point =>
        rw [hrs] at ih
        obtain ⟨hy, hx, hs, hl⟩ := ih
        refine ⟨Nat.lt_succ_of_lt hy, hx, hs, fun i hi j hj hs' => ?_⟩
        rcases Nat.lt_succ_iff_lt_or_eq.mp hi with hlt | rfl
        · exact hl i hlt j hj hs'
        · exact absurd hs' (hn j hj)
      | none =>
        rw [hrs] at ih
        intro i hi j hj
        rcases Nat.lt_succ_iff_lt_or_eq.mp hi with hlt | rfl
        · exact ih i hlt j hj
        · exact hsp j hj

theorem updateSelectedCell_records (m : NSMatrix) : m.updateSelectedCell.RecordsLast := by
  have hsp := lastFlagged_spec m.selectedCells m.numCols m.numRows
  unfold updateSelectedCell
  cases hl : lastFlagged m.selectedCells m.numCols m.numRows with
  | some point =>
    rw [hl] at hsp
    obtain ⟨hy, hx, hs, hb⟩ := hsp
    refine .inl ⟨point.y, hy, point.x, hx, hs, fun i hi j hj hs' => ?_, rfl, rfl, rfl⟩
    exact (index_le_iff hj hx).mpr (hb i hi j hj hs')
  | none =>
    rw [hl] at hsp
    exact .inr ⟨hsp, rfl, rfl, rfl⟩

theorem entry_updateSelectedCell (m : NSMatrix) (i j : Nat) : m.updateSelectedCell.entry i j = m.entry i j := by
  unfold updateSelectedCell
  split <;> rfl

end NSMatrix

open NSMatrix

/-- The regions give what the plain procedure gives, and the last flagged cell is recorded. -/
theorem setSelectionFrom_eq_plain (m : NSMatrix) (startPos endPos anchorPos : Nat)
    (hstart : startPos < m.numRows * m.numCols) (hend : endPos < m.numRows * m.numCols)
    (hanchor : anchorPos < m.numRows * m.numCols) :
    (∀ i < m.numRows, ∀ j < m.numCols,
      (m.setSelectionFrom startPos endPos anchorPos true).selectedCells i j =
          (m.plainSelection startPos endPos anchorPos).selectedCells i j ∧
        (m.setSelectionFrom startPos endPos anchorPos true).cells i j =
          (m.plainSelection startPos endPos anchorPos).cells i j) ∧
      (m.setSelectionFrom startPos endPos anchorPos true).RecordsLast := by
  refine ⟨fun i hi j hj => ?_, updateSelectedCell_records _⟩
  have he : (m.setSelectionFrom startPos endPos anchorPos true).entry i j =
      (m.plainSelection startPos endPos anchorPos).entry i j := by
    rw [entry_plainSelection]
    unfold setSelectionFrom Region
    rw [entry_updateSelectedCell]
    by_cases hlinear : m.selectionByRect = false ∨ m.numRows = 1 ∨ m.numCols = 1
    · simp only [if_pos hlinear]
      exact entry_setLinear hlinear hi hj hstart hend hanchor
    · simp only [if_neg hlinear]
      exact entry_setRectangular (eq_true_of_ne_false (not_or.mp hlinear).1) (Nat.zero_lt_of_lt hj) _ _ _
  exact ⟨congrArg Prod.snd he, congrArg Prod.fst he⟩

/-- Three rows of four cells, of which none is selected. -/
def freshMatrix (selectionByRect : Bool) : NSMatrix where
  cells _ _ := ⟨.offState, false, true⟩
  selectedCells _ _ := false
  numRows := 3
  numCols := 4
  selectionByRect := selectionByRect
  selectedCell := none
  selectedRow := -1
  selectedColumn := -1

theorem setSelectionFrom_freshMatrix :
    ((freshMatrix true).setSelectionFrom 11 1 4 true).selectedCells 0 1 =
        ((freshMatrix true).plainSelection 11 1 4).selectedCells 0 1 ∧
      ((freshMatrix true).setSelectionFrom 11 1 4 true).RecordsLast := by
  have h := setSelectionFrom_eq_plain (freshMatrix true) 11 1 4 (by decide) (by decide) (by decide)
  exact ⟨(h.1 0 (by decide) 1 (by decide)).1, h.2⟩

end GnustepGui.Matrix
