import Mathlib.Data.List.Nodup

/-!
# The matrix of a browser column

One column of cells. A matrix is never made smaller: rows beyond `numRows` keep their cells, and come back
with them when the matrix grows again.

`Shows m rows selected`: what can be seen of the matrix. Emptying the selection and renewing the rows leave
the selection alone in a radio matrix that does not allow an empty one.
-/

namespace GnustepGui.Browser

abbrev Title := List Char

inductive NSMatrixMode where
  | radio
  | list
  deriving DecidableEq, Repr

/-- What a matrix is set to when it is made. -/
structure MatrixSettings where
  mode : NSMatrixMode
  allowsEmptySelection : Bool
  deriving DecidableEq, Repr

/-- Cells are told apart by their numbers. -/
structure NSBrowserCell where
  number : Nat
  stringValue : Title
  isLeaf : Bool
  isLoaded : Bool
  isSelected : Bool
  deriving DecidableEq, Repr

/-- The selected cell is the one in `selectedRow`. -/
structure NSMatrix where
  cells : List NSBrowserCell
  numRows : Nat
  selectedRow : Option Nat
  deriving DecidableEq, Repr

namespace NSMatrix

variable (settings : MatrixSettings) (matrix : NSMatrix)

def cellAtRow (row : Int) : Option NSBrowserCell :=
  if row < 0 ∨ matrix.numRows ≤ row then none else matrix.cells[row.toNat]?

def selectedCell : Option NSBrowserCell :=
  matrix.selectedRow.bind (matrix.cells[·]?)

def selectedCells : List NSBrowserCell :=
  (matrix.cells.take matrix.numRows).filter (·.isSelected)

/-- The rows of the selected cells. -/
def selectedRows : List Nat :=
  (List.range matrix.numRows).filter fun row => matrix.cells[row]?.any (·.isSelected)

/-- The titles and whether they are leaves, row by row. -/
def contents : List (Title × Bool) :=
  (matrix.cells.take matrix.numRows).map fun cell => (cell.stringValue, cell.isLeaf)

/-- `getRow:column:ofCell:` -/
def rowOfCell (cell : NSBrowserCell) : Option Nat :=
  (matrix.cells.take matrix.numRows).findIdx? (·.number = cell.number)

/-- A change of the cells in the rows of the matrix. -/
def mapRows (f : Nat → NSBrowserCell → NSBrowserCell) : NSMatrix :=
  { matrix with cells := matrix.cells.mapIdx fun row cell => if row < matrix.numRows then f row cell else cell }

/-- There is to be a selected cell as long as there are cells. -/
def keepsSelection : Prop :=
  0 < matrix.numRows ∧ settings.allowsEmptySelection = false ∧ settings.mode = .radio

instance : Decidable (matrix.keepsSelection settings) :=
  inferInstanceAs (Decidable (_ ∧ _))

def deselectAllCells : NSMatrix :=
  if matrix.keepsSelection settings then matrix
  else { matrix.mapRows fun _ cell => { cell with isSelected := false } with selectedRow := none }

/-- A radio matrix takes the mark from the selected cell when it selects another one. -/
def cellsUnmarkedFor (row : Nat) : List NSBrowserCell :=
  match matrix.selectedRow with
  | none => matrix.cells
  | some selectedRow =>
    if selectedRow ≠ row ∧ settings.mode = .radio then
      matrix.cells.modify selectedRow ({ · with isSelected := false })
    else matrix.cells

/-- `_selectCell:atRow:column:` -/
def selectCell (row : Nat) : NSMatrix :=
  { matrix with
    cells := (matrix.cellsUnmarkedFor settings row).modify row ({ · with isSelected := true })
    selectedRow := some row }

def selectCellAtRow (row : Nat) : NSMatrix :=
  if row < matrix.numRows then
    let matrix := if settings.mode = .list then matrix.deselectAllCells settings else matrix
    matrix.selectCell settings row
  else matrix

/-- A copy of the prototype. -/
def makeCell (number : Nat) : NSBrowserCell :=
  ⟨number, [], false, false, false⟩

/-- `renewRows:columns:` for one column. New cells are numbered from `number` on. -/
def renewRows (rows number : Nat) : NSMatrix :=
  deselectAllCells settings
    { matrix with
      cells := matrix.cells ++ (List.range (rows - matrix.cells.length)).map fun i => makeCell (number + i)
      numRows := rows }

/-- A new matrix, which is not given its settings before it has its cells. -/
def newMatrix (rows number : Nat) : NSMatrix :=
  ⟨(List.range rows).map fun i => makeCell (number + i), rows, none⟩

def markUnloaded : NSMatrix :=
  matrix.mapRows fun _ cell => { cell with isLoaded := false }

/-- The delegate is asked for each cell that is not loaded. -/
def loadCells (contents : List (Title × Bool)) : NSMatrix :=
  matrix.mapRows fun row cell =>
    if cell.isLoaded then cell
    else match contents[row]? with
      | none => { cell with isLoaded := true }
      | some (stringValue, isLeaf) => { cell with stringValue, isLeaf, isLoaded := true }

/-! ## What is shown -/

variable {settings} {matrix} {rows : List (Title × Bool)} {selected : Option Nat}

/-- The matrix has these rows, and the selected row is the only one that is marked. -/
structure Shows (matrix : NSMatrix) (rows : List (Title × Bool)) (selected : Option Nat) : Prop where
  numRows : matrix.numRows = rows.length
  cell : ∀ row < rows.length, ∃ cell, matrix.cells[row]? = some cell ∧
    rows[row]? = some (cell.stringValue, cell.isLeaf) ∧ (cell.isSelected = true ↔ selected = some row)
  selectedRow : matrix.selectedRow = selected
  selected_lt : ∀ row, selected = some row → row < rows.length

/-- Nothing is selected in so many rows, whether they show or not. -/
def Unmarked (matrix : NSMatrix) (rows : Nat) : Prop :=
  0 < rows → matrix.selectedRow = none ∧
    ∀ row < rows, ∀ cell, matrix.cells[row]? = some cell → cell.isSelected = false

theorem Shows.unmarked (hs : Shows matrix rows none) : matrix.Unmarked rows.length := by
  refine fun _ => ⟨hs.selectedRow, fun row hr cell hc => ?_⟩
  obtain ⟨cell', hc', -, hm⟩ := hs.cell row hr
  obtain rfl := Option.some.inj (hc.symm.trans hc')
  rw [← Bool.not_eq_true, hm]
  exact nofun

theorem mapRows_getElem? (f : Nat → NSBrowserCell → NSBrowserCell) (row : Nat) :
    (matrix.mapRows f).cells[row]? =
      matrix.cells[row]?.map fun cell => if row < matrix.numRows then f row cell else cell := by
  rw [mapRows, List.getElem?_mapIdx]

theorem Shows.cellAtRow (hsh : Shows matrix rows selected) {row : Nat} {title : Title} {isLeaf : Bool}
    (hr : rows[row]? = some (title, isLeaf)) :
    ∃ cell, matrix.cellAtRow row = some cell ∧ cell.stringValue = title ∧ cell.isLeaf = isLeaf := by
  have hlt : row < rows.length := (List.getElem?_eq_some_iff.mp hr).1
  obtain ⟨cell, hc, hs, -⟩ := hsh.cell row hlt
  obtain ⟨rfl, rfl⟩ := Prod.mk.inj (Option.some.inj (hr.symm.trans hs))
  refine ⟨cell, ?_, rfl, rfl⟩
  have hin : ¬ ((row : Int) < 0 ∨ (matrix.numRows : Int) ≤ row) := by
    rw [hsh.numRows]
    omega
  rw [NSMatrix.cellAtRow, if_neg hin, Int.toNat_natCast, hc]

theorem Shows.cellAtRow_eq_none (hs : Shows matrix rows selected) {row : Int}
    (hr : row < 0 ∨ rows.length ≤ row) : matrix.cellAtRow row = none := by
  rw [NSMatrix.cellAtRow, if_pos (by rwa [hs.numRows])]

theorem Shows.selectedCell (hsh : Shows matrix rows selected) :
    matrix.selectedCell.map (fun cell => (cell.stringValue, cell.isLeaf)) = selected.bind (rows[·]?) := by
  rw [NSMatrix.selectedCell, hsh.selectedRow]
  cases selected with
  | none => rfl
  | some row =>
    obtain ⟨cell, hc, hs, -⟩ := hsh.cell row (hsh.selected_lt row rfl)
    rw [Option.bind_some, Option.bind_some, hc, hs]
    rfl

theorem Shows.contents (hsh : Shows matrix rows selected) : matrix.contents = rows := by
  refine List.ext_getElem? fun row => ?_
  rw [NSMatrix.contents, List.getElem?_map, List.getElem?_take, hsh.numRows]
  by_cases hr : row < rows.length
  · obtain ⟨cell, hc, hs, -⟩ := hsh.cell row hr
    rw [if_pos hr, hc, hs]
    rfl
  · rw [if_neg hr, List.getElem?_eq_none (Nat.not_lt.mp hr)]
    rfl

theorem Shows.selectedRows (hs : Shows matrix rows selected) : matrix.selectedRows = selected.toList := by
  have hmr : ∀ row ∈ List.range matrix.numRows,
      (matrix.cells[row]?.any (·.isSelected)) = decide (selected = some row) := by
    intro row hr
    obtain ⟨cell, hc, -, hmr⟩ := hs.cell row (hs.numRows ▸ List.mem_range.mp hr)
    rw [hc, Option.any_some, Bool.eq_iff_iff, hmr, decide_eq_true_iff]
  rw [NSMatrix.selectedRows, List.filter_congr hmr]
  cases selected with
  | none => exact List.filter_eq_nil_iff.mpr fun row _ => Bool.false_ne_true
  | some selected =>
    have hm : selected ∈ List.range matrix.numRows := by
      rw [List.mem_range, hs.numRows]
      exact hs.selected_lt selected rfl
    simp only [Option.some.injEq, Option.toList_some, eq_comm (a := selected)]
    rw [List.filter_eq, List.nodup_iff_count_eq_one.mp List.nodup_range selected hm]
    rfl

theorem Shows.selectedCells_eq_nil (hs : Shows matrix rows none) : matrix.selectedCells = [] := by
  rw [NSMatrix.selectedCells, List.filter_eq_nil_iff]
  intro cell hc
  obtain ⟨row, hr⟩ := List.mem_iff_getElem?.mp hc
  rw [List.getElem?_take, hs.numRows] at hr
  split at hr
  · rename_i hlt
    exact Bool.not_eq_true _ ▸ (hs.unmarked (by omega)).2 row hlt cell hr
  · exact nomatch hr

/-! ## Selecting -/

theorem Shows.deselectAllCells (hsh : Shows matrix rows selected)
    (hf : settings.allowsEmptySelection = true ∨ settings.mode = .list) :
    Shows (matrix.deselectAllCells settings) rows none := by
  have hn : ¬ matrix.keepsSelection settings := by
    rintro ⟨-, he, hm⟩
    obtain h | h := hf
    · exact Bool.false_ne_true (he.symm.trans h)
    · exact nomatch hm.symm.trans h
  rw [NSMatrix.deselectAllCells, if_neg hn]
  refine ⟨hsh.numRows, fun row hr => ?_, rfl, fun _ h => nomatch h⟩
  obtain ⟨cell, hc, hs, -⟩ := hsh.cell row hr
  refine ⟨{ cell with isSelected := false }, ?_, hs, ?_⟩
  · rw [mapRows_getElem?, hc, Option.map_some, if_pos (by rwa [hsh.numRows])]
  · exact ⟨fun h => absurd h Bool.false_ne_true, fun h => nomatch h⟩

theorem Shows.deselectAllCells_of_keeps (hsh : Shows matrix rows selected)
    (he : settings.allowsEmptySelection = false) (hm : settings.mode = .radio) :
    Shows (matrix.deselectAllCells settings) rows selected := by
  rw [NSMatrix.deselectAllCells]
  split
  · exact hsh
  · rename_i hn
    have hz : matrix.numRows = 0 := by
      by_contra hne
      exact hn ⟨Nat.pos_of_ne_zero hne, he, hm⟩
    rw [hsh.numRows] at hz
    cases hs : selected with
    | some row =>
      have hlt := hsh.selected_lt row hs
      omega
    | none =>
      exact ⟨hsh.numRows, fun row hr => by omega, rfl, fun _ h => nomatch h⟩

theorem Unmarked.deselectAllCells {count : Nat} (hu : matrix.Unmarked count) :
    (matrix.deselectAllCells settings).Unmarked count := by
  rw [NSMatrix.deselectAllCells]
  split
  · exact hu
  · refine fun hp => ⟨rfl, fun row hr cell hc => ?_⟩
    rw [mapRows_getElem?, Option.map_eq_some_iff] at hc
    obtain ⟨old, ho, rfl⟩ := hc
    split
    · rfl
    · exact (hu hp).2 row hr old ho

theorem Shows.cellsUnmarkedFor (hsh : Shows matrix rows selected) (row : Nat) {i : Nat} (hi : i < rows.length)
    (hcr : settings.mode = .radio ∨ selected = none) : ∃ cell, (matrix.cellsUnmarkedFor settings row)[i]? = some cell ∧
      rows[i]? = some (cell.stringValue, cell.isLeaf) ∧ (i ≠ row → cell.isSelected = false) := by
  obtain ⟨cell, hc, hs, hm⟩ := hsh.cell i hi
  rw [NSMatrix.cellsUnmarkedFor, hsh.selectedRow]
  cases selected with
  | none =>
    refine ⟨cell, hc, hs, fun _ => ?_⟩
    rw [← Bool.not_eq_true, hm]
    exact nofun
  | some old =>
    have hr : settings.mode = .radio := hcr.resolve_right nofun
    by_cases ho : old = row
    · refine ⟨cell, ?_, hs, fun hne => ?_⟩
      · simp only [ho, ne_eq, not_true_eq_false, false_and, if_false, hc]
      · rw [← Bool.not_eq_true, hm, ho]
        exact fun h => hne (Option.some.inj h).symm
    · refine ⟨if old = i then { cell with isSelected := false } else cell, ?_, ?_, fun _ => ?_⟩
      · simp only [ho, hr, ne_eq, not_false_eq_true, true_and, if_true, List.getElem?_modify, hc]
        rfl
      · split <;> exact hs
      · split
        · rfl
        · rename_i hne
          rw [← Bool.not_eq_true, hm]
          exact fun h => hne (Option.some.inj h)

theorem Shows.selectCell (hsh : Shows matrix rows selected) {row : Nat} (hr : row < rows.length)
    (hc : settings.mode = .radio ∨ selected = none) : Shows (matrix.selectCell settings row) rows (some row) := by
  refine ⟨hsh.numRows, fun i hi => ?_, rfl, fun _ h => Option.some.inj h ▸ hr⟩
  obtain ⟨cell, hce, hs, hother⟩ := hsh.cellsUnmarkedFor row hi hc
  refine ⟨if row = i then { cell with isSelected := true } else cell, ?_, ?_, ?_⟩
  · rw [NSMatrix.selectCell, List.getElem?_modify, hce]
    rfl
  · split <;> exact hs
  · split
    · rename_i heq
      exact ⟨fun _ => congrArg some heq, fun _ => rfl⟩
    · rename_i hne
      rw [hother (Ne.symm hne)]
      exact ⟨fun h => absurd h Bool.false_ne_true, fun h => absurd (Option.some.inj h) hne⟩

theorem Shows.selectCellAtRow (hs : Shows matrix rows selected) {row : Nat} (hr : row < rows.length) :
    Shows (matrix.selectCellAtRow settings row) rows (some row) := by
  rw [NSMatrix.selectCellAtRow, if_pos (by rwa [hs.numRows])]
  cases hm : settings.mode with
  | radio => exact hs.selectCell hr (.inl hm)
  | list => exact (hs.deselectAllCells (.inr hm)).selectCell hr (.inr rfl)

/-! ## Loading -/

/-- Cells that are not loaded take what the delegate says. -/
theorem shows_loadCells {contents : List (Title × Bool)} (hn : matrix.numRows = contents.length)
    (hs : matrix.selectedRow = none)
    (hcl : ∀ row < contents.length, ∃ cell, matrix.cells[row]? = some cell ∧ cell.isLoaded = false ∧
      cell.isSelected = false) : Shows (matrix.loadCells contents) contents none := by
  refine ⟨hn, fun row hr => ?_, hs, fun _ h => nomatch h⟩
  obtain ⟨cell, hsm, hl, hm⟩ := hcl row hr
  obtain ⟨⟨title, isLeaf⟩, hc⟩ : ∃ content, contents[row]? = some content := ⟨_, List.getElem?_eq_getElem hr⟩
  refine ⟨{ cell with stringValue := title, isLeaf := isLeaf, isLoaded := true }, ?_, hc, ?_⟩
  · rw [NSMatrix.loadCells, mapRows_getElem?, hsm, Option.map_some, if_pos (by rwa [hn]),
      if_neg (by rw [hl]; exact Bool.false_ne_true), hc]
  · rw [hm]
    exact ⟨fun h => absurd h Bool.false_ne_true, fun h => nomatch h⟩

theorem shows_newMatrix (contents : List (Title × Bool)) (number : Nat) :
    Shows ((newMatrix contents.length number).loadCells contents) contents none := by
  refine shows_loadCells rfl rfl fun row hr => ⟨makeCell (number + row), ?_, rfl, rfl⟩
  simp only [newMatrix, List.getElem?_map, List.getElem?_range hr, Option.map_some]

theorem renewRows_numRows (rows number : Nat) : (matrix.renewRows settings rows number).numRows = rows := by
  rw [renewRows, NSMatrix.deselectAllCells]
  split <;> rfl

theorem renewRows_clear (rows number : Nat)
    (hcr : settings.allowsEmptySelection = true ∨ settings.mode = .list ∨ matrix.Unmarked rows) :
    (matrix.renewRows settings rows number).selectedRow = none ∧
      ∀ row < rows, ∃ cell, (matrix.renewRows settings rows number).cells[row]? = some cell ∧
        cell.isSelected = false := by
  have hg {row : Nat} (hr : row < rows) : ∃ cell,
      (matrix.cells ++ (List.range (rows - matrix.cells.length)).map fun i => makeCell (number + i))[row]? = some cell ∧
        (matrix.Unmarked rows → cell.isSelected = false) := by
    by_cases hlt : row < matrix.cells.length
    · have hc : matrix.cells[row]? = some matrix.cells[row] := List.getElem?_eq_getElem hlt
      refine ⟨matrix.cells[row], ?_, fun hu => (hu (by omega)).2 row hr _ hc⟩
      rw [List.getElem?_append_left hlt, hc]
    · refine ⟨makeCell (number + (row - matrix.cells.length)), ?_, fun _ => rfl⟩
      rw [List.getElem?_append_right (Nat.not_lt.mp hlt), List.getElem?_map, List.getElem?_range (by omega)]
      rfl
  rw [renewRows, NSMatrix.deselectAllCells]
  split
  · rename_i hk
    have hu : matrix.Unmarked rows := by
      obtain h | h | h := hcr
      · exact absurd (hk.2.1.symm.trans h) Bool.false_ne_true
      · exact nomatch hk.2.2.symm.trans h
      · exact h
    refine ⟨(hu hk.1).1, fun row hr => ?_⟩
    obtain ⟨cell, hc, hm⟩ := hg hr
    exact ⟨cell, hc, hm hu⟩
  · refine ⟨rfl, fun row hr => ?_⟩
    obtain ⟨cell, hc, -⟩ := hg hr
    refine ⟨{ cell with isSelected := false }, ?_, rfl⟩
    rw [mapRows_getElem?]
    simp only [hc, hr, if_true, Option.map_some]

theorem shows_renewRows (contents : List (Title × Bool)) (number : Nat)
    (hcl : settings.allowsEmptySelection = true ∨ settings.mode = .list ∨ matrix.Unmarked contents.length) :
    Shows (((matrix.renewRows settings contents.length number).markUnloaded).loadCells contents) contents none := by
  obtain ⟨hs, hc⟩ := renewRows_clear contents.length number hcl
  refine shows_loadCells (renewRows_numRows _ _) hs fun row hr => ?_
  obtain ⟨cell, hce, hm⟩ := hc row hr
  refine ⟨{ cell with isLoaded := false }, ?_, rfl, hm⟩
  rw [markUnloaded, mapRows_getElem?, hce, Option.map_some, if_pos (by rwa [renewRows_numRows])]

end NSMatrix

end GnustepGui.Browser
