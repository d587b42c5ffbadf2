import Mathlib.Data.Finset.Max
import Mathlib.Data.Int.Interval

/-!
# Selecting rows with the mouse

The selected rows of `NSTableView` while the pointer is tracked: `computeNewSelection` for a table in
which multiple and empty selection are allowed, and the part of the tracking loop in `mouseDown:` that
keeps the previous row and calls it.
-/

namespace GnustepGui.TableView

/-- `_selectedRow` is the row selected last, or -1. -/
structure RowSelection where
  selectedRows : Finset Int
  selectedRow : Int
  deriving DecidableEq

namespace RowSelection

/-- The answers of the delegate are those of `shouldSelectRow`. The flag says whether the row has been
selected. -/
def selectRow (shouldSelectRow : Int → Bool) (s : RowSelection) (rowIndex : Int) : RowSelection × Bool :=
  if shouldSelectRow rowIndex then
    ({ selectedRows := insert rowIndex s.selectedRows, selectedRow := rowIndex }, true)
  else (s, false)

def unselectRow (s : RowSelection) (rowIndex : Int) : RowSelection :=
  if rowIndex ∈ s.selectedRows then
    { selectedRows := s.selectedRows.erase rowIndex
      selectedRow := if s.selectedRow = rowIndex then -1 else s.selectedRow }
  else s

def unselectAllRows (_ : RowSelection) : RowSelection := { selectedRows := ∅, selectedRow := -1 }

/-- Where no row is the one selected last, the first selected row becomes it. -/
def orFirst (s : RowSelection) : RowSelection :=
  if s.selectedRow = -1 then
    match s.selectedRows.min with
    | none => { s with selectedRow := -1 }
    | some (first : Int) => { s with selectedRow := first }
  else s

def orLast (s : RowSelection) : RowSelection :=
  if s.selectedRow = -1 then
    match s.selectedRows.max with
    | none => { s with selectedRow := -1 }
    | some (last : Int) => { s with selectedRow := last }
  else s

end RowSelection

/-- The rows of a loop `for (i = a; i <= b; i++)`. -/
def upTo (a b : Int) : List Int := (List.range (b + 1 - a).toNat).map fun k : Nat => a + k

/-- The rows of a loop `for (i = a; i >= b; i--)`. -/
def downTo (a b : Int) : List Int := (List.range (a + 1 - b).toNat).map fun k : Nat => a - k

/-- The first pass over the rows from the original to the current one. -/
def firstPass (turn : RowSelection → Int → RowSelection) (s : RowSelection)
    (originalRow currentRow : Int) : RowSelection :=
  if currentRow - originalRow ≥ 0 then (upTo originalRow currentRow).foldl turn s
  else (downTo originalRow currentRow).foldl turn s

/-- What the branches of `computeNewSelection` do after the first pass, in each of its modes: a turn of
the loops that extend and of those that reduce what is tracked, and what is done at the end of a
branch. -/
structure Passes where
  extend : RowSelection → Int → RowSelection
  reduce : RowSelection → Int → RowSelection
  extended : RowSelection → RowSelection
  reducedDown : RowSelection → RowSelection
  reducedUp : RowSelection → RowSelection
  crossedUp : RowSelection → RowSelection
  crossedDown : RowSelection → RowSelection

/-- The branches after the first pass. -/
def Passes.later (p : Passes) (s : RowSelection) (originalRow oldRow currentRow : Int) : RowSelection :=
  let oldDiff := oldRow - originalRow
  let newDiff := currentRow - originalRow
  if oldDiff ≥ 0 ∧ newDiff ≥ 0 then
    if newDiff ≥ oldDiff then p.extended ((upTo (oldRow + 1) currentRow).foldl p.extend s)
    else p.reducedDown ((downTo oldRow (currentRow + 1)).foldl p.reduce s)
  else if oldDiff ≤ 0 ∧ newDiff ≤ 0 then
    if newDiff ≤ oldDiff then p.extended ((downTo (oldRow - 1) currentRow).foldl p.extend s)
    else p.reducedUp ((upTo oldRow (currentRow - 1)).foldl p.reduce s)
  else if oldDiff ≤ 0 ∧ newDiff ≥ 0 then
    p.crossedUp ((upTo (originalRow + 1) currentRow).foldl p.extend
      ((upTo oldRow (originalRow - 1)).foldl p.reduce s))
  else if oldDiff ≥ 0 ∧ newDiff ≤ 0 then
    p.crossedDown ((downTo (originalRow - 1) currentRow).foldl p.extend
      ((downTo oldRow (originalRow + 1)).foldl p.reduce s))
  else s

section Modes

variable (shouldSelectRow : Int → Bool) (oldSelectedRows : Finset Int)

/-- `[_selectedRows containsIndex: i] || [tv _selectRow: i]`, with the row that is then noted. -/
def addRow (s : RowSelection) (i : Int) : RowSelection :=
  if i ∈ s.selectedRows then { s with selectedRow := i } else (s.selectRow shouldSelectRow i).1

/-- Rows of the old selection stay selected. -/
def dropRow (s : RowSelection) (i : Int) : RowSelection :=
  if i ∈ oldSelectedRows then s else s.unselectRow i

/-- Rows of the old selection are selected again. -/
def restoreRow (s : RowSelection) (i : Int) : RowSelection :=
  if i ∈ oldSelectedRows then { selectedRows := insert i s.selectedRows, selectedRow := i } else s

/-- We add new row to the current selection. -/
def addingPasses : Passes where
  extend := addRow shouldSelectRow
  reduce := dropRow oldSelectedRows
  extended := id
  reducedDown := RowSelection.orLast
  reducedUp := RowSelection.orFirst
  crossedUp := RowSelection.orFirst
  crossedDown := RowSelection.orLast

/-- New multiple selection (empty possible). -/
def newPasses : Passes where
  extend s i := (s.selectRow shouldSelectRow i).1
  reduce := RowSelection.unselectRow
  extended := id
  reducedDown := RowSelection.orLast
  reducedUp := RowSelection.orFirst
  crossedUp := RowSelection.orFirst
  crossedDown := RowSelection.orLast

/-- New multiple antiselection. -/
def antiPasses : Passes where
  extend := RowSelection.unselectRow
  reduce := restoreRow oldSelectedRows
  extended := RowSelection.orFirst
  reducedDown := id
  reducedUp := id
  crossedUp := RowSelection.orFirst
  crossedDown := RowSelection.orFirst

/-- The selection mode of a table that allows multiple and empty selection. -/
structure SelectionMode where
  shiftDown : Bool
  addingRow : Bool
  deriving DecidableEq, Repr

def computeNewSelection (s : RowSelection) (originalRow oldRow currentRow : Int)
    (selectionMode : SelectionMode) : RowSelection :=
  if selectionMode.shiftDown ∧ selectionMode.addingRow then
    if oldRow = -1 then firstPass (addRow shouldSelectRow) s originalRow currentRow
    else (addingPasses shouldSelectRow oldSelectedRows).later s originalRow oldRow currentRow
  else if selectionMode.shiftDown = false then
    if oldRow = -1 then
      firstPass (fun s i => (s.selectRow shouldSelectRow i).1) s.unselectAllRows originalRow currentRow
    else (newPasses shouldSelectRow).later s originalRow oldRow currentRow
  else
    if oldRow = -1 then (firstPass RowSelection.unselectRow s originalRow currentRow).orFirst
    else (antiPasses oldSelectedRows).later s originalRow oldRow currentRow

end Modes

/-- The variables of the tracking loop. -/
structure Tracking where
  selection : RowSelection
  originalRow : Int
  oldRow : Int
  currentRow : Int
  deriving DecidableEq

/-- One event of the pointer within the table: `row` is what `rowAtPoint:` answers, the row there or
-1. -/
def Tracking.event (shouldSelectRow : Int → Bool) (oldSelectedRows : Finset Int) (numberOfRows : Int)
    (selectionMode : SelectionMode) (t : Tracking) (row : Int) : Tracking :=
  let t := { t with oldRow := t.currentRow, currentRow := row }
  if t.oldRow = t.currentRow then t
  else
    let t := { t with originalRow := if t.originalRow = -1 then t.currentRow else t.originalRow }
    if t.currentRow ≥ 0 ∧ t.currentRow < numberOfRows then
      { t with
        selection := computeNewSelection shouldSelectRow oldSelectedRows t.selection t.originalRow
          t.oldRow t.currentRow selectionMode }
    else t

/-- The tracking loop from the press on `clickedRow` on, over the rows that the pointer visits. -/
def trackRows (shouldSelectRow : Int → Bool) (numberOfRows : Int) (shiftDown : Bool) (s : RowSelection)
    (clickedRow : Int) (rows : List Int) : Tracking :=
  let selectionMode : SelectionMode :=
    { shiftDown := shiftDown, addingRow := decide (clickedRow ∉ s.selectedRows) }
  rows.foldl (Tracking.event shouldSelectRow s.selectedRows numberOfRows selectionMode)
    { selection := s, originalRow := clickedRow, oldRow := -1, currentRow := -1 }

end GnustepGui.TableView
