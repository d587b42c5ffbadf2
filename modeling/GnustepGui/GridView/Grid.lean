import Mathlib
import GnustepGui.Library.Tables

/-!
# Grid views

An `NSGridView` has rows, columns and one array of cells, row by row. Rows, columns and cells are objects, told apart
by number. An operation that raises leaves the grid as it is then, as the error.
-/

namespace GnustepGui.GridView

variable {V : Type}

structure NSGridCell (V : Type) where
  number : Nat
  row : Option Nat
  column : Option Nat
  contentView : Option V
  deriving DecidableEq, Repr

structure NSGridView (V : Type) where
  rows : List Nat
  columns : List Nat
  cells : List (NSGridCell V)
  isHidden : Bool
  /-- The number of the next object. -/
  next : Nat
  deriving DecidableEq, Repr

namespace NSGridView

def numberOfRows (g : NSGridView V) : Nat := g.rows.length

def numberOfColumns (g : NSGridView V) : Nat := g.columns.length

/-- `cellAtColumnIndex:rowIndex:` -/
def cellAtColumnIndex (g : NSGridView V) (columnIndex rowIndex : Nat) : Option (NSGridCell V) :=
  g.cells[rowIndex * g.numberOfColumns + columnIndex]?

def cellsForRow (g : NSGridView V) (row : Nat) : List (NSGridCell V) := g.cells.filter fun c => c.row = some row

def cellsForColumn (g : NSGridView V) (column : Nat) : List (NSGridCell V) :=
  g.cells.filter fun c => c.column = some column

/-- `_refreshCells` looks up the row and the column of every place of the array. -/
def refreshCells (g : NSGridView V) : Except (NSGridView V) (NSGridView V) :=
  if g.isHidden ∨ ∀ i < g.cells.length, i % g.numberOfColumns < g.numberOfColumns ∧
    i / g.numberOfColumns < g.numberOfRows then .ok g else .error g

/-! ## Creation -/

def initWithFrame : NSGridView V := ⟨[], [], [], false, 0⟩

/-- One view: the first row makes the columns. -/
def addCell (first : Bool) (gr c : Nat) (v : V) (g : NSGridView V) : Except (NSGridView V) (NSGridView V) :=
  if first then
    .ok { g with
      columns := g.columns ++ [g.next]
      cells := g.cells ++ [⟨g.next + 1, some gr, some g.next, some v⟩]
      next := g.next + 2 }
  else
    match g.columns[c]? with
    | none => .error g
    | some gc => .ok { g with cells := g.cells ++ [⟨g.next, some gr, some gc, some v⟩], next := g.next + 1 }

def addCells (first : Bool) (gr : Nat) : Nat → List V → NSGridView V → Except (NSGridView V) (NSGridView V)
  | _, [], g => .ok g
  | c, v :: row, g => (addCell first gr c v g).bind (addCells first gr (c + 1) row)

def addRows : Nat → List (List V) → NSGridView V → Except (NSGridView V) (NSGridView V)
  | _, [], g => .ok g
  | r, row :: views, g =>
    (addCells (r = 0) g.next 0 row { g with rows := g.rows ++ [g.next], next := g.next + 1 }).bind
      (addRows (r + 1) views)

def initWithViews (views : List (List V)) : Except (NSGridView V) (NSGridView V) :=
  (addRows 0 views initWithFrame).bind refreshCells

/-- `gridViewWithNumberOfColumns:rows:`, with the views that it makes. -/
def gridViewWithNumberOfColumns (newView : Nat → Nat → V) (columnCount rowCount : Nat) :
    Except (NSGridView V) (NSGridView V) :=
  initWithViews ((List.range rowCount).map fun r => (List.range columnCount).map (newView r))

/-! ## Inserting -/

/-- `[cells count] - 1`, which is unsigned. -/
def lastIndex (count : Nat) : Nat := if count = 0 then 2 ^ 64 - 1 else count - 1

/-- The cell of the array, or a new one beyond its last index. -/
def cellFor (cells : List (NSGridCell V)) (i number : Nat) : Option (NSGridCell V) :=
  if lastIndex cells.length < i then some ⟨number, none, none, none⟩ else cells[i]?

/-- The loop of both insertions: `own` sets the owners, for each of the lines that are crossed, and `place` is where the
cell goes. -/
def insertCells (cells : List (NSGridCell V)) (own : Nat → NSGridCell V → NSGridCell V) (place : Nat → Nat) :
    Nat → List Nat → NSGridView V → Except (NSGridView V) (NSGridView V)
  | _, [], g => .ok g
  | i, line :: lines, g =>
    match cellFor cells i g.next with
    | none => .error g
    | some c =>
      if place i ≤ g.cells.length then
        insertCells cells own place (i + 1) lines
          { g with cells := g.cells.insertIdx (place i) (own line c), next := g.next + 1 }
      else .error g

/-- `_insertRowAtIndex:withCells:` -/
def insertRowWithCells (g : NSGridView V) (index : Nat) (cells : List (NSGridCell V)) :
    Except (NSGridView V) (NSGridView V) :=
  if index ≤ g.rows.length then
    let gr := g.next
    let g := { g with rows := g.rows.insertIdx index gr, next := g.next + 1 }
    let pos := index * g.numberOfColumns
    (insertCells cells (fun col c => { c with row := some gr, column := some col }) (fun i => pos + i) 0 g.columns
      g).bind refreshCells
  else .error g

/-- `_insertColumnAtIndex:withCells:` -/
def insertColumnWithCells (g : NSGridView V) (index : Nat) (cells : List (NSGridCell V)) :
    Except (NSGridView V) (NSGridView V) :=
  if index ≤ g.columns.length then
    let gc := g.next
    let g := { g with columns := g.columns.insertIdx index gc, next := g.next + 1 }
    (insertCells cells (fun row c => { c with row := some row, column := some gc })
      (fun i => index + i * g.numberOfColumns) 0 g.rows g).bind refreshCells
  else .error g

/-- New cells, numbered from the next object on. -/
def newCells (number : Nat) : List V → List (NSGridCell V)
  | [] => []
  | v :: views => ⟨number, none, none, some v⟩ :: newCells (number + 1) views

/-- `insertRowAtIndex:withViews:` -/
def insertRow (g : NSGridView V) (index : Nat) (views : List V) : Except (NSGridView V) (NSGridView V) :=
  insertRowWithCells { g with next := g.next + views.length } index (newCells g.next views)

/-- `insertColumnAtIndex:withViews:` -/
def insertColumn (g : NSGridView V) (index : Nat) (views : List V) : Except (NSGridView V) (NSGridView V) :=
  insertColumnWithCells { g with next := g.next + views.length } index (newCells g.next views)

/-! ## Removing and moving -/

variable [DecidableEq V]

/-- `removeObjectsInArray:` -/
def removeObjects (cells objs : List (NSGridCell V)) : List (NSGridCell V) := cells.filter fun c => c ∉ objs

/-- `removeRowAtIndex:` -/
def removeRow (g : NSGridView V) (index : Nat) : Except (NSGridView V) (NSGridView V) :=
  match g.rows[index]? with
  | none => .error g
  | some row =>
    refreshCells { g with rows := g.rows.eraseIdx index, cells := removeObjects g.cells (g.cellsForRow row) }

/-- `removeColumnAtIndex:` -/
def removeColumn (g : NSGridView V) (index : Nat) : Except (NSGridView V) (NSGridView V) :=
  match g.columns[index]? with
  | none => .error g
  | some column =>
    refreshCells { g with columns := g.columns.eraseIdx index, cells := removeObjects g.cells (g.cellsForColumn column) }

/-- `moveRowAtIndex:toIndex:` -/
def moveRow (g : NSGridView V) (fromIndex toIndex : Nat) : Except (NSGridView V) (NSGridView V) :=
  match g.rows[fromIndex]? with
  | none => .error g
  | some row =>
    let cells := g.cellsForRow row
    (g.removeRow fromIndex).bind fun g => g.insertRowWithCells toIndex cells

/-- `moveColumnAtIndex:toIndex:` -/
def moveColumn (g : NSGridView V) (fromIndex toIndex : Nat) : Except (NSGridView V) (NSGridView V) :=
  match g.columns[fromIndex]? with
  | none => .error g
  | some column =>
    let cells := g.cellsForColumn column
    (g.removeColumn fromIndex).bind fun g => g.insertColumnWithCells toIndex cells

end NSGridView

end GnustepGui.GridView
