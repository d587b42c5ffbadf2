import Mathlib
import GnustepGui.Library.IndexSets

/-!
# The columns of `NSTableView`

The column array with the selection that is kept beside it by index: `addTableColumn:`,
`removeTableColumn:`, `moveColumn:toColumn:`, `selectColumnIndexes:byExtendingSelection:` and
`deselectColumn:`, and the layout that `_autosaveTableColumns` writes into the user defaults and
`_autoloadTableColumns` reads from them.
-/

namespace GnustepGui.TableView

open IndexSets

/-- A column object; its address tells it from any other one. -/
structure NSTableColumn (I : Type) where
  address : Nat
  identifier : I
  width : Int
  minWidth : Int
  maxWidth : Int
  deriving DecidableEq, Repr

/-- The dictionary of a saved layout: for each identifier the width and the index. -/
abbrev Layout (I : Type) := List (I × Int × Int)

/-- `_selectedColumn` is the column selected last, or -1. -/
structure NSTableView (I : Type) where
  tableColumns : List (NSTableColumn I)
  numberOfColumns : Nat
  selectedColumns : Finset Nat
  selectedColumn : Int
  editedColumn : Int
  selectingColumns : Bool
  allowsMultipleSelection : Bool
  autosaveTableColumns : Bool
  autosaveName : Option String
  /-- The user defaults, by key. -/
  defaults : String → Option (Layout I)

variable {I : Type}

namespace NSTableColumn

/-- Keeps the width within the bounds of the column. -/
def setWidth (c : NSTableColumn I) (newWidth : Int) : NSTableColumn I :=
  { c with
    width :=
      if newWidth > c.maxWidth then c.maxWidth
      else if newWidth < c.minWidth then c.minWidth
      else newWidth }

end NSTableColumn

namespace NSTableView

def addTableColumn (tv : NSTableView I) (aColumn : NSTableColumn I) : NSTableView I :=
  { tv with
    tableColumns := tv.tableColumns ++ [aColumn]
    numberOfColumns := tv.numberOfColumns + 1 }

/-- The selected column nearest to a deselected one, the left one of two. -/
def nearestSelected (selected : Finset Nat) (columnIndex : Nat) : Int :=
  match indexLessThan selected columnIndex, indexGreaterThan selected columnIndex with
  | none, none => -1
  | none, some greater => greater
  | some less, none => less
  | some less, some greater =>
    if columnIndex - less > greater - columnIndex then greater else less

def deselectColumn (tv : NSTableView I) (columnIndex : Int) : NSTableView I :=
  if columnIndex < 0 ∨ columnIndex.toNat ∉ tv.selectedColumns then tv
  else
    let selected := tv.selectedColumns.erase columnIndex.toNat
    { tv with
      selectingColumns := true
      selectedColumns := selected
      selectedColumn :=
        if tv.selectedColumn = columnIndex then nearestSelected selected columnIndex.toNat
        else tv.selectedColumn }

def unselectAllColumns (tv : NSTableView I) : NSTableView I :=
  { tv with selectedColumns := ∅, selectedColumn := -1 }

/-- Adds the indexes to what is selected. The flag says whether the exception for a second selected
column is raised. -/
def extendSelection (tv : NSTableView I) (indexes : Finset Nat) : NSTableView I × Bool :=
  match indexes.max with
  | none => (tv, false)
  | some (last : Nat) =>
    if last ≥ tv.numberOfColumns then (tv, false)
    else if tv.allowsMultipleSelection = false ∧ tv.selectedColumns.card + indexes.card > 1 then
      (tv, true)
    else ({ tv with
      selectedColumns := tv.selectedColumns ∪ indexes
      selectedColumn := last }, false)

def selectColumnIndexes (tv : NSTableView I) (indexes : Finset Nat) (extend : Bool) :
    NSTableView I × Bool :=
  let tv := { tv with selectingColumns := true }
  if extend then tv.extendSelection indexes
  else if tv.selectedColumns = indexes then
    match indexes.max with
    | none => (tv, false)
    | some (last : Nat) => ({ tv with selectedColumn := last }, false)
  else tv.unselectAllColumns.extendSelection indexes

/-- Where the column at `index` stands after the column at `columnIndex` has moved. -/
def renumber (columnIndex newIndex index : Int) : Int :=
  let minRange := if columnIndex > newIndex then newIndex else columnIndex + 1
  let maxRange := if columnIndex > newIndex then columnIndex - 1 else newIndex
  let shift := if columnIndex > newIndex then 1 else -1
  if index = columnIndex then newIndex
  else if index ≥ minRange ∧ index ≤ maxRange then index + shift
  else index

/-- The selected indexes after the column has moved. -/
def renumberSelected (selected : Finset Nat) (columnIndex newIndex : Nat) : Finset Nat :=
  let shifted := shiftRight (shiftLeft selected (columnIndex + 1) 1) newIndex 1
  if columnIndex ∈ selected then insert newIndex shifted else shifted

/-- The column array after the column has moved: it is inserted a second time and the first one is
removed. -/
def reorder (columns : List (NSTableColumn I)) (columnIndex newIndex : Nat) : List (NSTableColumn I) :=
  match columns[columnIndex]? with
  | none => columns
  | some c =>
    if columnIndex < newIndex then (columns.insertIdx (newIndex + 1) c).eraseIdx columnIndex
    else (columns.insertIdx newIndex c).eraseIdx (columnIndex + 1)

variable [DecidableEq I]

/-- The index of the first column with the identifier, or -1. -/
def columnWithIdentifier (tv : NSTableView I) (identifier : I) : Int :=
  match tv.tableColumns.findIdx? (·.identifier = identifier) with
  | none => -1
  | some i => i

/-- What `numberWithInt:` makes of a width: one that is no `int` is the smallest `int`. -/
def intValue (width : Int) : Int :=
  if -2 ^ 31 ≤ width ∧ width < 2 ^ 31 then width else -2 ^ 31

/-- `setObject:forKey:` of the dictionary. -/
def setObject (config : Layout I) (ident : I) (array : Int × Int) : Layout I :=
  config.filter (·.1 ≠ ident) ++ [(ident, array)]

/-- The dictionary that `_autosaveTableColumns` writes. -/
def layout (tv : NSTableView I) : Layout I :=
  tv.tableColumns.foldl
    (fun config column => setObject config column.identifier
      (intValue column.width, tv.columnWithIdentifier column.identifier)) []

def autosaveTableColumnsNow (tv : NSTableView I) : NSTableView I :=
  match tv.autosaveTableColumns, tv.autosaveName with
  | true, some name =>
    { tv with
      defaults := fun key =>
        if key = "NSTableView Columns " ++ name then some tv.layout else tv.defaults key }
  | _, _ => tv

def moveColumn (tv : NSTableView I) (columnIndex newIndex : Int) : NSTableView I :=
  if columnIndex < 0 ∨ columnIndex > tv.numberOfColumns - 1 then tv
  else if newIndex < 0 ∨ newIndex > tv.numberOfColumns - 1 then tv
  else if columnIndex = newIndex then tv
  else
    autosaveTableColumnsNow
      { tv with
        selectedColumn := renumber columnIndex newIndex tv.selectedColumn
        selectedColumns := renumberSelected tv.selectedColumns columnIndex.toNat newIndex.toNat
        editedColumn := renumber columnIndex newIndex tv.editedColumn
        tableColumns := reorder tv.tableColumns columnIndex.toNat newIndex.toNat }

/-- The selected indexes behind the removed column are left as they are. -/
def removeTableColumn (tv : NSTableView I) (aColumn : NSTableColumn I) : NSTableView I :=
  let columnIndex := tv.columnWithIdentifier aColumn.identifier
  if columnIndex = -1 then tv
  else
    let tv := tv.deselectColumn columnIndex
    { tv with
      selectedColumn := if tv.selectedColumn > columnIndex then tv.selectedColumn - 1 else tv.selectedColumn
      selectedColumns := tv.selectedColumns.erase columnIndex.toNat
      tableColumns := tv.tableColumns.filter (· ≠ aColumn)
      numberOfColumns := tv.numberOfColumns - 1 }

/-- One key of the loop of `_autoloadTableColumns`. -/
def loadColumn (config : Layout I) (tv : NSTableView I) (colKey : I) : NSTableView I :=
  match tv.tableColumns.findIdx? (·.identifier = colKey), config.find? (·.1 = colKey) with
  | some i, some (_, width, index) =>
    let tv := { tv with tableColumns := tv.tableColumns.modify i (·.setWidth width) }
    tv.moveColumn (tv.columnWithIdentifier colKey) index
  | _, _ => tv

/-- The keys are those of the dictionary, in the order in which it enumerates them. -/
def autoloadTableColumns (tv : NSTableView I) (allKeys : Layout I → List I) : NSTableView I :=
  match tv.autosaveTableColumns, tv.autosaveName with
  | true, some name =>
    match tv.defaults ("NSTableView Columns " ++ name) with
    | some config => (allKeys config).foldl (loadColumn config) tv
    | none => tv
  | _, _ => tv

end NSTableView

end GnustepGui.TableView
