import Mathlib
import GnustepGui.Library.IndexSets
import GnustepGui.Library.Outlines

/-!
# Outline views

`NSOutlineView` over a fixed tree of distinct items, without a content binding and with a delegate that
has no say in what is expanded or collapsed. `_itemDict` holds the children of the items that have been
loaded, `_items` the rows. The recursive methods go down the tree, which is no higher than their fuel.
-/

namespace GnustepGui.OutlineView

/-- The children and the expandability that the data source reports. -/
structure DataSource (α : Type*) extends Outline α where
  isItemExpandable : α → Bool

/-! ## The table -/

/-- The rows of the table and which of them are selected; `_selectedRow` is the row selected last, or
-1. -/
structure NSTableView where
  numberOfRows : Nat
  selectedRows : Finset Nat
  selectedRow : Int
  selectingColumns : Bool
  allowsEmptySelection : Bool
  deriving DecidableEq

namespace NSTableView

/-- We shouldn't allow empty selection - try selecting the last row. -/
def selectLastRow (t : NSTableView) : NSTableView :=
  let lastRow : Int := t.numberOfRows - 1
  if lastRow > -1 then
    { t with selectedRows := insert lastRow.toNat t.selectedRows, selectedRow := lastRow }
  else { t with selectedRow := -1 }

/-- Check that all selected rows are in the new range of rows. -/
def noteNumberOfRowsChanged (t : NSTableView) (numRows : Nat) : NSTableView :=
  let t := { t with numberOfRows := numRows }
  if t.selectingColumns then t
  else
    match t.selectedRows.max with
    | none => if t.allowsEmptySelection then t else t.selectLastRow
    | some (row : Nat) =>
      if row ≥ t.numberOfRows then
        let t := { t with selectedRows := t.selectedRows.filter fun i => ¬ (t.numberOfRows ≤ i ∧ i ≤ row) }
        if t.selectedRow ≥ t.numberOfRows then
          match t.selectedRows.max with
          | some (row : Nat) => { t with selectedRow := row }
          | none => if t.allowsEmptySelection then { t with selectedRow := -1 } else t.selectLastRow
        else t
      else t

/-- A row compared with an unsigned one. -/
def unsigned (row : Int) : Nat := if row < 0 then (row + 2 ^ 64).toNat else row.toNat

/-- The index most close to the item whose rows have been removed. -/
def closestRow (selectedRows : Finset Nat) (rowIndex : Nat) : Int :=
  match IndexSets.indexLessThan selectedRows rowIndex,
    IndexSets.indexGreaterThanOrEqual selectedRows rowIndex with
  | some r1, some r2 => if rowIndex - r1 ≤ r2 - rowIndex then r1 else r2
  | some r1, none => r1
  | none, some r2 => r2
  | none, none => -1

/-- The selection when `numItems` rows from `rowIndex` on are new, or have been removed. -/
def shiftSelection (t : NSTableView) (rowIndex : Nat) (numItems : Int) : NSTableView :=
  match IndexSets.indexGreaterThanOrEqual t.selectedRows rowIndex with
  | none => t
  | some _ =>
    if numItems > 0 then
      { t with
        selectedRows := IndexSets.shiftRight t.selectedRows rowIndex numItems.toNat
        selectedRow :=
          if unsigned t.selectedRow ≥ rowIndex then t.selectedRow + numItems else t.selectedRow }
    else
      let n := (-numItems).toNat
      let shifted := IndexSets.shiftLeft t.selectedRows (rowIndex + n) n
      -- select the root item where the selection must not become empty
      let selectedRows := if shifted = ∅ ∧ t.allowsEmptySelection = false then {0} else shifted
      { t with
        selectedRows
        selectedRow :=
          if unsigned t.selectedRow ≥ rowIndex + n then t.selectedRow - n
          else if unsigned t.selectedRow ≥ rowIndex then closestRow selectedRows rowIndex
          else t.selectedRow }

end NSTableView

/-! ## The view -/

structure NSOutlineView (α : Type*) extends NSTableView where
  /-- The children of an item that has not been loaded are not there, as if it had none. -/
  itemDict : Option α → List α
  levelOfItems : Option α → Option Int
  expandedItems : List α
  items : List α
  viewBased : Bool

namespace NSOutlineView

variable {α : Type*} [DecidableEq α] (dataSource : DataSource α) (v : NSOutlineView α)

def isExpandable : Option α → Bool
  | none => false
  | some item => dataSource.isItemExpandable item

def isItemExpanded : Option α → Bool
  | none => true
  | some item => decide (item ∈ v.expandedItems)

def levelForItem : Option α → Int
  | none => -1
  | some item => (v.levelOfItems (some item)).getD 0

/-- The row behind that of an item. -/
def rowIndexBelow : Option α → Nat
  | none => 0
  | some item => if item ∈ v.items then v.items.idxOf item + 1 else 0

def isItemLoaded (item : Option α) : Bool := (v.itemDict item).length != 0

/-- Collect all of the items under a given element. Only collect the children if the item is
expanded. -/
def collectFuel : Nat → Option α → List α
  | 0, _ => []
  | fuel + 1, startitem =>
    (v.itemDict startitem).flatMap fun anitem =>
      (if v.isItemExpanded startitem then [anitem] else []) ++ collectFuel fuel (some anitem)

def collectItemsStartingWith (startitem : Option α) : List α :=
  collectFuel v (dataSource.bound + 1) startitem

/-- The array of an item that has children. -/
def insertArray (item : Option α) (children : List α) : NSOutlineView α :=
  if children.length > 0 then { v with itemDict := Function.update v.itemDict item children } else v

def setLevel (item : Option α) (level : Int) : NSOutlineView α :=
  { v with levelOfItems := Function.update v.levelOfItems item (some level) }

/-- The item is loaded only if it is expanded; nothing looks at the array of its children before the
loop has filled it. -/
def loadFuel : Nat → NSOutlineView α → Option α → Int → NSOutlineView α
  | 0, v, _, _ => v
  | fuel + 1, v, startitem, level =>
    let children :=
      if startitem.isNone || (isExpandable dataSource startitem && v.isItemExpanded startitem) then
        dataSource.children startitem
      else []
    children.foldl (fun v anitem => loadFuel fuel v (some anitem) (level + 1))
      ((v.insertArray startitem children).setLevel startitem level)

def loadDictionaryStartingWith (startitem : Option α) (level : Int) : NSOutlineView α :=
  loadFuel dataSource (dataSource.bound + 1) v startitem level

def noteNumberOfRowsChangedBelowItem (item : Option α) (numItems : Int) : NSOutlineView α :=
  if numItems = 0 then v
  else
    { v with
      toNSTableView :=
        (v.toNSTableView.shiftSelection (v.rowIndexBelow item) numItems).noteNumberOfRowsChanged
          v.items.length }

def markCollapsed : Option α → NSOutlineView α
  | none => v
  | some item => { v with expandedItems := v.expandedItems.filter (· ≠ item) }

def removeRows (rows : List α) : NSOutlineView α :=
  { v with items := rows.foldl (fun items child => items.filter (· ≠ child)) v.items }

def closeItem (item : Option α) : NSOutlineView α :=
  let removeAll := v.collectItemsStartingWith dataSource item
  ((v.markCollapsed item).removeRows removeAll).noteNumberOfRowsChangedBelowItem item (-removeAll.length)

/-- What `_openItem:` inserts for a child. -/
def insertedFor (child : α) : List α :=
  child :: if v.isItemExpanded (some child) then v.collectItemsStartingWith dataSource (some child) else []

/-- The turn of the loop of `_openItem:`: everything is inserted at one point, last first. -/
def insertChild (insertionPoint : Nat) (child : α) (items : List α) : List α :=
  let items :=
    if v.isItemExpanded (some child) then
      (v.collectItemsStartingWith dataSource (some child)).foldr
        (fun item items => items.insertIdx insertionPoint item) items
    else items
  items.insertIdx insertionPoint child

def insertChildren (item : Option α) : NSOutlineView α :=
  { v with
    items := (v.itemDict item).foldr (v.insertChild dataSource (v.rowIndexBelow item)) v.items }

/-- The children and what is collected below those that are expanded. -/
def numDescendants (item : Option α) : Nat :=
  (v.itemDict item).length + ((v.itemDict item).map fun child =>
    if v.isItemExpanded (some child) then (v.collectItemsStartingWith dataSource (some child)).length
    else 0).sum

def markExpanded : Option α → NSOutlineView α
  | none => v
  | some item => { v with expandedItems := v.expandedItems ++ [item] }

/-- Load the children of the item if needed. -/
def loadIfNeeded (item : Option α) : NSOutlineView α :=
  if v.isItemLoaded item then v else v.loadDictionaryStartingWith dataSource item (v.levelForItem item)

def openItem (item : Option α) : NSOutlineView α :=
  let v := (v.markExpanded item).loadIfNeeded dataSource item
  (v.insertChildren dataSource item).noteNumberOfRowsChangedBelowItem item (v.numDescendants dataSource item)

/-- New rows and tables. -/
def cleared : NSOutlineView α :=
  { v with items := [], itemDict := fun _ => [], levelOfItems := fun _ => none }

/-- Forces a from scratch reload of all data. -/
def reloadData : NSOutlineView α :=
  let v := v.cleared.openItem dataSource none
  { v with toNSTableView := v.toNSTableView.noteNumberOfRowsChanged v.items.length }

/-- If it is view based, then refresh the outline view. -/
def refresh : NSOutlineView α := if v.viewBased then v.reloadData dataSource else v

def expandFuel : Nat → NSOutlineView α → Option α → Bool → NSOutlineView α
  | 0, v, _, _ => v
  | fuel + 1, v, item, expandChildren =>
    if isExpandable dataSource item then
      let v := if v.isItemExpanded item then v else v.openItem dataSource item
      let v :=
        if expandChildren then
          (v.itemDict item).foldl (fun v child =>
            if isExpandable dataSource (some child) then expandFuel fuel v (some child) expandChildren
            else v) v
        else v
      v.refresh dataSource
    else v

/-- `expandItem:expandChildren:`. -/
def expandItem (item : Option α) (expandChildren : Bool) : NSOutlineView α :=
  expandFuel dataSource (dataSource.bound + 1) v item expandChildren

def collapseFuel : Nat → NSOutlineView α → Option α → Bool → NSOutlineView α
  | 0, v, _, _ => v
  | fuel + 1, v, item, collapseChildren =>
    if isExpandable dataSource item && v.isItemExpanded item then
      -- the children must be collapsed before their parent item
      let v :=
        if collapseChildren then
          (v.itemDict item).foldl (fun v child =>
            if isExpandable dataSource (some child) then collapseFuel fuel v (some child) collapseChildren
            else v) v
        else v
      (v.closeItem dataSource item).refresh dataSource
    else v

/-- `collapseItem:collapseChildren:`. -/
def collapseItem (item : Option α) (collapseChildren : Bool) : NSOutlineView α :=
  collapseFuel dataSource (dataSource.bound + 1) v item collapseChildren

/-- The turn of the loop of `_removeChildren:`, behind its recursive call. -/
def removeChild (child : α) : NSOutlineView α :=
  { v with
    itemDict := Function.update v.itemDict (some child) []
    items := v.items.filter (· ≠ child)
    expandedItems := v.expandedItems.filter (· ≠ child) }

def emptyArray (item : Option α) : NSOutlineView α :=
  { v with itemDict := Function.update v.itemDict item [] }

def removeChildrenFuel : Nat → NSOutlineView α → Option α → NSOutlineView α
  | 0, v, _ => v
  | fuel + 1, v, startitem =>
    let anarray := v.itemDict startitem
    let v := anarray.foldl (fun v child => (removeChildrenFuel fuel v (some child)).removeChild child) v
    (v.emptyArray startitem).noteNumberOfRowsChangedBelowItem startitem (-anarray.length)

def removeChildren (startitem : Option α) : NSOutlineView α :=
  removeChildrenFuel (dataSource.bound + 1) v startitem

/-- The keys of the table of children are among these. -/
def allKeys : List (Option α) := none :: (dataSource.listing (fun _ => true) none).map some

/-- The child that the data source has in the place of an item that is in an array. In a tree that does
not change it is the item, and nothing is replaced. -/
def reloadedObject : Option α → Option α
  | none => none
  | some item =>
    ((allKeys dataSource).find? fun parent => decide (item ∈ v.itemDict parent)).bind fun parent =>
      (dataSource.children parent)[(v.itemDict parent).idxOf item]?

/-- `reloadItem:reloadChildren:`. -/
def reloadItem (item : Option α) (reloadChildren : Bool) : NSOutlineView α :=
  let expanded := v.isItemExpanded item
  let dsobj := v.reloadedObject dataSource item
  if reloadChildren then
    let v := v.removeChildren dataSource dsobj
    let v := v.loadDictionaryStartingWith dataSource dsobj (v.levelForItem dsobj)
    if expanded then v.openItem dataSource dsobj else v
  else v

end NSOutlineView

end GnustepGui.OutlineView
