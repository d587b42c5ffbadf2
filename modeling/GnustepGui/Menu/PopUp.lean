import GnustepGui.Menu.Menu

/-!
# `NSPopUpButtonCell`

The cell of a pop-up button has a menu of its own and keeps the selected item. The cell and the view of the menu are
both told of every change of the menu; which of them first is up to the notification center (`cellFirst`). Told of a
change, the cell selects the item at the highlighted index of the view, and a changed state of an item is again a
change of the menu, so that selecting an item and synchronizing call each other; the depth of the calls is bounded by
`fuel`. The item that the cell draws is left out.
-/

namespace GnustepGui.Menu

structure NSPopUpButtonCell where
  menu : NSMenu Nat
  title : Nat → String
  /-- `NSOnState`. -/
  on : Nat → Bool
  selectedItem : Option Nat
  pullsDown : Bool
  altersStateOfSelectedItem : Bool
  usesItemFromMenu : Bool
  cellFirst : Bool
  /-- How many state images a new item has that the cell takes away. -/
  stateImages : Nat
  /-- The next item to be made. -/
  newItem : Nat

/-- Why a call did not return: an exception, in the state it left, or the depth of calls. -/
inductive Stop where
  | raised (cell : NSPopUpButtonCell)
  | depth

namespace NSPopUpButtonCell

variable (cell : NSPopUpButtonCell)

def items : List Nat :=
  cell.menu.items

def indexOfItem (item : Option Nat) : Int :=
  match item with
  | none => -1
  | some x => if x ∈ cell.items then cell.items.idxOf x else -1

/-- `nil` beyond the items. -/
def itemAtIndex (index : Int) : Option Nat :=
  if 0 ≤ index then cell.items[index.toNat]? else none

def itemWithTitle (title : String) : Option Nat :=
  cell.items.find? fun x => cell.title x == title

def indexOfItemWithTitle (title : String) : Int :=
  cell.indexOfItem (cell.itemWithTitle title)

def indexOfSelectedItem : Int :=
  cell.indexOfItem cell.selectedItem

def setHighlightedItemIndex (index : Int) : NSPopUpButtonCell :=
  { cell with menu := { cell.menu with view := cell.menu.view.setHighlightedItemIndex index } }

/-! ## Selecting and synchronizing -/

/-- `[_menu itemChanged: item]`, where the menu of the item is this one. -/
def itemChanged (synchronize : NSPopUpButtonCell → Except Stop NSPopUpButtonCell) (item : Nat) :
    Except Stop NSPopUpButtonCell :=
  if cell.menu.attached item ∧ item ∈ cell.items then synchronize cell else .ok cell

def setState (synchronize : NSPopUpButtonCell → Except Stop NSPopUpButtonCell) (item : Nat) (flag : Bool) :
    Except Stop NSPopUpButtonCell :=
  if cell.on item = flag then
    .ok cell
  else
    itemChanged { cell with on := Function.update cell.on item flag } synchronize item

/-- The state of an item that becomes or was the selected one. -/
def alterState (synchronize : NSPopUpButtonCell → Except Stop NSPopUpButtonCell) (item : Option Nat)
    (flag : Bool) : Except Stop NSPopUpButtonCell :=
  match item with
  | none => .ok cell
  | some x =>
    if cell.pullsDown = false ∧ cell.altersStateOfSelectedItem then cell.setState synchronize x flag else .ok cell

/-- `synchronizeTitleAndSelectedItem`, with `selectItem:`. -/
def synchronizeWith (selectItem : NSPopUpButtonCell → Option Nat → Except Stop NSPopUpButtonCell) :
    Except Stop NSPopUpButtonCell :=
  if cell.usesItemFromMenu = false ∨ cell.items = [] ∨ cell.pullsDown then
    .ok cell
  else if cell.menu.view.highlightedItemIndex < 0 then
    .ok cell
  else
    selectItem cell (cell.itemAtIndex cell.menu.view.highlightedItemIndex)

def selectItem (fuel : Nat) (cell : NSPopUpButtonCell) (item : Option Nat) : Except Stop NSPopUpButtonCell :=
  match fuel with
  | 0 => .error .depth
  | fuel + 1 =>
    let synchronize := fun cell : NSPopUpButtonCell => cell.synchronizeWith (selectItem fuel)
    if cell.selectedItem = item then
      .ok (if cell.pullsDown then cell.setHighlightedItemIndex (cell.indexOfItem item) else cell)
    else do
      let cell ← cell.alterState synchronize cell.selectedItem false
      let cell := { cell with selectedItem := item }
      let cell := cell.setHighlightedItemIndex (cell.indexOfItem item)
      cell.alterState synchronize item true

def synchronize (fuel : Nat) : Except Stop NSPopUpButtonCell :=
  cell.synchronizeWith (selectItem fuel)

def selectItemAtIndex (fuel : Nat) (index : Int) : Except Stop NSPopUpButtonCell :=
  selectItem fuel cell (if index < 0 then none else cell.itemAtIndex index)

def selectItemWithTitle (fuel : Nat) (title : String) : Except Stop NSPopUpButtonCell :=
  selectItem fuel cell (cell.itemWithTitle title)

/-! ## Notifications -/

/-- The view is told. -/
def tellView (notification : NSMenuNotification) : Except Stop NSPopUpButtonCell :=
  match cell.menu.view.receive cell.items notification with
  | none => .error (.raised cell)
  | some view => .ok { cell with menu := { cell.menu with view := view } }

def post (fuel : Nat) (notification : NSMenuNotification) : Except Stop NSPopUpButtonCell :=
  if cell.cellFirst then do
    let cell ← cell.synchronize fuel
    cell.tellView notification
  else do
    let cell ← cell.tellView notification
    cell.synchronize fuel

/-- `[_menu removeItemAtIndex: index]`. -/
def menuRemoveItemAtIndex (fuel : Nat) (index : Int) : Except Stop NSPopUpButtonCell :=
  match cell.itemAtIndex index with
  | none => .error (.raised cell)
  | some anItem =>
    let attached := Function.update cell.menu.attached anItem false
    let menu := { cell.menu with attached := attached, items := cell.items.eraseIdx index.toNat }
    post { cell with menu := menu } fuel (.didRemoveItem index.toNat)

/-- `[_menu insertItemWithTitle: title action: NULL keyEquivalent: @"" atIndex: index]`, which makes the
item. -/
def menuInsertItemWithTitle (fuel : Nat) (title : String) (index : Nat) : Except Stop NSPopUpButtonCell := do
  let anItem := cell.newItem
  let menu := { cell.menu with
    items := cell.items.insertIdx index anItem, attached := Function.update cell.menu.attached anItem false }
  let cell ← post { cell with
    newItem := anItem + 1
    title := Function.update cell.title anItem title
    on := Function.update cell.on anItem false
    menu := menu } fuel (.didAddItem index)
  return { cell with menu := { cell.menu with attached := Function.update cell.menu.attached anItem true } }

/-- Setters of an item, one after the other, each with a new value. -/
def itemChanges (fuel : Nat) (item : Nat) : Nat → NSPopUpButtonCell → Except Stop NSPopUpButtonCell
  | 0, cell => .ok cell
  | n + 1, cell => do
    let cell ← cell.itemChanged (synchronize · fuel) item
    itemChanges fuel item n cell

/-! ## Items -/

def removeItemAtIndex (fuel : Nat) (index : Int) : Except Stop NSPopUpButtonCell :=
  if index = cell.indexOfSelectedItem then do
    let cell ← selectItem fuel cell none
    let cell ← cell.menuRemoveItemAtIndex fuel index
    if cell.items ≠ [] then cell.selectItemAtIndex fuel 0 else .ok cell
  else do
    let keepSelected := cell.selectedItem
    let cell ← cell.menuRemoveItemAtIndex fuel index
    if keepSelected ≠ none then selectItem fuel cell keepSelected else .ok cell

/-- An item with the title is removed first. -/
def removeTitle (fuel : Nat) (title : String) : Except Stop NSPopUpButtonCell :=
  if cell.indexOfItemWithTitle title ≠ -1 then
    cell.removeItemAtIndex fuel (cell.indexOfItemWithTitle title)
  else
    .ok cell

/-- `insertItemWithTitle:atIndex:`. The setters are those of the state images, the action and the target. -/
def insertItemWithTitle (fuel : Nat) (title : String) (index : Int) : Except Stop NSPopUpButtonCell := do
  let cell ← cell.removeTitle fuel title
  let anItem := cell.newItem
  let cell ← cell.menuInsertItemWithTitle fuel title (min index.toNat cell.items.length)
  let cell ← itemChanges fuel anItem (cell.stateImages + 2) cell
  if cell.selectedItem = none then selectItem fuel cell (some anItem) else .ok cell

def addItemWithTitle (fuel : Nat) (title : String) : Except Stop NSPopUpButtonCell :=
  cell.insertItemWithTitle fuel title cell.items.length

def removeItemWithTitle (fuel : Nat) (title : String) : Except Stop NSPopUpButtonCell :=
  cell.removeItemAtIndex fuel (cell.indexOfItemWithTitle title)

/-- The loop of `removeAllItems`, with the number of items. -/
def removeItems (fuel : Nat) : Nat → NSPopUpButtonCell → Except Stop NSPopUpButtonCell
  | 0, cell => .ok cell
  | n + 1, cell => do
    let cell ← cell.menuRemoveItemAtIndex fuel 0
    removeItems fuel n cell

def removeAllItems (fuel : Nat) : Except Stop NSPopUpButtonCell := do
  let cell ← selectItem fuel cell none
  removeItems fuel cell.items.length cell

def setItemTitle (fuel : Nat) (item : Nat) (title : String) : Except Stop NSPopUpButtonCell :=
  if cell.title item = title then
    .ok cell
  else
    itemChanged { cell with title := Function.update cell.title item title } (synchronize · fuel) item

/-- `setTitle:`. Without an item from the menu the title is that of the item the cell draws. -/
def setTitle (fuel : Nat) (title : String) : Except Stop NSPopUpButtonCell :=
  if cell.usesItemFromMenu = false then
    .ok cell
  else if cell.pullsDown then
    match cell.items with
    | [] => selectItem fuel cell none
    | x :: _ => do
      let cell ← cell.setItemTitle fuel x title
      selectItem fuel cell (some x)
  else
    match cell.itemWithTitle title with
    | some x => selectItem fuel cell (some x)
    | none => do
      let cell ← cell.addItemWithTitle fuel title
      selectItem fuel cell (cell.itemWithTitle title)

end NSPopUpButtonCell

/-! ## Calls -/

inductive PopUpCall where
  | addItemWithTitle (title : String)
  | insertItemWithTitle (title : String) (index : Int)
  | removeItemAtIndex (index : Nat)
  | removeItemWithTitle (title : String)
  | removeAllItems
  | selectItemAtIndex (index : Int)
  | selectItemWithTitle (title : String)
  | setTitle (title : String)
  deriving DecidableEq, Repr

namespace NSPopUpButtonCell

def perform (fuel : Nat) (cell : NSPopUpButtonCell) : PopUpCall → Except Stop NSPopUpButtonCell
  | .addItemWithTitle title => cell.addItemWithTitle fuel title
  | .insertItemWithTitle title index => cell.insertItemWithTitle fuel title index
  | .removeItemAtIndex index => cell.removeItemAtIndex fuel index
  | .removeItemWithTitle title => cell.removeItemWithTitle fuel title
  | .removeAllItems => cell.removeAllItems fuel
  | .selectItemAtIndex index => cell.selectItemAtIndex fuel index
  | .selectItemWithTitle title => cell.selectItemWithTitle fuel title
  | .setTitle title => cell.setTitle fuel title

/-- A call with the state it leaves, whether it returns or raises. -/
def call (fuel : Nat) (cell : NSPopUpButtonCell) (c : PopUpCall) : Option NSPopUpButtonCell :=
  match cell.perform fuel c with
  | .ok cell => some cell
  | .error (.raised cell) => some cell
  | .error .depth => none

/-- `initTextCell:pullsDown:` with an empty title. -/
def init (cellFirst : Bool) (stateImages : Nat) : NSPopUpButtonCell where
  menu := .new fun _ => false
  title _ := ""
  on _ := false
  selectedItem := none
  pullsDown := false
  altersStateOfSelectedItem := true
  usesItemFromMenu := true
  cellFirst := cellFirst
  stateImages := stateImages
  newItem := 0

end NSPopUpButtonCell

end GnustepGui.Menu
