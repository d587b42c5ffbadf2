import GnustepGui.Library.IndexEdits

/-!
# `NSMenu` and its `NSMenuView`

A menu has an array of items, its view one cell for each of them. The menu tells the view of a change by
a notification that holds the index of the change; while change messages are disabled it keeps the
notifications and posts them when messages are enabled again. The view takes the item of a new cell from
the array of the menu, as it is at that time. A call that raises gives `none`.
-/

namespace GnustepGui.Menu

open IndexEdits

variable {α : Type}

structure NSMenuItemCell (α : Type) where
  menuItem : α
  highlighted : Bool
  deriving DecidableEq, Repr

structure NSMenuView (α : Type) where
  itemCells : List (NSMenuItemCell α)
  highlightedItemIndex : Int
  deriving DecidableEq, Repr

inductive NSMenuNotification where
  | didAddItem (index : Nat)
  | didRemoveItem (index : Nat)
  deriving DecidableEq, Repr

def NSMenuNotification.edit : NSMenuNotification → Edit
  | didAddItem i => .inserted i
  | didRemoveItem i => .removed i

/-! ## The view -/

namespace NSMenuView

/-- `[[self menuItemCellForItemAtIndex: index] setHighlighted: flag]`; there is no cell beyond the
array, and `nil` takes no message. -/
def setHighlighted (view : NSMenuView α) (index : Int) (flag : Bool) : NSMenuView α :=
  if 0 ≤ index then
    { view with itemCells := view.itemCells.modify index.toNat fun c => { c with highlighted := flag } }
  else
    view

def setHighlightedItemIndex (view : NSMenuView α) (index : Int) : NSMenuView α :=
  if index = view.highlightedItemIndex then
    view
  else
    let view :=
      if view.highlightedItemIndex ≠ -1 then view.setHighlighted view.highlightedItemIndex false else view
    let view := { view with highlightedItemIndex := index }
    if index ≠ -1 then view.setHighlighted index true else view

/-- `itemAdded:`, with the array of the menu. -/
def itemAdded (view : NSMenuView α) (items : List α) (index : Nat) : Option (NSMenuView α) :=
  match items[index]? with
  | none => none
  | some anItem =>
    let wasHighlighted := view.highlightedItemIndex
    let view := if wasHighlighted ≥ index then view.setHighlightedItemIndex (-1) else view
    if index ≤ view.itemCells.length then
      let view := { view with itemCells := view.itemCells.insertIdx index ⟨anItem, false⟩ }
      some (if wasHighlighted ≥ index then view.setHighlightedItemIndex (wasHighlighted + 1) else view)
    else
      none

def itemRemoved (view : NSMenuView α) (index : Nat) : Option (NSMenuView α) :=
  let wasHighlighted := view.highlightedItemIndex
  let view := if index ≤ wasHighlighted then view.setHighlightedItemIndex (-1) else view
  if index < view.itemCells.length then
    let view := { view with itemCells := view.itemCells.eraseIdx index }
    some (if wasHighlighted > index then view.setHighlightedItemIndex (wasHighlighted - 1) else view)
  else
    none

def receive (items : List α) (view : NSMenuView α) : NSMenuNotification → Option (NSMenuView α)
  | .didAddItem index => view.itemAdded items index
  | .didRemoveItem index => view.itemRemoved index

end NSMenuView

/-! ## The menu -/

structure NSMenu (α : Type) where
  items : List α
  changedMessagesEnabled : Bool
  notifications : List NSMenuNotification
  /-- Which items have a menu, this one or another. -/
  attached : α → Bool
  view : NSMenuView α

namespace NSMenu

/-- A new menu; some items may be in other menus. -/
def new (attached : α → Bool) : NSMenu α where
  items := []
  changedMessagesEnabled := true
  notifications := []
  attached := attached
  view := ⟨[], -1⟩

def post (menu : NSMenu α) (notification : NSMenuNotification) : Option (NSMenu α) :=
  (menu.view.receive menu.items notification).map fun view => { menu with view := view }

/-- A notification is posted, or kept for later. -/
def notify (menu : NSMenu α) (notification : NSMenuNotification) : Option (NSMenu α) :=
  if menu.changedMessagesEnabled then
    menu.post notification
  else
    some { menu with notifications := menu.notifications ++ [notification] }

variable [DecidableEq α]

/-- `insertItem:atIndex:`. An item that has a menu is not inserted. -/
def insertItem (menu : NSMenu α) (newItem : α) (index : Nat) : Option (NSMenu α) :=
  if menu.attached newItem then
    some menu
  else if index ≤ menu.items.length then
    let menu := { menu with items := menu.items.insertIdx index newItem }
    (menu.notify (.didAddItem index)).map fun menu =>
      { menu with attached := Function.update menu.attached newItem true }
  else
    none

def removeItemAtIndex (menu : NSMenu α) (index : Nat) : Option (NSMenu α) :=
  match menu.items[index]? with
  | none => none
  | some anItem =>
    let menu := { menu with attached := Function.update menu.attached anItem false }
    let menu := { menu with items := menu.items.eraseIdx index }
    menu.notify (.didRemoveItem index)

omit [DecidableEq α] in
def setMenuChangedMessagesEnabled (menu : NSMenu α) (flag : Bool) : Option (NSMenu α) :=
  if menu.changedMessagesEnabled = flag then
    some menu
  else if flag then
    (menu.notifications.foldlM post menu).map fun menu =>
      { menu with notifications := [], changedMessagesEnabled := flag }
  else
    some { menu with changedMessagesEnabled := flag }

end NSMenu

/-! ## Calls -/

inductive MenuCall (α : Type) where
  | insertItem (newItem : α) (index : Nat)
  | removeItemAtIndex (index : Nat)
  | setHighlightedItemIndex (index : Int)
  | setMenuChangedMessagesEnabled (flag : Bool)

variable [DecidableEq α]

def NSMenu.call (menu : NSMenu α) : MenuCall α → Option (NSMenu α)
  | .insertItem newItem index => menu.insertItem newItem index
  | .removeItemAtIndex index => menu.removeItemAtIndex index
  | .setHighlightedItemIndex index => some { menu with view := menu.view.setHighlightedItemIndex index }
  | .setMenuChangedMessagesEnabled flag => menu.setMenuChangedMessagesEnabled flag

end GnustepGui.Menu
