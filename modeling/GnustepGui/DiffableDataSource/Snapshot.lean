import Mathlib
import GnustepGui.Library.Positions
import GnustepGui.Library.StateExcept

/-!
# `NSDiffableDataSourceSnapshot`

Two structures: the section identifiers in their order, and a dictionary from section identifiers to
item identifiers. The methods update them separately. Identifiers are compared with `isEqual:`,
and an index outside an array raises; what was done before stays.
-/

namespace GnustepGui.DiffableDataSource

inductive ArrayException
  | range (index count : Nat)
deriving DecidableEq, Repr

structure NSDiffableDataSourceSnapshot (S I : Type) where
  sections : List S
  itemsBySection : AList fun _ : S => List I

abbrev SnapshotM (S I : Type) := EStateM ArrayException (NSDiffableDataSourceSnapshot S I)

namespace NSDiffableDataSourceSnapshot

variable {S I : Type} [DecidableEq S] [DecidableEq I]

def init : NSDiffableDataSourceSnapshot S I := ⟨[], ∅⟩

/-! ## Reading -/

def itemIdentifiersInSectionWithIdentifier (s : NSDiffableDataSourceSnapshot S I) (x : S) : List I :=
  (s.itemsBySection.lookup x).getD []

def itemIdentifiers (s : NSDiffableDataSourceSnapshot S I) : List I :=
  s.sections.flatMap s.itemIdentifiersInSectionWithIdentifier

def numberOfSections (s : NSDiffableDataSourceSnapshot S I) : Nat := s.sections.length

def numberOfItems (s : NSDiffableDataSourceSnapshot S I) : Nat :=
  (s.sections.map fun x => (s.itemIdentifiersInSectionWithIdentifier x).length).sum

/-- The index of an item in the array of a section; a message to a missing array answers 0. -/
def indexOfItem (s : NSDiffableDataSourceSnapshot S I) (item : I) (x : S) : Option Nat :=
  match s.itemsBySection.lookup x with
  | none => some 0
  | some items => items.idxOf? item

/-- `_findItemIdentifier:inSection:index:` -/
def findItemIdentifier (s : NSDiffableDataSourceSnapshot S I) (item : I) : Option (S × Nat) :=
  s.sections.findSome? fun x => (s.indexOfItem item x).map fun i => (x, i)

/-! ## Arrays -/

/-- `insertObject:atIndex:` on the sections -/
def insertSection (x : S) (index : Nat) : SnapshotM S I Unit := do
  let s ← get
  if s.sections.length < index then throw (.range index s.sections.length)
  set { s with sections := s.sections.insertIdx index x }

/-- `removeObjectAtIndex:` on the sections -/
def removeSectionAtIndex (index : Nat) : SnapshotM S I Unit := do
  let s ← get
  if s.sections.length ≤ index then throw (.range index s.sections.length)
  set { s with sections := s.sections.eraseIdx index }

def setItems (x : S) (items : List I) (s : NSDiffableDataSourceSnapshot S I) :
    NSDiffableDataSourceSnapshot S I :=
  { s with itemsBySection := s.itemsBySection.insert x items }

/-- `insertObjects:atIndexes:` on the array of a section, if there is one -/
def insertItemsAt (ids : List I) (x : S) (index : Nat) : SnapshotM S I Unit := do
  let s ← get
  match s.itemsBySection.lookup x with
  | none => return ()
  | some items =>
    if items.length < index then throw (.range index items.length)
    set (s.setItems x (items.take index ++ ids ++ items.drop index))

/-! ## Sections -/

def addSection (x : S) (s : NSDiffableDataSourceSnapshot S I) : NSDiffableDataSourceSnapshot S I :=
  if x ∈ s.sections then s else { s with sections := s.sections ++ [x] }

def ensureSection (defaultSection : S) (sectionIdentifier : Option S)
    (s : NSDiffableDataSourceSnapshot S I) : NSDiffableDataSourceSnapshot S I :=
  let x := sectionIdentifier.getD defaultSection
  let s := s.addSection x
  if (s.itemsBySection.lookup x).isNone then s.setItems x [] else s

def appendSectionsWithIdentifiers (defaultSection : S) (ids : List S) : SnapshotM S I Unit :=
  modify fun s => ids.foldl (fun s x => s.ensureSection defaultSection (some x)) s

/-- The loop of both insertions of sections. -/
def insertSectionsLoop : List S → Nat → SnapshotM S I Unit
  | [], _ => pure ()
  | x :: rest, insertionIndex => do
    if x ∈ (← get).sections then insertSectionsLoop rest insertionIndex
    else
      insertSection x insertionIndex
      modify fun s => s.setItems x []
      insertSectionsLoop rest (insertionIndex + 1)

def insertSectionsBefore (ids : List S) (other : S) : SnapshotM S I Unit := do
  let s ← get
  insertSectionsLoop ids ((s.sections.idxOf? other).getD s.sections.length)

def insertSectionsAfter (defaultSection : S) (ids : List S) (other : S) : SnapshotM S I Unit := do
  match (← get).sections.idxOf? other with
  | none => appendSectionsWithIdentifiers defaultSection ids
  | some index => insertSectionsLoop ids (index + 1)

def deleteSection (s : NSDiffableDataSourceSnapshot S I) (x : S) : NSDiffableDataSourceSnapshot S I :=
  ⟨s.sections.filter (· ≠ x), s.itemsBySection.erase x⟩

def deleteSectionsWithIdentifiers (ids : List S) : SnapshotM S I Unit :=
  modify fun s => ids.foldl deleteSection s

/-- `moveSectionWithIdentifier:beforeSectionWithIdentifier:` -/
def moveSectionBefore (x other : S) : SnapshotM S I Unit := do
  let s ← get
  match s.sections.idxOf? x, s.sections.idxOf? other with
  | some fromIndex, some toIndex =>
    removeSectionAtIndex fromIndex
    insertSection x (if fromIndex < toIndex then toIndex - 1 else toIndex)
  | _, _ => return ()

/-- `moveSectionWithIdentifier:afterSectionWithIdentifier:` -/
def moveSectionAfter (x other : S) : SnapshotM S I Unit := do
  let s ← get
  match s.sections.idxOf? x, s.sections.idxOf? other with
  | some fromIndex, some toIndex =>
    removeSectionAtIndex fromIndex
    insertSection x ((if fromIndex < toIndex then toIndex - 1 else toIndex) + 1)
  | _, _ => return ()

/-! ## Items -/

/-- `appendItemsWithIdentifiers:intoSectionWithIdentifier:` -/
def appendItemsInto (defaultSection : S) (ids : List I) (sectionIdentifier : Option S) :
    SnapshotM S I Unit :=
  modify fun s =>
    let s := s.ensureSection defaultSection sectionIdentifier
    let x := sectionIdentifier.getD defaultSection
    match s.itemsBySection.lookup x with
    | none => s
    | some items => s.setItems x (items ++ ids)

def appendItemsWithIdentifiers (defaultSection : S) (ids : List I) : SnapshotM S I Unit := do
  match (← get).sections.getLast? with
  | some x => appendItemsInto defaultSection ids (some x)
  | none =>
    appendSectionsWithIdentifiers defaultSection [defaultSection]
    appendItemsInto defaultSection ids (some defaultSection)

def insertItemsBefore (defaultSection : S) (ids : List I) (beforeIdentifier : I) :
    SnapshotM S I Unit := do
  if ids.length = 0 then return ()
  match (← get).findItemIdentifier beforeIdentifier with
  | some (x, itemIndex) => insertItemsAt ids x itemIndex
  | none => appendItemsWithIdentifiers defaultSection ids

def insertItemsAfter (defaultSection : S) (ids : List I) (afterIdentifier : I) :
    SnapshotM S I Unit := do
  if ids.length = 0 then return ()
  match (← get).findItemIdentifier afterIdentifier with
  | some (x, itemIndex) => insertItemsAt ids x (itemIndex + 1)
  | none => appendItemsWithIdentifiers defaultSection ids

def deleteItem (s : NSDiffableDataSourceSnapshot S I) (item : I) : NSDiffableDataSourceSnapshot S I :=
  match s.findItemIdentifier item with
  | none => s
  | some (x, index) =>
    match s.itemsBySection.lookup x with
    | none => s
    | some items => if index < items.length then s.setItems x (items.eraseIdx index) else s

def deleteItemsWithIdentifiers (ids : List I) : SnapshotM S I Unit :=
  modify fun s => ids.foldl deleteItem s

end NSDiffableDataSourceSnapshot

/-! ## Calls -/

inductive SnapshotCall (S I : Type)
  | appendSections (ids : List S)
  | insertSectionsBefore (ids : List S) (other : S)
  | insertSectionsAfter (ids : List S) (other : S)
  | deleteSections (ids : List S)
  | moveSectionBefore (x other : S)
  | moveSectionAfter (x other : S)
  | appendItems (ids : List I)
  | appendItemsInto (ids : List I) (sectionIdentifier : Option S)
  | insertItemsBefore (ids : List I) (item : I)
  | insertItemsAfter (ids : List I) (item : I)
  | deleteItems (ids : List I)
deriving DecidableEq

namespace SnapshotCall

open NSDiffableDataSourceSnapshot StateExcept

variable {S I : Type} [DecidableEq S] [DecidableEq I] (defaultSection : S)

def perform : SnapshotCall S I → SnapshotM S I Unit
  | appendSections ids => appendSectionsWithIdentifiers defaultSection ids
  | insertSectionsBefore ids other => NSDiffableDataSourceSnapshot.insertSectionsBefore ids other
  | insertSectionsAfter ids other =>
    NSDiffableDataSourceSnapshot.insertSectionsAfter defaultSection ids other
  | deleteSections ids => deleteSectionsWithIdentifiers ids
  | moveSectionBefore x other => NSDiffableDataSourceSnapshot.moveSectionBefore x other
  | moveSectionAfter x other => NSDiffableDataSourceSnapshot.moveSectionAfter x other
  | appendItems ids => appendItemsWithIdentifiers defaultSection ids
  | appendItemsInto ids x => NSDiffableDataSourceSnapshot.appendItemsInto defaultSection ids x
  | insertItemsBefore ids item =>
    NSDiffableDataSourceSnapshot.insertItemsBefore defaultSection ids item
  | insertItemsAfter ids item => NSDiffableDataSourceSnapshot.insertItemsAfter defaultSection ids item
  | deleteItems ids => deleteItemsWithIdentifiers ids

/-- The item identifiers a call adds. -/
def added : SnapshotCall S I → List I
  | appendItems ids => ids
  | appendItemsInto ids _ => ids
  | insertItemsBefore ids _ => ids
  | insertItemsAfter ids _ => ids
  | _ => []

end SnapshotCall

/-- The snapshot after calls on a fresh one; a call that raises leaves what it did. -/
def snapshotAfter {S I : Type} [DecidableEq S] [DecidableEq I] (defaultSection : S)
    (calls : List (SnapshotCall S I)) : NSDiffableDataSourceSnapshot S I :=
  calls.foldl (fun s call => StateExcept.stateOf (call.perform defaultSection s)) .init

end GnustepGui.DiffableDataSource
