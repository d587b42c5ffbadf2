import GnustepGui.TextStorage.Reference

/-!
# Editing a text storage

`NSTextStorage` merges the edits between `beginEditing` and `endEditing` into one range and one change
in length, and tells its layout managers when the last `endEditing` comes. The characters and their
attributes are kept by a subclass; here they are the reference text, which `GSTextStorage` refines.
The delegate and the attribute fixes may edit while the edits are processed (`Observers`).
-/

namespace GnustepGui.TextStorage

open StateExcept

/-- `NSTextStorageEditedAttributes` and `NSTextStorageEditedCharacters` -/
structure NSTextStorageEditedOptions where
  attributes : Bool
  characters : Bool
deriving DecidableEq, Repr

namespace NSTextStorageEditedOptions

def none : NSTextStorageEditedOptions := ⟨false, false⟩

def editedAttributes : NSTextStorageEditedOptions := ⟨true, false⟩

def editedCharacters : NSTextStorageEditedOptions := ⟨false, true⟩

def union (a b : NSTextStorageEditedOptions) : NSTextStorageEditedOptions :=
  ⟨a.attributes || b.attributes, a.characters || b.characters⟩

end NSTextStorageEditedOptions

/-- `NSUnionRange` -/
def NSRange.union (a b : NSRange) : NSRange where
  location := min a.location b.location
  length := Max.max a.max b.max - min a.location b.location

/-- What `processEditing` sends to each of the layout managers, in their order, and the text that they
find then. The change in length is received as an `int`. -/
structure Processing (D L : Type) where
  editedMask : NSTextStorageEditedOptions
  range : NSRange
  changeInLength : Int
  invalidatedRange : NSRange
  layoutManagers : List L
  content : RefText D

structure NSTextStorage (D L : Type) where
  content : RefText D
  editedRange : NSRange
  editedDelta : Int
  editedMask : NSTextStorageEditedOptions
  editCount : Nat
  layoutManagers : List L
  /-- What has been processed so far. -/
  processings : List (Processing D L)

/-- An edit of the subclass: the last component of a replacement is what the characters inherit in a
text without characters. -/
inductive TextEdit (D : Type)
  | setAttributes (attributes : D) (range : NSRange)
  | replaceCharacters (range : NSRange) (aString : List UInt16) (last : D)

/-- The edits that the delegate makes when it is notified and the ones by which the attributes of a
range are fixed. -/
structure Observers (D L : Type) where
  willProcessEditing : NSTextStorage D L → List (TextEdit D)
  fixAttributes : NSTextStorage D L → NSRange → List (TextEdit D)
  didProcessEditing : NSTextStorage D L → List (TextEdit D)

inductive EditingException
  | genericException
  | rangeException
  | assertionFailed
deriving DecidableEq, Repr

abbrev EditM (D L : Type) := EStateM EditingException (NSTextStorage D L)

variable {D L : Type}

/-! ## Edits -/

/-- `edited:range:changeInLength:` up to the processing. -/
def recordEdit (mask : NSTextStorageEditedOptions) (old : NSRange) (delta : Int) : EditM D L Unit := do
  modify fun s => { s with
    editedRange := if s.editedMask = .none then old else s.editedRange.union old
    editedMask := s.editedMask.union mask }
  if mask.characters && delta != 0 then
    if delta < 0 ∧ (old.length : Int) < (-delta) % 2 ^ 32 then
      throw .assertionFailed
    else
      modify fun s => { s with
        editedRange := ⟨s.editedRange.location, (s.editedRange.length + delta).toNat⟩
        editedDelta := s.editedDelta + delta }
  else
    return ()

/-- An edit changes the text and then tells `edited`. -/
def performEdit (edited : NSTextStorageEditedOptions → NSRange → Int → EditM D L Unit) :
    TextEdit D → EditM D L Unit
  | .setAttributes attributes range => do
    if range.length = 0 then
      return ()
    else if range.max ≤ (← get).content.length then
      modify fun s => { s with content := s.content.setAttributes attributes range }
      edited .editedAttributes range 0
    else
      throw .rangeException
  | .replaceCharacters range aString last => do
    if range.max ≤ (← get).content.length then
      modify fun s => { s with content := s.content.replaceCharacters range aString last }
      edited .editedCharacters range ((aString.length : Int) - range.length)
    else
      throw .rangeException

/-- The edits of an observer, which sees to its exceptions itself. The edit count is not zero then, so
that `edited:range:changeInLength:` does not process them. -/
def react (edits : List (TextEdit D)) (s : NSTextStorage D L) : NSTextStorage D L :=
  edits.foldl (fun s e => stateOf (performEdit recordEdit e s)) s

/-! ## Processing -/

/-- The range once the fixes have changed the length by `change`, in a text of `length` characters. -/
def adjustRange (r : NSRange) (change : Int) (length : Nat) : NSRange :=
  if change = 0 then r
  else if 0 < change then ⟨r.location, (r.length + change).toNat⟩
  else if (r.length : Int) < (-change) % 2 ^ 32 then ⟨min r.location length, 0⟩
  else ⟨r.location, (r.length + change).toNat⟩

/-- The conversion to `int`. -/
def toInt (n : Int) : Int := n.bmod (2 ^ 32)

def processEditing (observers : Observers D L) (s : NSTextStorage D L) : NSTextStorage D L :=
  let s := { s with editCount := s.editCount + 1 }
  let s := react (observers.willProcessEditing s) s
  let originalDelta := s.editedDelta
  let r : NSRange :=
    -- multiple adds at the end might give a too long result
    if s.content.length < s.editedRange.max then
      ⟨s.editedRange.location, s.content.length - s.editedRange.location⟩
    else s.editedRange
  let s := react (observers.fixAttributes s r) s
  let s := react (observers.didProcessEditing s) s
  let processing : Processing D L :=
    { editedMask := s.editedMask
      range := adjustRange r (s.editedDelta - originalDelta) s.content.length
      changeInLength := toInt s.editedDelta
      invalidatedRange := s.editedRange
      layoutManagers := s.layoutManagers
      content := s.content }
  { s with
    editCount := s.editCount - 1
    editedRange := ⟨0, 0⟩
    editedDelta := 0
    editedMask := .none
    processings := s.processings ++ [processing] }

section Observed

variable (observers : Observers D L)

def edited (mask : NSTextStorageEditedOptions) (old : NSRange) (delta : Int) : EditM D L Unit := do
  recordEdit mask old delta
  modify fun s => if s.editCount = 0 then processEditing observers s else s

def beginEditing : EditM D L Unit :=
  modify fun s => { s with editCount := s.editCount + 1 }

def endEditing : EditM D L Unit := do
  if (← get).editCount = 0 then
    throw .genericException
  else
    modify fun s => { s with editCount := s.editCount - 1 }
    modify fun s => if s.editCount = 0 then processEditing observers s else s

def addLayoutManager [DecidableEq L] (obj : L) : EditM D L Unit :=
  modify fun s =>
    if obj ∈ s.layoutManagers then s else { s with layoutManagers := s.layoutManagers ++ [obj] }

def removeLayoutManager [DecidableEq L] (obj : L) : EditM D L Unit :=
  modify fun s => { s with layoutManagers := s.layoutManagers.filter (· ≠ obj) }

/-! ## Runs -/

inductive EditingCall (D L : Type)
  | beginEditing
  | endEditing
  | edit (e : TextEdit D)
  | addLayoutManager (obj : L)
  | removeLayoutManager (obj : L)

variable [DecidableEq L]

/-- A call; after an exception the storage is used again as it was left. -/
def NSTextStorage.call (s : NSTextStorage D L) : EditingCall D L → NSTextStorage D L
  | .beginEditing => stateOf (TextStorage.beginEditing s)
  | .endEditing => stateOf (TextStorage.endEditing observers s)
  | .edit e => stateOf (performEdit (edited observers) e s)
  | .addLayoutManager obj => stateOf (TextStorage.addLayoutManager obj s)
  | .removeLayoutManager obj => stateOf (TextStorage.removeLayoutManager obj s)

def NSTextStorage.calls (s : NSTextStorage D L) (calls : List (EditingCall D L)) : NSTextStorage D L :=
  calls.foldl (fun s call => s.call observers call) s

end Observed

/-- A storage with a text, before any edit. -/
def NSTextStorage.initial (content : RefText D) (layoutManagers : List L) : NSTextStorage D L where
  content := content
  editedRange := ⟨0, 0⟩
  editedDelta := 0
  editedMask := .none
  editCount := 0
  layoutManagers := layoutManagers
  processings := []

end GnustepGui.TextStorage
