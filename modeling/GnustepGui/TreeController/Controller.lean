import GnustepGui.Library.Forests

/-!
# `NSTreeController`: edits by index path

The controller holds the content array and the array of the proxy that `arrangedObjects` returns,
which `rearrangeObjects` copies from it. Below the top both share the objects, and the children of an
object are an array of its own. An index path is followed from array to array; a message to `nil` does
nothing and returns `nil`, an index beyond an array raises.
-/

namespace GnustepGui.TreeController

inductive Exception where
  | rangeException
  deriving DecidableEq, Repr

/-- The array that `children` points to in the loops over an index path. -/
inductive Children (O : Type) where
  | childNodes
  | ofNode (node : O)
  | null
  deriving DecidableEq, Repr

@[ext] structure NSTreeController (O : Type) where
  content : List O
  /-- The array of the proxy, which is a copy of the content; `none` before there is a proxy. -/
  arrangedObjects : Option (List O)
  /-- The array at `childrenKeyPath` of an object, if there is one. -/
  children : O → Option (List O)
  selectionIndexPaths : List (List Nat)
  canAddChild : Bool
  countKeyPath : Option String

variable {O : Type} [DecidableEq O]

namespace NSTreeController

def rearrangeObjects (tc : NSTreeController O) : NSTreeController O :=
  { tc with arrangedObjects := some tc.content }

def array (tc : NSTreeController O) : Children O → Option (List O)
  | .childNodes => tc.arrangedObjects
  | .ofNode node => tc.children node
  | .null => none

def setArray (tc : NSTreeController O) (objects : List O) : Children O → NSTreeController O
  | .childNodes => { tc with arrangedObjects := some objects }
  | .ofNode node => { tc with children := Function.update tc.children node (some objects) }
  | .null => tc

/-- One turn of the loop: the node at the index, and the array of its children. -/
def descend (tc : NSTreeController O) (children : Children O) (i : Nat) : Except Exception (Children O) :=
  match tc.array children with
  | none => .ok .null
  | some objects =>
    match objects[i]? with
    | none => .error .rangeException
    | some node => .ok (.ofNode node)

/-- The loop over all indexes of the path but the last one. -/
def childrenAt (tc : NSTreeController O) (path : List Nat) : Except Exception (Children O) :=
  path.dropLast.foldlM tc.descend .childNodes

/-- In an empty path `length - 1` wraps around, and its indexes are `NSNotFound`. -/
def lastIndex (path : List Nat) : Except Exception Nat :=
  match path.getLast? with
  | none => .error .rangeException
  | some i => .ok i

def objectAtIndexPath (tc : NSTreeController O) (indexPath : List Nat) : Except Exception (Option O) := do
  let lastIndex ← lastIndex indexPath
  let children ← tc.childrenAt indexPath
  match tc.array children with
  | none => return none
  | some objects =>
    match objects[lastIndex]? with
    | none => throw .rangeException
    | some obj => return some obj

/-- `insertObject:atArrangedObjectIndexPath:`. The last index of the path is not used: the object is
added behind the others. -/
def insertObject (tc : NSTreeController O) (object : O) (indexPath : List Nat) :
    Except Exception (NSTreeController O) :=
  if tc.canAddChild ∧ tc.countKeyPath = none then do
    let _ ← lastIndex indexPath
    let children ← tc.childrenAt indexPath
    match tc.array children with
    | none => return tc.rearrangeObjects
    | some objects => return (tc.setArray (objects ++ [object]) children).rearrangeObjects
  else
    return tc

/-- `insertObjects:atArrangedObjectIndexPaths:`. -/
def insertObjects (tc : NSTreeController O) (objects : List O) (indexPaths : List (List Nat)) :
    Except Exception (NSTreeController O) :=
  if tc.canAddChild ∧ tc.countKeyPath = none ∧ objects.length = indexPaths.length then
    (objects.zip indexPaths).foldlM (fun tc pair => tc.insertObject pair.1 pair.2) tc
  else
    return tc

/-- `removeObjectAtArrangedObjectIndexPath:`. -/
def removeObject (tc : NSTreeController O) (indexPath : List Nat) : Except Exception (NSTreeController O) := do
  let lastIndex ← lastIndex indexPath
  let children ← tc.childrenAt indexPath
  match tc.array children with
  | none => return tc.rearrangeObjects
  | some objects =>
    if lastIndex < objects.length then
      return (tc.setArray (objects.eraseIdx lastIndex) children).rearrangeObjects
    else
      throw .rangeException

/-- `removeObjectsAtArrangedObjectIndexPaths:`. -/
def removeObjects (tc : NSTreeController O) (indexPaths : List (List Nat)) :
    Except Exception (NSTreeController O) :=
  indexPaths.foldlM removeObject tc

def removeSelectionIndexPaths (tc : NSTreeController O) (indexPaths : List (List Nat)) :
    Except Exception (NSTreeController O) :=
  tc.removeObjects indexPaths

end NSTreeController

end GnustepGui.TreeController
