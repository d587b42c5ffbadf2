import Mathlib
import GnustepGui.TextStorage.AttributeCache

/-!
# `GSTextStorage`

A storage holds its characters and an array of runs; a run is the location where an attribute dictionary starts, and
it extends to the next run or to the end of the text. The methods are written in `TextM`, a state with exceptions: a
method that raises keeps what it did before, as an Objective-C exception does. `objectAt`, `removeAt` and `insertAt`
raise when the index is outside the array. Locations are natural numbers.
-/

namespace GnustepGui.TextStorage

structure NSRange where
  location : Nat
  length : Nat
deriving DecidableEq, Repr

/-- `NSMaxRange` -/
def NSRange.max (r : NSRange) : Nat := r.location + r.length

inductive TextException
  | rangeException
  | indexOutOfRange
  | assertionFailed
  | fuelExhausted
deriving DecidableEq, Repr

structure GSTextInfo (D : Type) where
  loc : Nat
  attrs : CachedDictionary D
deriving DecidableEq, Repr

/-- `_textChars` and `_infoArray` of one object. -/
structure GSTextStorage (D : Type) where
  textChars : List UInt16
  infoArray : List (GSTextInfo D)

/-- What a method of one storage can touch: the shared cache and its own fields. -/
structure Frame (D : Type) where
  cache : AttributeCache D
  infoArray : List (GSTextInfo D)
  textChars : List UInt16

abbrev TextM (D : Type) := EStateM TextException (Frame D)

/-- An attributed string as `_setAttributesFrom` reads it: the effective range reported at an index
contains the index, lies inside the string, and the attributes are constant on it. -/
structure AttributedString (D : Type) where
  string : List UInt16
  attributesAtIndex : Nat → D × NSRange
  effective : ∀ i < string.length, (attributesAtIndex i).2.location ≤ i ∧
    i < (attributesAtIndex i).2.max ∧ (attributesAtIndex i).2.max ≤ string.length
  constant : ∀ i < string.length, ∀ j, i ≤ j → j < (attributesAtIndex i).2.max →
    (attributesAtIndex j).1 = (attributesAtIndex i).1

variable {D : Type} [DecidableEq D]

/-! ## The run array -/

def objectAt (i : Nat) : TextM D (GSTextInfo D) := do
  match (← get).infoArray[i]? with
  | some info => pure info
  | none => throw .indexOutOfRange

/-- `REMOVEAT`: the array held the only reference, so the run is deallocated and `finalize`
uncaches its attributes. -/
def removeAt (i : Nat) : TextM D Unit := do
  let info ← objectAt i
  modify fun f => { f with
    infoArray := f.infoArray.eraseIdx i
    cache := unCacheAttributes info.attrs f.cache }

/-- `INSOBJECT` -/
def insertAt (info : GSTextInfo D) (i : Nat) : TextM D Unit := do
  if (← get).infoArray.length < i then throw .indexOutOfRange
  modify fun f => { f with infoArray := f.infoArray.insertIdx i info }

def setLoc (i loc : Nat) : TextM D Unit :=
  modify fun f => { f with infoArray := f.infoArray.modify i fun info => { info with loc := loc } }

def setAttrs (i : Nat) (attrs : CachedDictionary D) : TextM D Unit :=
  modify fun f => { f with infoArray := f.infoArray.modify i fun info => { info with attrs := attrs } }

def cacheM (attrs : D) : TextM D (CachedDictionary D) := do
  let (p, cache) := cacheAttributes attrs (← get).cache
  modify fun f => { f with cache := cache }
  return p

def unCacheM (attrs : CachedDictionary D) : TextM D Unit :=
  modify fun f => { f with cache := unCacheAttributes attrs f.cache }

/-- `GS_RANGE_CHECK` -/
def rangeCheck (range : NSRange) (size : Nat) : TextM D Unit :=
  if size < range.location ∨ size - range.location < range.length then throw .rangeException
  else pure ()

/-! ## Looking a run up -/

/-- `n - 1` on an `unsigned`. -/
def unsignedPred (n : Nat) : Nat := if n = 0 then 2 ^ 32 - 1 else n - 1

/-- Where the run at `cnt` ends, inside the loop of the search. -/
def nextLocation (infoArray : List (GSTextInfo D)) (tmpLength cnt : Nat) :
    Except TextException Nat :=
  if infoArray.length - 1 ≤ cnt then .ok tmpLength
  else match infoArray[cnt + 1]? with
    | some inf => .ok inf.loc
    | none => .error .indexOutOfRange

/-- The loop `while (low <= high)`. -/
def searchRun (infoArray : List (GSTextInfo D)) (tmpLength index : Nat) :
    Nat → Nat → Nat → Except TextException (CachedDictionary D × NSRange × Nat)
  | 0, _, _ => .error .fuelExhausted
  | fuel + 1, low, high =>
    if low ≤ high then
      let cnt := (low + high) / 2
      match infoArray[cnt]? with
      | none => .error .indexOutOfRange
      | some found =>
        if index < found.loc then
          searchRun infoArray tmpLength index fuel low (unsignedPred cnt)
        else do
          let nextLoc ← nextLocation infoArray tmpLength cnt
          if found.loc = index ∨ index < nextLoc then
            return (found.attrs, ⟨found.loc, nextLoc - found.loc⟩, cnt)
          else
            searchRun infoArray tmpLength index fuel (cnt + 1) high
    else .error .assertionFailed

/-- `_attributesAtIndexEffectiveRange`: attributes, effective range and array index of the run
holding `index`; at the end of the text, of the last run. -/
def attributesAtIndexEffectiveRange (index tmpLength : Nat) (infoArray : List (GSTextInfo D)) :
    Except TextException (CachedDictionary D × NSRange × Nat) :=
  let used := infoArray.length
  if used = 0 then .error .assertionFailed
  else if tmpLength ≤ index then
    if index = tmpLength then
      match infoArray[used - 1]? with
      | some found => .ok (found.attrs, ⟨found.loc, tmpLength - found.loc⟩, used - 1)
      | none => .error .indexOutOfRange
    else .error .rangeException
  else searchRun infoArray tmpLength index (used + 1) 0 (used - 1)

def lookupM (index tmpLength : Nat) : TextM D (CachedDictionary D × NSRange × Nat) := do
  match attributesAtIndexEffectiveRange index tmpLength (← get).infoArray with
  | .ok r => pure r
  | .error e => throw e

/-! ## Initialisation -/

/-- The loop of `_setAttributesFrom` after the first run. -/
def setAttributesFromLoop (source : AttributedString D) : Nat → NSRange → TextM D Unit
  | 0, _ => throw .fuelExhausted
  | fuel + 1, range =>
    let loc := range.max
    if loc < source.string.length then do
      let (attr, range) := source.attributesAtIndex loc
      let attr ← cacheM attr
      modify fun f => { f with infoArray := f.infoArray ++ [⟨loc, attr⟩] }
      setAttributesFromLoop source fuel range
    else pure ()

/-- `_setAttributesFrom` over the whole of the source. -/
def setAttributesFrom (blank : CachedDictionary D) (source : AttributedString D) :
    TextM D Unit := do
  modify fun f => { f with infoArray := [] }
  let (attr, range) := if source.string.length = 0 then (blank.contents, ⟨0, 0⟩)
    else source.attributesAtIndex 0
  let attr ← cacheM attr
  modify fun f => { f with infoArray := f.infoArray ++ [⟨0, attr⟩] }
  setAttributesFromLoop source (source.string.length + 1) range

/-- `initWithString:attributes:` given a plain string. -/
def initWithString (blank : CachedDictionary D) (aString : Option (List UInt16))
    (attributes : Option D) : TextM D Unit := do
  let attributes ← cacheM (attributes.getD blank.contents)
  modify fun f => { f with infoArray := [⟨0, attributes⟩], textChars := aString.getD [] }

/-- `initWithString:attributes:` given an attributed string, which is what
`initWithAttributedString:` passes it. -/
def initWithAttributedString (blank : CachedDictionary D) (source : AttributedString D) :
    TextM D Unit := do
  setAttributesFrom blank source
  modify fun f => { f with textChars := source.string }

/-! ## `setAttributes:range:` -/

/-- Find the first run that extends beyond the range and make it end (or begin) there. Returns the
location where the new attributes begin and the slot where the next loop starts. -/
def locateFollowing (attributes : CachedDictionary D) (range : NSRange) (tmpLength : Nat) :
    TextM D (Nat × Nat) := do
  let afterRangeLoc := range.max
  if afterRangeLoc < tmpLength then
    let (attrs, effectiveRange, arrayIndex) ← lookupM afterRangeLoc tmpLength
    if attrs = attributes then
      -- the located run already has the attributes: take it into the range
      return (min effectiveRange.location range.location, arrayIndex)
    else if range.location < effectiveRange.location then
      setLoc arrayIndex afterRangeLoc
      return (range.location, unsignedPred arrayIndex)
    else if afterRangeLoc < effectiveRange.max then
      -- the located run starts before the range: its tail becomes a run of its own
      let copy ← cacheM attrs.contents
      insertAt ⟨afterRangeLoc, copy⟩ (arrayIndex + 1)
      return (range.location, arrayIndex)
    else
      return (range.location, arrayIndex)
  else
    return (range.location, (← get).infoArray.length - 1)

/-- Remove the runs completely inside the range, walking down from `arrayIndex`. -/
def removeWithin (beginRangeLoc : Nat) : Nat → TextM D Nat
  | 0 => pure 0
  | i + 1 => do
    let info ← objectAt i
    if info.loc < beginRangeLoc then pure (i + 1)
    else
      removeAt (i + 1)
      removeWithin beginRangeLoc i

/-- Write the attributes into the current slot if it begins in the range, else into a new one. -/
def useSlot (attributes : CachedDictionary D) (beginRangeLoc arrayIndex : Nat) : TextM D Unit := do
  let info ← objectAt arrayIndex
  if beginRangeLoc ≤ info.loc then
    setLoc arrayIndex beginRangeLoc
    if info.attrs = attributes then unCacheM attributes
    else
      unCacheM info.attrs
      setAttrs arrayIndex attributes
  else if info.attrs = attributes then unCacheM attributes
  else insertAt ⟨beginRangeLoc, attributes⟩ (arrayIndex + 1)

def setAttributes (blank : CachedDictionary D) (attributes : Option D) (range : NSRange) :
    TextM D Unit := do
  if range.length = 0 then return ()
  let attributes ← cacheM (attributes.getD blank.contents)
  let tmpLength := (← get).textChars.length
  rangeCheck range tmpLength
  let (beginRangeLoc, arrayIndex) ← locateFollowing attributes range tmpLength
  let arrayIndex ← removeWithin beginRangeLoc arrayIndex
  useSlot attributes beginRangeLoc arrayIndex

/-! ## `replaceCharactersInRange:withString:` -/

/-- The loop that drops the runs enclosed in the replaced range. `remaining` is the number of runs
after `arrayIndex`; the result is how many are left. -/
def removeEnclosed (range : NSRange) (arrayIndex : Nat) : Nat → TextM D Nat
  | 0 => pure 0
  | remaining + 1 => do
    let n ← objectAt (arrayIndex + 1)
    if n.loc ≤ range.max then
      removeAt arrayIndex
      removeEnclosed range arrayIndex remaining
    else pure (remaining + 1)

/-- Drop the enclosed runs and let the one that extends beyond the range start at its end.
Returns the new size of the array. -/
def trimEnclosed (range : NSRange) (arrayIndex arraySize : Nat) : TextM D Nat := do
  let info ← objectAt arrayIndex
  let arraySize ← if info.loc < range.max then do
      let remaining ← removeEnclosed range arrayIndex (arraySize - (arrayIndex + 1))
      pure (arrayIndex + 1 + remaining)
    else pure arraySize
  if range.max < (← get).textChars.length then
    setLoc arrayIndex range.max
    return arraySize
  else
    removeAt arrayIndex
    return arraySize - 1

/-- Nothing to trim when the run in use reaches the end of the range. -/
def trimReplaced (effectiveRange range : NSRange) (arrayIndex arraySize : Nat) : TextM D Nat :=
  if effectiveRange.max < range.max then trimEnclosed range arrayIndex arraySize
  else pure arraySize

/-- A run that covers exactly the deleted range goes; the last run of an emptied text becomes blank.
Returns the slot from which locations move, and the size. -/
def removeExact (blank : CachedDictionary D) (range : NSRange) (start tmpLength arraySize : Nat) :
    TextM D (Nat × Nat) := do
  let (_, effectiveRange, arrayIndex) ← lookupM start tmpLength
  if effectiveRange.location = range.location ∧ effectiveRange.length = range.length then
    if arrayIndex ≠ 0 ∨ 1 < arraySize then
      removeAt arrayIndex
      return (arrayIndex, arraySize - 1)
    else
      let info ← objectAt 0
      unCacheM info.attrs
      let d ← cacheM blank.contents
      setAttrs 0 d
      setLoc 0 range.max
      return (arrayIndex, arraySize)
  else return (arrayIndex + 1, arraySize)

/-- Only a replacement by the empty string can leave a run without characters. -/
def removeEmptied (blank : CachedDictionary D) (range : NSRange) (moveLocations : Int)
    (start tmpLength arrayIndex arraySize : Nat) : TextM D (Nat × Nat) :=
  if moveLocations + range.length = 0 then removeExact blank range start tmpLength arraySize
  else pure (arrayIndex, arraySize)

/-- `info->loc += moveLocations` for the runs from `arrayIndex` on. -/
def moveFollowing (arrayIndex : Nat) (moveLocations : Int) : TextM D Unit :=
  modify fun f => { f with
    infoArray := f.infoArray.take arrayIndex ++ (f.infoArray.drop arrayIndex).map
      fun info => { info with loc := (info.loc + moveLocations).toNat } }

/-- `[_textChars replaceCharactersInRange: range withString: aString]` -/
def replaceText (range : NSRange) (aString : List UInt16) : TextM D Unit :=
  modify fun f => { f with
    textChars := f.textChars.take range.location ++ aString ++ f.textChars.drop range.max }

/-- The character whose attributes the replacement string gets. -/
def replacementStart (range : NSRange) : Nat :=
  if range.length = 0 ∧ 0 < range.location then range.location - 1 else range.location

def replaceCharactersInRange (blank : CachedDictionary D) (range : NSRange)
    (aString : Option (List UInt16)) : TextM D Unit := do
  let aString := aString.getD []
  let tmpLength := (← get).textChars.length
  rangeCheck range tmpLength
  if range.location = tmpLength then
    modify fun f => { f with textChars := f.textChars ++ aString }
  else
    let arraySize := (← get).infoArray.length
    if arraySize = 1 then replaceText range aString
    else
      let start := replacementStart range
      let (_, effectiveRange, arrayIndex) ← lookupM start tmpLength
      let moveLocations : Int := aString.length - range.length
      let arraySize ← trimReplaced effectiveRange range (arrayIndex + 1) arraySize
      let (arrayIndex, _) ←
        removeEmptied blank range moveLocations start tmpLength (arrayIndex + 1) arraySize
      moveFollowing arrayIndex moveLocations
      replaceText range aString

/-! ## Many storages sharing one cache -/

structure TextWorld (D : Type) where
  cache : AttributeCache D
  blank : CachedDictionary D
  storages : List (Option (GSTextStorage D))

/-- A call on the `n`-th object created; an index without a live object makes the call a no-op. -/
inductive TextCall (D : Type)
  | initWithString (aString : Option (List UInt16)) (attributes : Option D)
  | initWithAttributedString (source : AttributedString D)
  | setAttributes (storage : Nat) (attributes : Option D) (range : NSRange)
  | replaceCharacters (storage : Nat) (range : NSRange) (aString : Option (List UInt16))
  | dealloc (storage : Nat)

namespace TextWorld

/-- `_setup`: the blank dictionary is cached and never uncached. -/
def setup (emptyDictionary : D) : TextWorld D :=
  let (blank, cache) := cacheAttributes emptyDictionary AttributeCache.empty
  ⟨cache, blank, []⟩

def storageAt (w : TextWorld D) (n : Nat) : Option (GSTextStorage D) := (w.storages[n]?).join

/-- Send a new object its initialiser. -/
def create (w : TextWorld D) (method : TextM D Unit) : TextWorld D × Option TextException :=
  match method ⟨w.cache, [], []⟩ with
  | .ok _ f => ({ w with
      cache := f.cache, storages := w.storages ++ [some ⟨f.textChars, f.infoArray⟩] }, none)
  | .error e f => ({ w with cache := f.cache, storages := w.storages ++ [none] }, some e)

/-- Send a message to a live object. -/
def send (w : TextWorld D) (n : Nat) (method : TextM D Unit) : TextWorld D × Option TextException :=
  match w.storageAt n with
  | none => (w, none)
  | some s =>
    let resume (f : Frame D) : TextWorld D :=
      { w with cache := f.cache, storages := w.storages.set n (some ⟨f.textChars, f.infoArray⟩) }
    match method ⟨w.cache, s.infoArray, s.textChars⟩ with
    | .ok _ f => (resume f, none)
    | .error e f => (resume f, some e)

/-- Releasing `_infoArray` deallocates the runs, and each uncaches its dictionary. -/
def dealloc (w : TextWorld D) (n : Nat) : TextWorld D :=
  match w.storageAt n with
  | none => w
  | some s => { w with
      cache := s.infoArray.foldl (fun c info => unCacheAttributes info.attrs c) w.cache
      storages := w.storages.set n none }

def perform (w : TextWorld D) : TextCall D → TextWorld D × Option TextException
  | .initWithString aString attributes => w.create (initWithString w.blank aString attributes)
  | .initWithAttributedString source => w.create (initWithAttributedString w.blank source)
  | .setAttributes n attributes range => w.send n (TextStorage.setAttributes w.blank attributes range)
  | .replaceCharacters n range aString => w.send n (replaceCharactersInRange w.blank range aString)
  | .dealloc n => (w.dealloc n, none)

def run (w : TextWorld D) (calls : List (TextCall D)) : TextWorld D :=
  calls.foldl (fun w call => (w.perform call).1) w

end TextWorld

end GnustepGui.TextStorage
