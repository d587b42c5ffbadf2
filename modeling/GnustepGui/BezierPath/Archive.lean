import GnustepGui.BezierPath.Path
import Mathlib.Data.BitVec

/-!
# Archiving a path

`encodeWithCoder:` and `initWithCoder:` in the two formats. A keyed coder holds one value for each
key, the elements as a block of bytes; an unkeyed coder holds a sequence of typed values. A decoding
method that raises gives `none`.
-/

namespace GnustepGui.BezierPath

variable {α : Type}

/-- The conversions of C between `CGFloat` and `float`; a `float` is its bit pattern. -/
structure FloatConversion (α : Type) where
  narrow : α → BitVec 32
  widen : BitVec 32 → α

/-- The value survives the way through a `float`. -/
def FloatConversion.Representable (conv : FloatConversion α) (x : α) : Prop :=
  conv.widen (conv.narrow x) = x

/-! ## Serialised bytes -/

/-- `serializeDataAt:ofObjCType:context:` of a `float`: big-endian. -/
def serializeFloat (f : BitVec 32) : List UInt8 :=
  [⟨f.extractLsb' 24 8⟩, ⟨f.extractLsb' 16 8⟩, ⟨f.extractLsb' 8 8⟩, ⟨f.extractLsb' 0 8⟩]

def serializePoint (conv : FloatConversion α) (p : NSPoint α) : List UInt8 :=
  serializeFloat (conv.narrow p.x) ++ serializeFloat (conv.narrow p.y)

def serializeType (type : NSBezierPathElement) : List UInt8 := [UInt8.ofNat type.rawValue]

/-- `deserializeDataAt:ofObjCType:atCursor:context:` of a `char`; raises beyond the end of the data. -/
def deserializeChar (data : List UInt8) (cursor : UInt32) : Option (UInt8 × UInt32) :=
  match data.drop cursor.toNat with
  | c :: _ => some (c, cursor + 1)
  | [] => none

def deserializeFloat (data : List UInt8) (cursor : UInt32) : Option (BitVec 32 × UInt32) :=
  match data.drop cursor.toNat with
  | b₃ :: b₂ :: b₁ :: b₀ :: _ =>
    some ((b₃.toBitVec ++ b₂.toBitVec) ++ (b₁.toBitVec ++ b₀.toBitVec), cursor + 4)
  | _ => none

/-- Two floats that make a point. -/
def deserializePoint (conv : FloatConversion α) (data : List UInt8) (cursor : UInt32) :
    Option (NSPoint α × UInt32) := do
  let (f, cursor) ← deserializeFloat data cursor
  let (g, cursor) ← deserializeFloat data cursor
  some (⟨conv.widen f, conv.widen g⟩, cursor)

/-! ## The keyed format -/

inductive KeyedValue
  | float (f : BitVec 32)
  | int (i : UInt32)
  | bytes (data : List UInt8)
deriving DecidableEq, Repr

abbrev KeyedArchive := List (String × KeyedValue)

/-- What the keyed format holds for an element of a type, with its associated points. -/
def segmentBytes (conv : FloatConversion α) (type : NSBezierPathElement) (pts : AssociatedPoints α) :
    List UInt8 :=
  match type with
  | .moveTo => serializeType type ++ serializePoint conv pts.p0
  | .lineTo => serializeType type ++ serializePoint conv pts.p0
  | .curveTo =>
    serializeType type ++ serializePoint conv pts.p0 ++ serializeType type ++
      serializePoint conv pts.p1 ++ serializeType type ++ serializePoint conv pts.p2
  | .closePath =>
    serializeType type ++ serializePoint conv pts.p0 ++ serializeType type ++
      serializePoint conv pts.p0

/-- The loop over the elements, `n` of them from `i` on. -/
def encodeSegments (conv : FloatConversion α) (elements : List (PathElement α)) :
    (n i : Nat) → AssociatedPoints α → List UInt8
  | 0, _, _ => []
  | n + 1, i, pts =>
    match elementAtIndex elements i pts with
    | none => []
    | some (type, pts) => segmentBytes conv type pts ++ encodeSegments conv elements n (i + 1) pts

/-- `encodeWithCoder:` with a coder that allows keyed coding; `pts` is the uninitialised array. -/
def encodeKeyed (conv : FloatConversion α) (pts : AssociatedPoints α) (self : NSBezierPath α) :
    KeyedArchive :=
  [("NSFlatness", .float (conv.narrow self.flatness)),
    ("NSLineWidth", .float (conv.narrow self.lineWidth)),
    ("NSLineCapStyle", .int self.lineCapStyle),
    ("NSLineJoinStyle", .int self.lineJoinStyle),
    ("NSWindingRule", .int self.windingRule),
    ("NSMiterLimit", .float (conv.narrow self.miterLimit)),
    ("NSSegments", .bytes (encodeSegments conv self.pathElements self.elementCount 0 pts))]

/-- `containsValueForKey:` and `decodeFloatForKey:`, and the setter that gets the value. -/
def decodeFloatForKey (conv : FloatConversion α) (archive : KeyedArchive) (key : String)
    (set : NSBezierPath α → α → NSBezierPath α) (self : NSBezierPath α) : Option (NSBezierPath α) :=
  match archive.lookup key with
  | none => some self
  | some (.float f) => some (set self (conv.widen f))
  | some _ => none

def decodeIntForKey (archive : KeyedArchive) (key : String)
    (set : NSBezierPath α → UInt32 → NSBezierPath α) (self : NSBezierPath α) :
    Option (NSBezierPath α) :=
  match archive.lookup key with
  | none => some self
  | some (.int i) => some (set self i)
  | some _ => none

/-- One turn of the loop over `NSSegments`; an unknown type is skipped. -/
def decodeSegment (conv : FloatConversion α) (data : List UInt8) (cursor : UInt32)
    (self : NSBezierPath α) : Option (UInt32 × NSBezierPath α) := do
  let (c, cursor) ← deserializeChar data cursor
  match NSBezierPathElement.ofRawValue c.toNat with
  | some .moveTo =>
    let (p, cursor) ← deserializePoint conv data cursor
    some (cursor, self.moveToPoint p)
  | some .lineTo =>
    let (p, cursor) ← deserializePoint conv data cursor
    some (cursor, self.lineToPoint p)
  | some .curveTo =>
    let (cp1, cursor) ← deserializePoint conv data cursor
    let (_, cursor) ← deserializeChar data cursor
    let (cp2, cursor) ← deserializePoint conv data cursor
    let (_, cursor) ← deserializeChar data cursor
    let (p, cursor) ← deserializePoint conv data cursor
    some (cursor, self.curveToPoint p cp1 cp2)
  | some .closePath =>
    let (_, cursor) ← deserializePoint conv data cursor
    let (_, cursor) ← deserializeChar data cursor
    let (_, cursor) ← deserializePoint conv data cursor
    some (cursor, self.closePath)
  | none => some (cursor, self)

/-- `while (cursor < length)`, for at most `fuel` turns: the cursor is an `unsigned int` and may
never get to the end. -/
def decodeSegments (conv : FloatConversion α) (data : List UInt8) :
    (fuel : Nat) → UInt32 → NSBezierPath α → Option (NSBezierPath α)
  | 0, _, _ => none
  | fuel + 1, cursor, self =>
    if cursor.toNat < data.length then
      match decodeSegment conv data cursor self with
      | none => none
      | some (cursor, self) => decodeSegments conv data fuel cursor self
    else some self

/-- `initWithCoder:` with a coder that allows keyed coding. -/
def initKeyed (conv : FloatConversion α) (d : Defaults α) (archive : KeyedArchive) (fuel : Nat) :
    Option (NSBezierPath α) := do
  let self ← decodeFloatForKey conv archive "NSFlatness" .setFlatness (.init d)
  let self ← decodeFloatForKey conv archive "NSLineWidth" .setLineWidth self
  let self ← decodeIntForKey archive "NSLineCapStyle" .setLineCapStyle self
  let self ← decodeIntForKey archive "NSLineJoinStyle" .setLineJoinStyle self
  let self ← decodeIntForKey archive "NSWindingRule" .setWindingRule self
  let self ← decodeFloatForKey conv archive "NSMiterLimit" .setMiterLimit self
  match archive.lookup "NSSegments" with
  | none => some self
  | some (.bytes data) => decodeSegments conv data fuel 0 self
  | some _ => none

/-! ## The unkeyed format -/

inductive TypedValue (α : Type)
  | float (f : BitVec 32)
  | int (i : UInt32)
  | bool (b : Bool)
  | point (p : NSPoint α)
deriving DecidableEq, Repr

structure Archive (α : Type) where
  version : Nat
  values : List (TypedValue α)
deriving DecidableEq, Repr

/-- What the unkeyed format holds for an element. -/
def elementValues (type : NSBezierPathElement) (pts : AssociatedPoints α) : List (TypedValue α) :=
  .int (UInt32.ofNat type.rawValue) ::
    match type with
    | .moveTo => [.point pts.p0]
    | .lineTo => [.point pts.p0]
    | .curveTo => [.point pts.p0, .point pts.p1, .point pts.p2]
    | .closePath => []

def encodeElements (elements : List (PathElement α)) :
    (n i : Nat) → AssociatedPoints α → List (TypedValue α)
  | 0, _, _ => []
  | n + 1, i, pts =>
    match elementAtIndex elements i pts with
    | none => []
    | some (type, pts) => elementValues type pts ++ encodeElements elements n (i + 1) pts

/-- How often `for (i = 0; i < count; i++)` turns, for a `count` of type `int`. -/
def intTurns (count : UInt32) : Nat := count.toBitVec.toInt.toNat

/-- The class has version 2 since `initialize`. -/
def classVersion : Nat := 2

/-- `encodeWithCoder:` with a coder that does not allow keyed coding. -/
def encodeUnkeyed (conv : FloatConversion α) (pts : AssociatedPoints α) (self : NSBezierPath α) :
    Archive α where
  version := classVersion
  values :=
    let count := UInt32.ofNat self.elementCount
    [.float (conv.narrow self.lineWidth), .int self.lineCapStyle, .int self.lineJoinStyle,
      .int self.windingRule, .bool self.cachesBezierPath, .float (conv.narrow self.flatness),
      .float (conv.narrow self.miterLimit), .int count] ++
      encodeElements self.pathElements (intTurns count) 0 pts

/-- Reads the values of an archive one after the other; a value of another type raises. -/
abbrev Unarchiver (α : Type) := StateT (List (TypedValue α)) Option

namespace Unarchiver

def float : Unarchiver α (BitVec 32)
  | .float f :: values => some (f, values)
  | _ => none

def int : Unarchiver α UInt32
  | .int i :: values => some (i, values)
  | _ => none

def bool : Unarchiver α Bool
  | .bool b :: values => some (b, values)
  | _ => none

def point : Unarchiver α (NSPoint α)
  | .point p :: values => some (p, values)
  | _ => none

end Unarchiver

/-- One turn of the loop over the elements; an unknown type is skipped. -/
def decodeElement (self : NSBezierPath α) : Unarchiver α (NSBezierPath α) := do
  let type ← Unarchiver.int
  match NSBezierPathElement.ofRawValue type.toNat with
  | some .moveTo =>
    let p ← Unarchiver.point
    return self.moveToPoint p
  | some .lineTo =>
    let p ← Unarchiver.point
    return self.lineToPoint p
  | some .curveTo =>
    let cp1 ← Unarchiver.point
    let cp2 ← Unarchiver.point
    let p ← Unarchiver.point
    return self.curveToPoint p cp1 cp2
  | some .closePath => return self.closePath
  | none => return self

def decodeElements : (n : Nat) → NSBezierPath α → Unarchiver α (NSBezierPath α)
  | 0, self => return self
  | n + 1, self => do
    let self ← decodeElement self
    decodeElements n self

/-- The values that version 2 added. -/
def decodeVersion2 (conv : FloatConversion α) (version : Nat) (self : NSBezierPath α) :
    Unarchiver α (NSBezierPath α) :=
  if 2 ≤ version then do
    let flatness ← Unarchiver.float
    let miterLimit ← Unarchiver.float
    return (self.setFlatness (conv.widen flatness)).setMiterLimit (conv.widen miterLimit)
  else return self

def decodeValues (conv : FloatConversion α) (version : Nat) (self : NSBezierPath α) :
    Unarchiver α (NSBezierPath α) := do
  let lineWidth ← Unarchiver.float
  let lineCapStyle ← Unarchiver.int
  let lineJoinStyle ← Unarchiver.int
  let windingRule ← Unarchiver.int
  let caches ← Unarchiver.bool
  let self := (((self.setLineWidth (conv.widen lineWidth)).setLineCapStyle lineCapStyle).setLineJoinStyle
    lineJoinStyle).setWindingRule windingRule
  let self ← decodeVersion2 conv version { self with cachesBezierPath := caches }
  let count ← Unarchiver.int
  decodeElements (intTurns count) self

/-- `initWithCoder:` with a coder that does not allow keyed coding. -/
def initUnkeyed (conv : FloatConversion α) (d : Defaults α) (archive : Archive α) :
    Option (NSBezierPath α) :=
  ((decodeValues conv archive.version (.init d)).run archive.values).map Prod.fst

end GnustepGui.BezierPath
