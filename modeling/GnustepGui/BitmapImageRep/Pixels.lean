import GnustepGui.Library.ByteStore
import Mathlib.Data.List.Basic
import Mathlib.Data.Nat.Bitwise

/-!
# The pixels of `NSBitmapImageRep`

`getPixel:atX:y:` and `setPixel:atX:y:` with the bit fields that they read and write
(`_get_bit_value`, `_set_bit_value`). The memory of the image planes is partial: an access where there
is no byte gives none, so that a result says that no other byte has been read or written.
-/

namespace GnustepGui.BitmapImageRep

/-- The bytes at the addresses of each image plane. -/
abbrev Planes := ByteStore Nat

/-! ## Bit fields -/

/-- Here we extract a value a given number of bits wide from a bit offset into a block of memory starting
at `base`. -/
def getBitValue (planes : Planes) (plane base msbOff bitWidth : Nat) (bigEndian : Bool) : Option (BitVec 32) :=
  if bitWidth = 16 then do
    let byte1 := msbOff / 8
    let byte2 := byte1 + 1
    let at1 ← planes plane (base + byte1)
    let at2 ← planes plane (base + byte2)
    let value : BitVec 16 :=
      if bigEndian then at2.setWidth 16 ||| (at1.setWidth 16 <<< 8) else at1.setWidth 16 ||| (at2.setWidth 16 <<< 8)
    some (value.setWidth 32)
  else if bitWidth = 32 then some 0
  else do
    let lsbOff := msbOff + bitWidth - 1
    let byte1 := msbOff / 8
    let byte2 := lsbOff / 8
    let shift := 7 - lsbOff % 8
    let at2 ← planes plane (base + byte2)
    let value : BitVec 32 := at2.setWidth 32
    let value ←
      if byte1 ≠ byte2 then do
        let at1 ← planes plane (base + byte1)
        some (value ||| (at1.setWidth 32 <<< 8))
      else some value
    some ((value >>> shift) &&& BitVec.ofNat 32 ((1 <<< bitWidth) - 1))

def setBitValue (planes : Planes) (plane base msbOff bitWidth : Nat) (bigEndian : Bool) (value : BitVec 32) :
    Option Planes :=
  if bitWidth = 16 then do
    let byte1 := msbOff / 8
    let byte2 := byte1 + 1
    let value16 : BitVec 16 := value.setWidth 16
    if bigEndian then do
      let planes ← planes.store plane (base + byte1) ((value16 >>> 8).setWidth 8)
      planes.store plane (base + byte2) ((value16 &&& 255).setWidth 8)
    else do
      let planes ← planes.store plane (base + byte2) ((value16 >>> 8).setWidth 8)
      planes.store plane (base + byte1) ((value16 &&& 255).setWidth 8)
  else if bitWidth = 32 then some planes
  else do
    let lsbOff := msbOff + bitWidth - 1
    let byte1 := msbOff / 8
    let byte2 := lsbOff / 8
    let shift := 7 - lsbOff % 8
    let value := (value &&& BitVec.ofNat 32 ((1 <<< bitWidth) - 1)) <<< shift
    let all : BitVec 32 := BitVec.ofNat 32 ((1 <<< bitWidth) - 1) <<< shift
    let planes ←
      if byte1 ≠ byte2 then do
        let at1 ← planes plane (base + byte1)
        planes.store plane (base + byte1) (((value >>> 8) ||| (at1.setWidth 32 &&& ~~~(all >>> 8))).setWidth 8)
      else some planes
    let at2 ← planes plane (base + byte2)
    planes.store plane (base + byte2) (((value &&& 255) ||| (at2.setWidth 32 &&& ~~~(all &&& 255))).setWidth 8)

/-! ## Pixels -/

/-- The flags of the format that are read here. -/
structure NSBitmapFormat where
  alphaFirst : Bool
  alphaNonpremultiplied : Bool
  sixteenBitLittleEndian : Bool
  sixteenBitBigEndian : Bool
  deriving DecidableEq, Repr

/-- The instance variables of a bitmap but for its planes. An image without samples, bits, rows or columns
is not initialised. -/
structure BitmapLayout where
  pixelsWide : Nat
  pixelsHigh : Nat
  bitsPerSample : Nat
  numColors : Nat
  hasAlpha : Bool
  isPlanar : Bool
  format : NSBitmapFormat
  bytesPerRow : Nat
  bitsPerPixel : Nat
  /-- `NSHostByteOrder() == NS_BigEndian` -/
  hostBigEndian : Bool
  pixelsWide_pos : 0 < pixelsWide
  pixelsHigh_pos : 0 < pixelsHigh
  bitsPerSample_pos : 0 < bitsPerSample
  numColors_pos : 0 < numColors

namespace BitmapLayout

/-- Which byte of a sample of 16 bits is the upper one. -/
def bigEndian (L : BitmapLayout) : Bool :=
  (L.hostBigEndian && !L.format.sixteenBitLittleEndian) || (!L.hostBigEndian && L.format.sixteenBitBigEndian)

/-- The `i`th sample of a pixel, where a loop of `getPixel:atX:y:` reads it. -/
def getSample (L : BitmapLayout) (planes : Planes) (x y i : Nat) : Option (BitVec 32) :=
  let lineOffset := L.bytesPerRow * y
  if L.isPlanar then
    if L.bitsPerSample = 8 then (planes i (x + lineOffset)).map fun byte => byte.setWidth 32
    else getBitValue planes i lineOffset (L.bitsPerPixel * x) L.bitsPerSample L.bigEndian
  else
    if L.bitsPerSample = 8 then
      (planes 0 ((L.bitsPerPixel * x) / 8 + lineOffset + i)).map fun byte => byte.setWidth 32
    else getBitValue planes 0 lineOffset (L.bitsPerPixel * x + i * L.bitsPerSample) L.bitsPerSample L.bigEndian

/-- The `i`th sample of a pixel, where a loop of `setPixel:atX:y:` writes it. -/
def setSample (L : BitmapLayout) (planes : Planes) (x y i : Nat) (value : Nat) : Option Planes :=
  let lineOffset := L.bytesPerRow * y
  if L.isPlanar then
    if L.bitsPerSample = 8 then planes.store i (x + lineOffset) (BitVec.ofNat 8 value)
    else
      setBitValue planes i lineOffset (L.bitsPerPixel * x) L.bitsPerSample L.bigEndian (BitVec.ofNat 32 value)
  else
    if L.bitsPerSample = 8 then
      planes.store 0 ((L.bitsPerPixel * x) / 8 + lineOffset + i) (BitVec.ofNat 8 value)
    else
      setBitValue planes 0 lineOffset (L.bitsPerPixel * x + i * L.bitsPerSample) L.bitsPerSample L.bigEndian
        (BitVec.ofNat 32 value)

/-- `getPixel:atX:y:`, which leaves `pixelData` as it is for a place outside. -/
def getPixel (L : BitmapLayout) (planes : Planes) (pixelData : List Nat) (x y : Int) : Option (List Nat) :=
  if x < 0 ∨ y < 0 ∨ x ≥ L.pixelsWide ∨ y ≥ L.pixelsHigh then some pixelData
  else (List.range L.numColors).mapM fun i => (L.getSample planes x.toNat y.toNat i).map BitVec.toNat

/-- `setPixel:atX:y:` -/
def setPixel (L : BitmapLayout) (planes : Planes) (pixelData : List Nat) (x y : Int) : Option Planes :=
  if x < 0 ∨ y < 0 ∨ x ≥ L.pixelsWide ∨ y ≥ L.pixelsHigh then some planes
  else
    (List.range L.numColors).foldlM
      (fun planes i => do
        let value ← pixelData[i]?
        L.setSample planes x.toNat y.toNat i value)
      planes

end BitmapLayout

end GnustepGui.BitmapImageRep
