import Mathlib

/-!
# The ICNS reader of `NSBitmapImageRep`

The drop-in replacement for libicns. Memory is a list of bytes and a pointer an index into it. Every
access goes through a function that gives `none` where it would lie outside, and `none` is passed on;
a C function that returns the error status 1 gives `some none`.
-/

namespace GnustepGui.BitmapImageRep.ICNS

/-- The result of code that accesses memory: `none` if an access lies outside. -/
abbrev Checked (α : Type) := Option α

/-! ## Memory -/

def readByte (bytes : List UInt8) (i : Nat) : Checked UInt8 := bytes[i]?

def writeByte (bytes : List UInt8) (i : Nat) (v : UInt8) : Checked (List UInt8) :=
  if i < bytes.length then some (bytes.set i v) else none

/-- `icns_type_t`: four characters. -/
abbrev IconType := List UInt8

def readType (bytes : List UInt8) (i : Nat) : Checked IconType :=
  if i + 4 ≤ bytes.length then some ((bytes.drop i).take 4) else none

/-- `icns_size_t`, as a little-endian host has it in memory. -/
def readWord (bytes : List UInt8) (i : Nat) : Checked Nat :=
  match bytes.drop i with
  | b₀ :: b₁ :: b₂ :: b₃ :: _ =>
    some (b₀.toNat + 2 ^ 8 * b₁.toNat + 2 ^ 16 * b₂.toNat + 2 ^ 24 * b₃.toNat)
  | _ => none

def wordBytes (w : Nat) : List UInt8 :=
  [UInt8.ofNat w, UInt8.ofNat (w / 2 ^ 8), UInt8.ofNat (w / 2 ^ 16), UInt8.ofNat (w / 2 ^ 24)]

def writeWord (bytes : List UInt8) (i w : Nat) : Checked (List UInt8) :=
  if i + 4 ≤ bytes.length then some (bytes.take i ++ wordBytes w ++ bytes.drop (i + 4)) else none

/-- `NSSwapBigIntToHost` -/
def swapBigIntToHost (w : Nat) : Nat :=
  2 ^ 24 * (w % 2 ^ 8) + 2 ^ 16 * (w / 2 ^ 8 % 2 ^ 8) + 2 ^ 8 * (w / 2 ^ 16 % 2 ^ 8) + w / 2 ^ 24 % 2 ^ 8

/-- `malloc`: memory with any contents. -/
def malloc (junk : Nat → UInt8) (n : Nat) : List UInt8 := (List.range n).map junk

/-! ## Types -/

def ICNS_16x16_32BIT_DATA : IconType := [0x69, 0x73, 0x33, 0x32]
def ICNS_32x32_32BIT_DATA : IconType := [0x69, 0x6c, 0x33, 0x32]
def ICNS_48x48_32BIT_DATA : IconType := [0x69, 0x68, 0x33, 0x32]
def ICNS_128X128_32BIT_DATA : IconType := [0x69, 0x74, 0x33, 0x32]
def ICNS_16x16_8BIT_MASK : IconType := [0x73, 0x38, 0x6d, 0x6b]
def ICNS_32x32_8BIT_MASK : IconType := [0x6c, 0x38, 0x6d, 0x6b]
def ICNS_48x48_8BIT_MASK : IconType := [0x68, 0x38, 0x6d, 0x6b]
def ICNS_128X128_8BIT_MASK : IconType := [0x74, 0x38, 0x6d, 0x6b]
def ICNS_FAMILY_TYPE : IconType := [0x69, 0x63, 0x6e, 0x73]
def ICNS_NULL_TYPE : IconType := [0, 0, 0, 0]

def ICNS_HEADER_SIZE : Nat := 8

/-- `icns_types_equal`: `strncmp` stops at the first zero. -/
def typesEqual : IconType → IconType → Bool
  | a :: as, b :: bs => a == b && (a == 0 || typesEqual as bs)
  | _, _ => true

def getMaskTypeForIconType (type : IconType) : IconType :=
  if typesEqual type ICNS_16x16_32BIT_DATA then ICNS_16x16_8BIT_MASK
  else if typesEqual type ICNS_32x32_32BIT_DATA then ICNS_32x32_8BIT_MASK
  else if typesEqual type ICNS_48x48_32BIT_DATA then ICNS_48x48_8BIT_MASK
  else if typesEqual type ICNS_128X128_32BIT_DATA then ICNS_128X128_8BIT_MASK
  else ICNS_NULL_TYPE

structure IconInfo where
  iconHeight : Nat
  iconWidth : Nat
  iconDepth : Nat
  iconChannels : Nat
deriving DecidableEq, Repr

def getImageInfoForType (type : IconType) : IconInfo :=
  if typesEqual type ICNS_16x16_32BIT_DATA then ⟨16, 16, 8, 4⟩
  else if typesEqual type ICNS_32x32_32BIT_DATA then ⟨32, 32, 8, 4⟩
  else if typesEqual type ICNS_48x48_32BIT_DATA then ⟨48, 48, 8, 4⟩
  else if typesEqual type ICNS_128X128_32BIT_DATA then ⟨128, 128, 8, 4⟩
  else ⟨0, 0, 0, 0⟩

/-! ## The family -/

/-- `icns_family_t` as a block of memory, whose length is its `resourceSize`. -/
abbrev Family := List UInt8

/-- The loop of `icns_import_family_data` over the data: where the family starts. `fuel` is at least
the distance to the end, and every turn makes it smaller. -/
def findFamily (bytes : List UInt8) (size : Int) : (fuel data : Nat) → Checked (Option Nat)
  | 0, _ => some none
  | fuel + 1, data =>
    if (data : Int) < size then do
      let resourceSize ← readWord bytes (data + 4)
      if resourceSize = 0 then some none
      else
        let resourceType ← readType bytes data
        if typesEqual resourceType ICNS_FAMILY_TYPE then some (some data)
        else findFamily bytes size fuel (data + swapBigIntToHost resourceSize)
    else some none

/-- The loop that brings the element sizes of the copy into host order. -/
def swapSizes : (fuel data : Nat) → Family → Checked Family
  | 0, _, family => some family
  | fuel + 1, data, family =>
    if data < family.length then do
      let elementSize ← readWord family (data + 4)
      if elementSize = 0 then some family
      else
        let family ← writeWord family (data + 4) (swapBigIntToHost elementSize)
        swapSizes fuel (data + swapBigIntToHost elementSize) family
    else some family

/-- `icns_import_family_data`; `size` is an `int`. -/
def importFamilyData (size : Int) (bytes : List UInt8) : Checked (Option Family) := do
  match ← findFamily bytes size size.toNat 0 with
  | none => some none
  | some element =>
    let elementSize ← readWord bytes (element + 4)
    let el_size := swapBigIntToHost elementSize
    if el_size < ICNS_HEADER_SIZE ∨ (el_size : Int) > size - element then some none
    else
      let resourceType ← readType bytes element
      let header ← writeWord (resourceType ++ [0, 0, 0, 0]) 4 el_size
      if element + el_size ≤ bytes.length then
        let family := header ++ (bytes.drop (element + ICNS_HEADER_SIZE)).take (el_size - ICNS_HEADER_SIZE)
        let family ← swapSizes el_size ICNS_HEADER_SIZE family
        some (some family)
      else none

structure Element where
  offset : Nat
  elementSize : Nat
deriving DecidableEq, Repr

/-- The loop of `icns_get_element_from_family`, which goes on up to `resourceSize` behind the header. -/
def findElement (family : Family) (iconType : IconType) : (fuel data : Nat) → Checked (Option Element)
  | 0, _ => some none
  | fuel + 1, data =>
    if data < ICNS_HEADER_SIZE + family.length then do
      let elementSize ← readWord family (data + 4)
      if elementSize = 0 then some none
      else
        let elementType ← readType family data
        if typesEqual elementType iconType then some (some ⟨data, elementSize⟩)
        else findElement family iconType fuel (data + elementSize)
    else some none

/-- `icns_get_element_from_family` -/
def getElementFromFamily (family : Family) (iconType : IconType) : Checked (Option Element) :=
  findElement family iconType family.length ICNS_HEADER_SIZE

/-! ## Decoding -/

structure IconImage where
  imageWidth : Nat
  imageHeight : Nat
  imageChannels : Nat
  imagePixelDepth : Nat
  imageDataSize : Nat
  imageData : List UInt8

def initImage (junk : Nat → UInt8) (width height channels depth : Nat) : IconImage where
  imageWidth := width
  imageHeight := height
  imageChannels := channels
  imagePixelDepth := depth
  imageDataSize := height * width * depth * channels / 8
  imageData := malloc junk (height * width * depth * channels / 8)

def initImageForType (junk : Nat → UInt8) (type : IconType) : Option IconImage :=
  let info := getImageInfoForType type
  if info.iconChannels = 0 then none
  else some (initImage junk info.iconWidth info.iconHeight info.iconChannels info.iconDepth)

def samplesPerPixel : Nat := 4

/-- The loop of a compressed run. -/
def fillRun (val : UInt8) (size : Nat) : (n index : Nat) → List UInt8 → Checked (List UInt8)
  | 0, _, image => some image
  | n + 1, index, image =>
    if index < size then do
      let image ← writeByte image index val
      fillRun val size n (index + samplesPerPixel) image
    else some image

/-- The loop of an uncompressed run. -/
def copyRun (bytes : List UInt8) (stop size : Nat) :
    (n index b : Nat) → List UInt8 → Checked (Nat × List UInt8)
  | 0, _, b, image => some (b, image)
  | n + 1, index, b, image =>
    if index < size ∧ b < stop then do
      let v ← readByte bytes b
      let image ← writeByte image index v
      copyRun bytes stop size n (index + samplesPerPixel) (b + 1) image
    else some (b, image)

/-- The loop over the runs of a plane; every turn reads a byte, and `fuel` is at least `stop - b`. -/
def decodePlane (bytes : List UInt8) (stop size area plane : Nat) :
    (fuel offset b : Nat) → List UInt8 → Checked (Nat × List UInt8)
  | 0, _, b, image => some (b, image)
  | fuel + 1, offset, b, image =>
    if offset < area ∧ b < stop then do
      let bv ← readByte bytes b
      let index := samplesPerPixel * offset + plane
      if 128 ≤ bv.toNat then
        let runLen := bv.toNat - 125
        if b + 1 < stop then
          let val ← readByte bytes (b + 1)
          let image ← fillRun val size runLen index image
          decodePlane bytes stop size area plane fuel (offset + runLen) (b + 2) image
        else
          let image ← fillRun 0 size runLen index image
          decodePlane bytes stop size area plane fuel (offset + runLen) (b + 1) image
      else
        let runLen := bv.toNat + 1
        let (b, image) ← copyRun bytes stop size runLen index (b + 1) image
        decodePlane bytes stop size area plane fuel (offset + runLen) b image
    else some (b, image)

/-- The three planes of run-length data. -/
def decodePlanes (bytes : List UInt8) (stop size area b : Nat) (image : List UInt8) :
    Checked (List UInt8) := do
  let (b, image) ← decodePlane bytes stop size area 0 (stop - b) 0 b image
  let (b, image) ← decodePlane bytes stop size area 1 (stop - b) 0 b image
  let (_, image) ← decodePlane bytes stop size area 2 (stop - b) 0 b image
  some image

/-- The loop over uncompressed pixels, `n` of them from `j` on. -/
def copyPixels (bytes : List UInt8) : (n j b : Nat) → List UInt8 → Checked (List UInt8)
  | 0, _, _, image => some image
  | n + 1, j, b, image => do
    let v₀ ← readByte bytes b
    let image ← writeByte image (samplesPerPixel * j + 0) v₀
    let v₁ ← readByte bytes (b + 1)
    let image ← writeByte image (samplesPerPixel * j + 1) v₁
    let v₂ ← readByte bytes (b + 2)
    let image ← writeByte image (samplesPerPixel * j + 2) v₂
    copyPixels bytes n (j + 1) (b + 3) image

/-- The loop over the bytes of a mask. -/
def copyMask (bytes : List UInt8) (stop : Nat) : (n j b : Nat) → List UInt8 → Checked (List UInt8)
  | 0, _, _, image => some image
  | n + 1, j, b, image =>
    if b < stop then do
      let v ← readByte bytes b
      let image ← writeByte image (samplesPerPixel * j + 3) v
      copyMask bytes stop n (j + 1) (b + 1) image
    else some image

/-- The loop where there is no mask. -/
def fillMask : (n j : Nat) → List UInt8 → Checked (List UInt8)
  | 0, _, image => some image
  | n + 1, j, image => do
    let image ← writeByte image (samplesPerPixel * j + 3) 255
    fillMask n (j + 1) image

def IconImage.area (image : IconImage) : Nat := image.imageHeight * image.imageWidth

/-- The safety check on an element: whether it reaches too far. -/
def Element.tooLarge (family : Family) (element : Element) : Bool :=
  ICNS_HEADER_SIZE + family.length < element.offset + element.elementSize

/-- The first part of `icns_get_image32_with_mask_from_family`: red, green and blue. The difference of
the sizes is unsigned, so that an element smaller than its header counts as a large one. -/
def readIcon (junk : Nat → UInt8) (family : Family) (type : IconType) : Checked (Option IconImage) := do
  if typesEqual type ICNS_NULL_TYPE then some none
  else
    match ← getElementFromFamily family type with
    | none => some none
    | some element =>
      match initImageForType junk type with
      | none => some none
      | some image =>
        let b := element.offset + ICNS_HEADER_SIZE
        let stop := element.offset + element.elementSize
        if element.tooLarge family then some none
        else if ICNS_HEADER_SIZE ≤ element.elementSize ∧
            element.elementSize - ICNS_HEADER_SIZE < 3 * image.area then
          let data ← decodePlanes family stop image.imageDataSize image.area b image.imageData
          some (some { image with imageData := data })
        else
          let data ← copyPixels family image.area 0 b image.imageData
          some (some { image with imageData := data })

/-- The second part: the mask. -/
def readMask (family : Family) (type : IconType) (image : IconImage) : Checked (Option IconImage) := do
  match ← getElementFromFamily family (getMaskTypeForIconType type) with
  | some element =>
    if element.tooLarge family then some none
    else
      let data ← copyMask family (element.offset + element.elementSize) image.area 0
        (element.offset + ICNS_HEADER_SIZE) image.imageData
      some (some { image with imageData := data })
  | none =>
    let data ← fillMask image.area 0 image.imageData
    some (some { image with imageData := data })

/-- `icns_get_image32_with_mask_from_family` -/
def getImage32WithMaskFromFamily (junk : Nat → UInt8) (family : Family) (type : IconType) :
    Checked (Option IconImage) := do
  match ← readIcon junk family type with
  | none => some none
  | some image => readMask family type image

/-! ## The readers -/

/-- The bitmap that `_initBitmapFromICNSImage:` makes: its pixels, four bytes each. -/
structure IconRep where
  pixelsWide : Nat
  pixelsHigh : Nat
  rgbBuffer : List UInt8
deriving DecidableEq, Repr

/-- The loops over rows and columns, as one over `n` pixels from `k` on. -/
def copyBuffer (imageData : List UInt8) : (n k : Nat) → List UInt8 → Checked (List UInt8)
  | 0, _, buffer => some buffer
  | n + 1, k, buffer => do
    let r ← readByte imageData (4 * k)
    let g ← readByte imageData (4 * k + 1)
    let b ← readByte imageData (4 * k + 2)
    let a ← readByte imageData (4 * k + 3)
    let buffer ← writeByte buffer (4 * k) r
    let buffer ← writeByte buffer (4 * k + 1) g
    let buffer ← writeByte buffer (4 * k + 2) b
    let buffer ← writeByte buffer (4 * k + 3) a
    copyBuffer imageData n (k + 1) buffer

def initBitmapFromICNSImage (junk : Nat → UInt8) (image : IconImage) : Checked IconRep := do
  let buffer ← copyBuffer image.imageData image.area 0 (malloc junk (4 * image.area))
  some ⟨image.imageWidth, image.imageHeight, buffer⟩

/-- The loop over the icons of a family in both readers: the types that come by. -/
def visitedTypes (family : Family) : (fuel dataOffset : Nat) → Checked (List IconType)
  | 0, _ => some []
  | fuel + 1, dataOffset =>
    if dataOffset + 8 < family.length then do
      let elementType ← readType family dataOffset
      let elementSize ← readWord family (dataOffset + 4)
      if elementSize = 0 then some []
      else
        let types ← visitedTypes family fuel (dataOffset + elementSize)
        some (elementType :: types)
    else some []

/-- The icon that `_initBitmapFromICNS:` chooses. -/
def chooseType (typeStr : IconType) (elementType : IconType) : IconType :=
  if typesEqual elementType ICNS_48x48_32BIT_DATA ||
      (typesEqual typeStr ICNS_NULL_TYPE &&
        (typesEqual elementType ICNS_32x32_32BIT_DATA ||
          typesEqual elementType ICNS_128X128_32BIT_DATA)) then
    elementType
  else typeStr

def bitmapIsICNS (data : List UInt8) : Bool :=
  8 ≤ data.length && typesEqual (data.take 4) ICNS_FAMILY_TYPE

/-- The length of the data as an `int`. -/
def intLength (data : List UInt8) : Int := (BitVec.ofNat 32 data.length).toInt

def initBitmapFromICNS (junk : Nat → UInt8) (data : List UInt8) : Checked (Option IconRep) := do
  match ← importFamilyData (intLength data) data with
  | none => some none
  | some family =>
    let types ← visitedTypes family family.length ICNS_HEADER_SIZE
    match ← getImage32WithMaskFromFamily junk family (types.foldl chooseType ICNS_NULL_TYPE) with
    | none => some none
    | some image =>
      let rep ← initBitmapFromICNSImage junk image
      some (some rep)

/-- Where `_imageRepsWithICNSData:` puts a bitmap, with the best size so far. -/
def addRep (array : List IconRep) (best : Nat) (type : IconType) (rep : IconRep) : List IconRep × Nat :=
  if typesEqual type ICNS_48x48_32BIT_DATA then (rep :: array, 48)
  else if typesEqual type ICNS_32x32_32BIT_DATA && best != 48 then (rep :: array, 32)
  else if (typesEqual type ICNS_16x16_32BIT_DATA || typesEqual type ICNS_128X128_32BIT_DATA) &&
      best != 48 && best != 32 then (rep :: array, best)
  else (array ++ [rep], best)

/-- The loop of `_imageRepsWithICNSData:` over the types that come by. -/
def collectReps (junk : Nat → UInt8) (family : Family) :
    List IconType → List IconRep → Nat → Checked (List IconRep)
  | [], array, _ => some array
  | type :: types, array, best => do
    match ← getImage32WithMaskFromFamily junk family type with
    | none => collectReps junk family types array best
    | some image =>
      let rep ← initBitmapFromICNSImage junk image
      let (array, best) := addRep array best type rep
      collectReps junk family types array best

def imageRepsWithICNSData (junk : Nat → UInt8) (data : List UInt8) : Checked (List IconRep) := do
  match ← importFamilyData (intLength data) data with
  | none => some []
  | some family =>
    let types ← visitedTypes family family.length ICNS_HEADER_SIZE
    collectReps junk family types [] 0

end GnustepGui.BitmapImageRep.ICNS
