import Mathlib

/-!
# The PNM reader of `NSBitmapImageRep`

`_bitmapIsPNM:` and `_initBitmapFromPNM:errorMessage:`. The data is read through `byteAt`, which
notes a read outside of it; an `int` that overflows has no defined value and ends the run as well.
-/

namespace GnustepGui.BitmapImageRep

/-- How a run ends without a bitmap. -/
inductive Fault
  | notPNM
  | rejected (message : String)
  | outside (index : Nat)
  | undefined
deriving DecidableEq, Repr

structure Bitmap where
  pixelsWide : Int
  pixelsHigh : Int
  bitsPerSample : Int
  samplesPerPixel : Int
  hasAlpha : Bool
  isPlanar : Bool
  colorSpaceName : String
  bytesPerRow : Int
  bitsPerPixel : Int
  bitmapData : List UInt8
deriving DecidableEq, Repr

/-! ## What C brings along -/

def INT_MIN : Int := -2 ^ 31
def INT_MAX : Int := 2 ^ 31 - 1
def LONG_MIN : Int := -2 ^ 63
def LONG_MAX : Int := 2 ^ 63 - 1

def mulInt (x y : Int) : Except Fault Int :=
  if INT_MIN ≤ x * y ∧ x * y ≤ INT_MAX then .ok (x * y) else .error .undefined

def mulLong (x y : Int) : Except Fault Int :=
  if LONG_MIN ≤ x * y ∧ x * y ≤ LONG_MAX then .ok (x * y) else .error .undefined

/-- `1 << 31` sets the sign bit. -/
def oneShiftedBy31 : Int := (1#32 <<< 31).toInt

/-- A whole number as a `float`: 24 bits, rounded to nearest, ties to even. -/
def roundToFloat (n : Nat) : Nat :=
  let shift := Nat.log2 n - 23
  let q := n >>> shift
  let rest := n % 2 ^ shift
  let half := 2 ^ shift / 2
  if shift = 0 then n
  else if half < rest ∨ (rest = half ∧ q % 2 = 1) then (q + 1) <<< shift
  else q <<< shift

def isSpace (c : UInt8) : Bool := c == 32 || (9 ≤ c && c ≤ 13)

def isDigit (c : UInt8) : Bool := 48 ≤ c && c ≤ 57

def decimalValue (digits : List UInt8) : Nat :=
  digits.foldl (fun v c => 10 * v + (c.toNat - 48)) 0

/-- A number that is no `int` is not defined. -/
def storeInt (value : Int) (rest : List UInt8) : Except Fault (Option (Int × List UInt8)) :=
  if INT_MIN ≤ value ∧ value ≤ INT_MAX then .ok (some (value, rest)) else .error .undefined

/-- The digits of a number behind its sign. -/
def scanDigits (negative : Bool) (s : List UInt8) : Except Fault (Option (Int × List UInt8)) :=
  match s.takeWhile isDigit with
  | [] => .ok none
  | d :: digits =>
    let value : Int := decimalValue (d :: digits)
    storeInt (if negative then -value else value) (s.dropWhile isDigit)

/-- `%d` of `sscanf`: the number and what follows it, `none` where there is no number. -/
def scanInt (s : List UInt8) : Except Fault (Option (Int × List UInt8)) :=
  match s.dropWhile isSpace with
  | 45 :: s => scanDigits true s
  | 43 :: s => scanDigits false s
  | s => scanDigits false s

/-- `sscanf(buffer, "%d %d", &xsize, &ysize)`, where it returns 2. -/
def scanTwoInts (s : List UInt8) : Except Fault (Option (Int × Int)) := do
  match ← scanInt s with
  | none => return none
  | some (x, s) =>
    match ← scanInt s with
    | none => return none
    | some (y, _) => return some (x, y)

/-! ## Reading lines -/

def byteAt (data : List UInt8) (i : Nat) : Except Fault UInt8 :=
  match data[i]? with
  | some c => .ok c
  | none => .error (.outside i)

def isEol (c : UInt8) : Bool := c == 10 || c == 13

/-- The loop of `GET_LINE`, with room for so many characters in the buffer: the characters stored and
the pointer behind the line. -/
def getLine (data : List UInt8) (length : Nat) : (room ptr : Nat) → Except Fault (List UInt8 × Nat)
  | 0, _ => .error (.rejected "PNM header line too long")
  | room + 1, ptr => do
    let c ← byteAt data ptr
    if !isEol c && ptr < length then
      let (line, ptr) ← getLine data length room (ptr + 1)
      return (c :: line, ptr)
    else
      return ([], ptr + 1)

/-- What the buffer is as a C string. -/
def cString (line : List UInt8) : List UInt8 := line.takeWhile (· != 0)

theorem getLine_ok {data : List UInt8} {length room ptr : Nat} {line : List UInt8} {ptr' : Nat}
    (h : getLine data length room ptr = .ok (line, ptr')) : ptr' = ptr + line.length + 1 ∧ ptr' ≤ data.length := by
  induction room generalizing ptr line ptr' with
  | zero => cases h
  | succ room ih =>
    unfold getLine byteAt at h
    cases hc : data[ptr]? with
    | none => simp [hc, bind, Except.bind] at h
    | some c =>
      have hp := (List.getElem?_eq_some_iff.1 hc).1
      simp only [hc, bind, Except.bind, pure, Except.pure] at h
      split at h
      · cases hr : getLine data length room (ptr + 1) with
        | error e => simp [hr] at h
        | ok r =>
          obtain ⟨rest, q⟩ := r
          simp only [hr, Except.ok.injEq, Prod.mk.injEq] at h
          obtain ⟨rfl, rfl⟩ := h
          obtain ⟨hq, hle⟩ := ih hr
          exact ⟨by rw [hq, List.length_cons]; omega, hle⟩
      · simp only [Except.ok.injEq, Prod.mk.injEq] at h
        obtain ⟨rfl, rfl⟩ := h
        exact ⟨rfl, hp⟩

/-- `do { GET_LINE(); } while (buffer[0] == '#');` -/
def skipComments (data : List UInt8) (length ptr : Nat) : Except Fault (List UInt8 × Nat) :=
  match _h : getLine data length 256 ptr with
  | .error e => .error e
  | .ok (line, ptr') => if line.head? = some 35 then skipComments data length ptr' else .ok (line, ptr')
termination_by data.length - ptr
decreasing_by
  have := getLine_ok _h
  omega

/-! ## The bitmap -/

/-- `initWithBitmapDataPlanes:…` without planes and without alpha. -/
def initWithBitmapDataPlanes (width height bps spp : Nat) (isPlanar : Bool) (colorSpaceName : String)
    (rowBytes pixelBits : Nat) : Option Bitmap :=
  if bps = 0 ∨ spp = 0 ∨ width = 0 ∨ height = 0 then none
  else
    let pixelBits := if pixelBits = 0 then bps * (if isPlanar then 1 else spp) else pixelBits
    let rowBytes :=
      if rowBytes = 0 then (roundToFloat (roundToFloat width * pixelBits) + 7) / 8 else rowBytes
    some
      { pixelsWide := width
        pixelsHigh := height
        bitsPerSample := bps
        samplesPerPixel := spp
        hasAlpha := false
        isPlanar := isPlanar
        colorSpaceName := colorSpaceName
        bytesPerRow := rowBytes
        bitsPerPixel := pixelBits
        bitmapData := List.replicate ((if isPlanar then spp else 1) * rowBytes * height) 0 }

/-- `memcpy` from the data. -/
def copyBytes (data : List UInt8) (ptr n : Nat) : Except Fault (List UInt8) :=
  if ptr + n ≤ data.length then .ok ((data.drop ptr).take n) else .error (.outside data.length)

def reject {α : Type} (message : String) : Except Fault α := .error (.rejected message)

def bitmapIsPNM (data : List UInt8) : Bool :=
  match data with
  | c₀ :: c₁ :: c₂ :: _ =>
    9 ≤ data.length && c₀ == 80 && (c₂ == 10 || c₂ == 13) && (c₁ == 53 || c₁ == 54)
  | _ => false

/-- From the size line on, with the pointer behind it. -/
def readRaster (data : List UInt8) (length : Nat) (ptype : UInt8) (sizeLine : List UInt8) (ptr : Nat) :
    Except Fault Bitmap := do
  match ← scanTwoInts (cString sizeLine) with
  | none => reject "Invalid PNM header (xsize/ysize)"
  | some (xsize, ysize) =>
    if xsize ≤ 0 ∨ ysize ≤ 0 then reject "Invalid PNM header (xsize/ysize)"
    else
      let size ← mulInt xsize ysize
      if size > oneShiftedBy31 then reject "Invalid PNM header (image size:xsize*ysize too large)"
      else
        let (line, ptr) ← getLine data length 256 ptr
        match ← scanInt (cString line) with
        | none => reject "Invalid PNM header (levels)"
        | some (levels, _) =>
          match initWithBitmapDataPlanes xsize.toNat ysize.toNat 8 (if ptype = 53 then 1 else 3) false
              (if ptype = 53 then "NSDeviceBlackColorSpace" else "NSDeviceRGBColorSpace") 0 0 with
          | none => reject ""
          | some rep =>
            let bytes ← mulLong rep.bytesPerRow ysize
            if bytes > (length : Int) - ptr then reject "Invalid PNM file (short data)"
            else if levels < 256 then
              let raster ← copyBytes data ptr bytes.toNat
              return { rep with bitmapData := raster }
            else reject "Cannot handle > 256 level PNM files"

/-- `_initBitmapFromPNM:errorMessage:`; `length` is an `unsigned int`. -/
def initBitmapFromPNM (data : List UInt8) : Except Fault Bitmap := do
  let length := data.length % 2 ^ 32
  let (_, ptr) ← getLine data length 256 0
  let c₀ ← byteAt data 0
  if c₀ ≠ 80 then reject "Invalid PNM header (magic number)"
  else
    let ptype ← byteAt data 1
    if ptype ≠ 53 ∧ ptype ≠ 54 then reject "Unsupported PNM type"
    else
      let (sizeLine, ptr) ← skipComments data length ptr
      readRaster data length ptype sizeLine ptr

/-- What the class makes of data: the reader is asked where `_bitmapIsPNM:` says yes. -/
def readPNM (data : List UInt8) : Except Fault Bitmap :=
  if bitmapIsPNM data then initBitmapFromPNM data else .error .notPNM

end GnustepGui.BitmapImageRep
