import Mathlib
import GnustepGui.BitmapImageRep.PixelAccess

/-!
# `_premultiply` and `_unpremultiply`

For samples of 8 bits there are two loops each: over the bytes of meshed data, and over `getPixel:atX:y:`
and `setPixel:atX:y:` for planar data. Each of them recolors every pixel by its alpha and leaves all other
bytes alone, so that they make the same of the same pixels (`premultiply_meshed_planar`).
-/

namespace GnustepGui.BitmapImageRep

open ByteStore

namespace BitmapLayout

/-! ## One pixel -/

/-- `ai` -/
def alphaIndex (L : BitmapLayout) : Nat := if L.format.alphaFirst then 0 else L.numColors - 1

/-- The indexes from `start` on and below `end`. -/
def colors (L : BitmapLayout) : List Nat :=
  if L.format.alphaFirst then List.range' 1 (L.numColors - 1) else List.range' 0 (L.numColors - 1)

def premultiplied (a v : Nat) : Nat :=
  let t := a * v + 0x80
  ((t >>> 8) + t) >>> 8

def unpremultiplied (a v : Nat) : Nat :=
  let c := (v * 255) / a
  if c ≥ 255 then 255 else c

/-- The loop over the colors in `pixelData`. -/
def recolorData (L : BitmapLayout) (recolor : Nat → Nat) (pixelData : List Nat) : List Nat :=
  L.colors.foldl (fun pixelData i => pixelData.modify i recolor) pixelData

/-- The loop over the colors in the bytes from `offset` on. -/
def recolorBytes (L : BitmapLayout) (recolor : Nat → Nat) (planes : Planes) (offset : Nat) : Option Planes :=
  L.colors.foldlM
    (fun planes i => do
      let v ← planes 0 (offset + i)
      planes.store 0 (offset + i) (BitVec.ofNat 8 (recolor v.toNat)))
    planes

def premultiplyMeshed (L : BitmapLayout) (planes : Planes) (x y : Nat) : Option Planes := do
  let offset := L.bitsPerPixel * x / 8 + L.bytesPerRow * y
  let a ← planes 0 (offset + L.alphaIndex)
  if a.toNat ≠ 255 then
    if a.toNat = 0 then L.colors.foldlM (fun planes i => planes.store 0 (offset + i) 0) planes
    else L.recolorBytes (premultiplied a.toNat) planes offset
  else some planes

def premultiplyPlanar (L : BitmapLayout) (planes : Planes) (x y : Nat) : Option Planes := do
  let pixelData ← L.getPixel planes [] x y
  let a ← pixelData[L.alphaIndex]?
  if a ≠ 255 then L.setPixel planes (L.recolorData (premultiplied a) pixelData) x y
  else some planes

def unpremultiplyMeshed (L : BitmapLayout) (planes : Planes) (x y : Nat) : Option Planes := do
  let offset := L.bitsPerPixel * x / 8 + L.bytesPerRow * y
  let a ← planes 0 (offset + L.alphaIndex)
  if a.toNat ≠ 0 ∧ a.toNat ≠ 255 then L.recolorBytes (unpremultiplied a.toNat) planes offset
  else some planes

def unpremultiplyPlanar (L : BitmapLayout) (planes : Planes) (x y : Nat) : Option Planes := do
  let pixelData ← L.getPixel planes [] x y
  let a ← pixelData[L.alphaIndex]?
  if a ≠ 0 ∧ a ≠ 255 then L.setPixel planes (L.recolorData (unpremultiplied a) pixelData) x y
  else some planes

/-! ## All pixels -/

/-- The places `(y, x)` in the order of the loops. -/
def places (L : BitmapLayout) : List (Nat × Nat) := List.range L.pixelsHigh ×ˢ List.range L.pixelsWide

def eachPixel (L : BitmapLayout) (pixel : Planes → Nat → Nat → Option Planes) (planes : Planes) : Option Planes :=
  L.places.foldlM (fun planes place => pixel planes place.2 place.1) planes

end BitmapLayout

/-- A bitmap with the bytes of its planes. -/
structure ImageRep where
  layout : BitmapLayout
  planes : Planes

namespace ImageRep

def setNonpremultiplied (rep : ImageRep) (planes : Planes) (flag : Bool) : ImageRep where
  layout := { rep.layout with format := { rep.layout.format with alphaNonpremultiplied := flag } }
  planes := planes

/-- `_premultiply`; `scaled` is its loop in floating point for other samples than those of 8 bits. -/
def premultiply (scaled : ImageRep → Option Planes) (rep : ImageRep) : Option ImageRep :=
  let L := rep.layout
  if !L.hasAlpha || !L.format.alphaNonpremultiplied then some rep
  else do
    let planes ←
      if L.bitsPerSample = 8 then
        if !L.isPlanar then L.eachPixel L.premultiplyMeshed rep.planes else L.eachPixel L.premultiplyPlanar rep.planes
      else scaled rep
    some (rep.setNonpremultiplied planes false)

def unpremultiply (scaled : ImageRep → Option Planes) (rep : ImageRep) : Option ImageRep :=
  let L := rep.layout
  if !L.hasAlpha || L.format.alphaNonpremultiplied then some rep
  else do
    let planes ←
      if L.bitsPerSample = 8 then
        if !L.isPlanar then L.eachPixel L.unpremultiplyMeshed rep.planes
        else L.eachPixel L.unpremultiplyPlanar rep.planes
      else scaled rep
    some (rep.setNonpremultiplied planes true)

end ImageRep

/-- A bitmap with at least the bits and bytes that its samples need, and all of them there. -/
structure StoredBitmap extends ImageRep where
  natural : layout.Natural
  present : ∀ y < layout.pixelsHigh, layout.RowPresent planes y

namespace BitmapLayout

/-! ## Rounding -/

theorem premultiplied_eq (a v : Nat) : premultiplied a v = ((a * v + 128) / 256 + (a * v + 128)) / 256 := by
  unfold premultiplied
  simp only [Nat.shiftRight_eq_div_pow]

variable {a v : Nat}

theorem mul_le_of_bytes (ha : a ≤ 255) (hv : v ≤ 255) : a * v ≤ 65025 := Nat.mul_le_mul ha hv

theorem premultiplied_le (ha : a ≤ 255) (hv : v ≤ 255) : premultiplied a v ≤ 255 := by
  have hm := mul_le_of_bytes ha hv
  rw [premultiplied_eq]
  omega

@[simp] theorem premultiplied_zero (v : Nat) : premultiplied 0 v = 0 := by
  rw [premultiplied_eq, Nat.zero_mul]

theorem premultiplied_full {v : Nat} (hv : v ≤ 255) : premultiplied 255 v = v := by
  rw [premultiplied_eq]
  omega

theorem premultiplied_near (ha : a ≤ 255) (hv : v ≤ 255) :
    255 * premultiplied a v ≤ a * v + 127 ∧ a * v ≤ 255 * premultiplied a v + 127 := by
  have hm := mul_le_of_bytes ha hv
  rw [premultiplied_eq]
  omega

theorem premultiplied_eq_round (ha : a ≤ 255) (hv : v ≤ 255) : (premultiplied a v : ℤ) = round ((v * a : ℚ) / 255) := by
  obtain ⟨hup, hlo⟩ := premultiplied_near ha hv
  have hup' : (255 * premultiplied a v : ℚ) ≤ a * v + 127 := by exact_mod_cast hup
  have hlo' : (a * v : ℚ) ≤ 255 * premultiplied a v + 127 := by exact_mod_cast hlo
  symm
  rw [round_eq, Int.floor_eq_iff]
  constructor
  · push_cast
    linarith
  · push_cast
    linarith

theorem unpremultiplied_le (a v : Nat) : unpremultiplied a v ≤ 255 := by
  unfold unpremultiplied
  dsimp only
  split <;> omega

theorem unpremultiplied_eq (a v : Nat) : unpremultiplied a v = min 255 (v * 255 / a) := by
  unfold unpremultiplied
  dsimp only
  split <;> omega

/-- What becomes of a color in `_unpremultiply`. -/
def unpremultipliedColor (a v : Nat) : Nat := if a ≠ 0 ∧ a ≠ 255 then unpremultiplied a v else v

/-! ## The samples of one pixel -/

section Pixel

variable {L : BitmapLayout} {planes planes' : Planes} {x x' y y' i i' : Nat}

theorem alphaIndex_lt (L : BitmapLayout) : L.alphaIndex < L.numColors := by
  have hp := L.numColors_pos
  unfold alphaIndex
  split <;> omega

theorem mem_colors : i ∈ L.colors ↔ i < L.numColors ∧ i ≠ L.alphaIndex := by
  unfold colors alphaIndex
  split <;> rw [List.mem_range'_1] <;> omega

theorem nodup_colors (L : BitmapLayout) : L.colors.Nodup := by
  unfold colors
  split <;> exact List.nodup_range'

theorem getElem?_foldl_modify (recolor : Nat → Nat) {l : List Nat} (hnd : l.Nodup) (pixelData : List Nat) (i : Nat) :
    (l.foldl (fun pixelData i => pixelData.modify i recolor) pixelData)[i]? =
      if i ∈ l then pixelData[i]?.map recolor else pixelData[i]? := by
  induction l generalizing pixelData with
  | nil => simp
  | cons j l ih =>
    obtain ⟨hj, hnd⟩ := List.nodup_cons.mp hnd
    rw [List.foldl_cons, ih hnd, List.getElem?_modify]
    by_cases hi : j = i
    · subst hi
      simp [hj]
    · simp [hi, Ne.symm hi]

theorem getElem?_recolorData (recolor : Nat → Nat) (pixelData : List Nat) (i : Nat) :
    (L.recolorData recolor pixelData)[i]? = if i ∈ L.colors then pixelData[i]?.map recolor else pixelData[i]? :=
  getElem?_foldl_modify recolor L.nodup_colors pixelData i

theorem length_foldl_modify (recolor : Nat → Nat) (l : List Nat) (pixelData : List Nat) :
    (l.foldl (fun pixelData i => pixelData.modify i recolor) pixelData).length = pixelData.length := by
  induction l generalizing pixelData with
  | nil => rfl
  | cons j l ih => rw [List.foldl_cons, ih, List.length_modify]

@[simp] theorem length_recolorData (recolor : Nat → Nat) (pixelData : List Nat) :
    (L.recolorData recolor pixelData).length = pixelData.length := length_foldl_modify recolor L.colors pixelData

/-- Where the byte of a sample is. -/
def cell (L : BitmapLayout) (x y i : Nat) : Nat × Nat := (L.plane i, L.sampleByte x y i)

/-- No two samples share a byte. -/
theorem cell_injective (hL : L.Natural) (h8 : L.bitsPerSample = 8) (hx : x < L.pixelsWide) (hx' : x' < L.pixelsWide)
    (hi : i < L.numColors) (hi' : i' < L.numColors) (hc : L.cell x y i = L.cell x' y' i') :
    (x, y, i) = (x', y', i') := by
  obtain ⟨hpl, hb⟩ := Prod.mk.inj hc
  have hs := sampleStart_eight (x := x) (y := y) (i := i) h8
  have hs' := sampleStart_eight (x := x') (y := y') (i := i') h8
  have hin := sampleStart_row (y := y) hL hx hi
  have hin' := sampleStart_row (y := y') hL hx' hi'
  have hy : y = y' := by
    rcases Nat.lt_trichotomy y y' with hlt | heq | hlt
    · have hn := Nat.mul_le_mul_left L.bytesPerRow hlt
      rw [Nat.mul_succ] at hn
      omega
    · exact heq
    · have hn := Nat.mul_le_mul_left L.bytesPerRow hlt
      rw [Nat.mul_succ] at hn
      omega
  subst hy
  by_contra hne
  have hp : (x, i) ≠ (x', i') := fun h => hne (by rw [(Prod.mk.inj h).1, (Prod.mk.inj h).2])
  have ha := sampleStart_apart (y := y) hL hi hi' hp
  omega

theorem getPixel_eight {pixelData : List Nat} (h8 : L.bitsPerSample = 8) (hx : x < L.pixelsWide) (hy : y < L.pixelsHigh) :
    L.getPixel planes [] x y = some pixelData ↔ pixelData.length = L.numColors ∧
        ∀ i < L.numColors, (planes (L.cell x y i).1 (L.cell x y i).2).map BitVec.toNat = pixelData[i]? := by
  rw [getPixel_inside hx hy]
  refine and_congr_right fun _ => forall₂_congr fun i _ => ?_
  rw [getSample_eight h8, Option.map_map]
  have hw : (BitVec.toNat ∘ fun byte : BitVec 8 => byte.setWidth 32) = BitVec.toNat := by
    funext byte
    exact BitVec.toNat_setWidth_of_le (by decide)
  rw [hw]
  rfl

theorem getPixel_of_cells (h8 : L.bitsPerSample = 8) (hx : x < L.pixelsWide) (hy : y < L.pixelsHigh)
    (hc : ∀ i < L.numColors, planes' (L.cell x y i).1 (L.cell x y i).2 = planes (L.cell x y i).1 (L.cell x y i).2) :
    L.getPixel planes' [] x y = L.getPixel planes [] x y := by
  refine Option.ext fun pixelData => ?_
  rw [getPixel_eight h8 hx hy, getPixel_eight h8 hx hy]
  refine and_congr_right fun _ => forall₂_congr fun i hi => ?_
  rw [hc i hi]

theorem le_of_getPixel {pixelData : List Nat} (h8 : L.bitsPerSample = 8) (hx : x < L.pixelsWide) (hy : y < L.pixelsHigh)
    (hp : L.getPixel planes [] x y = some pixelData) {v : Nat} (hv : pixelData[i]? = some v) : v ≤ 255 := by
  obtain ⟨hl, hs⟩ := (getPixel_eight h8 hx hy).mp hp
  obtain ⟨hi, -⟩ := List.getElem?_eq_some_iff.mp hv
  rw [← hs i (by omega)] at hv
  obtain ⟨byte, -, rfl⟩ := Option.map_eq_some_iff.mp hv
  exact Nat.le_of_lt_succ byte.isLt

end Pixel

/-! ## Recoloring -/

/-- The colors of a pixel by its alpha. -/
def recolored (L : BitmapLayout) (recolor : Nat → Nat → Nat) (pixelData : List Nat) : List Nat :=
  L.recolorData (recolor (pixelData[L.alphaIndex]?.getD 0)) pixelData

/-- The pixels at some places have been recolored; all bytes but those of their colors stay. -/
structure RecoloredAt (L : BitmapLayout) (planes planes' : Planes) (recolor : Nat → Nat → Nat) (l : List (Nat × Nat)) :
    Prop where
  present : ∀ p c, (planes' p c).isSome = (planes p c).isSome
  pixels : ∀ x y, (y, x) ∈ l → ∀ pixelData, L.getPixel planes [] x y = some pixelData →
    L.getPixel planes' [] x y = some (L.recolored recolor pixelData)
  frame : ∀ p c, (∀ x y, (y, x) ∈ l → ∀ i ∈ L.colors, L.cell x y i ≠ (p, c)) → planes' p c = planes p c

/-- A step of the loops recolors its pixel. -/
def Recolors (L : BitmapLayout) (pixel : Planes → Nat → Nat → Option Planes) (recolor : Nat → Nat → Nat) : Prop :=
  ∀ planes x y, x < L.pixelsWide → y < L.pixelsHigh → (∀ y < L.pixelsHigh, L.RowPresent planes y) →
    ∃ planes', pixel planes x y = some planes' ∧ L.RecoloredAt planes planes' recolor [(y, x)]

section Recoloring

variable {L : BitmapLayout} {planes : Planes} {x y : Nat}

theorem withinTwoBytes_eight (h8 : L.bitsPerSample = 8) : L.WithinTwoBytes := .inr fun x _ i _ => by omega

variable {f : Nat → Nat} {pixelData : List Nat}

/-- The loop over the colors that rewrites bytes. -/
theorem rewrite_recolored {recolor : Nat → Nat → Nat} (hL : L.Natural)
    (h8 : L.bitsPerSample = 8) (hx : x < L.pixelsWide) (hy : y < L.pixelsHigh)
    (hp : L.getPixel planes [] x y = some pixelData) (hf : ∀ v ≤ 255, f v ≤ 255)
    (hr : L.recolored recolor pixelData = L.recolorData f pixelData) :
    ∃ planes',
      L.colors.foldlM (fun planes i => (planes (L.cell x y i).1 (L.cell x y i).2).bind fun v =>
          planes.store (L.cell x y i).1 (L.cell x y i).2 (BitVec.ofNat 8 (f v.toNat))) planes = some planes' ∧
        L.RecoloredAt planes planes' recolor [(y, x)] := by
  obtain ⟨hl, hsm⟩ := (getPixel_eight h8 hx hy).mp hp
  have hinj : ∀ i ∈ L.colors, ∀ j < L.numColors, L.cell x y i = L.cell x y j → i = j := fun i hi j hj hcl =>
    (Prod.mk.inj (Prod.mk.inj (cell_injective hL h8 hx hx (mem_colors.mp hi).1 hj hcl)).2).2
  have hnd : (L.colors.map (L.cell x y)).Nodup :=
    List.Nodup.map_on (fun i hi j hj hcl => hinj i hi j (mem_colors.mp hj).1 hcl) L.nodup_colors
  have hso : ∀ i ∈ L.colors, (planes (L.cell x y i).1 (L.cell x y i).2).isSome := fun i hi => by
    have hlt := (mem_colors.mp hi).1
    have hs := hsm i hlt
    rw [List.getElem?_eq_getElem (by omega)] at hs
    obtain ⟨byte, hb, -⟩ := Option.map_eq_some_iff.mp hs
    rw [hb, Option.isSome_some]
  obtain ⟨planes', hlp, hcel, hfr⟩ := foldlM_rewrite (L.cell x y) (fun _ v => BitVec.ofNat 8 (f v.toNat)) hnd hso
  refine ⟨planes', hlp, fun p c => ?_, fun x' y' hplc pixelData' hp' => ?_, fun p c ho => ?_⟩
  · by_cases hin : ∃ i ∈ L.colors, L.cell x y i = (p, c)
    · obtain ⟨i, hi, hcl⟩ := hin
      have hb := hcel i hi
      rw [hcl] at hb
      rw [hb, Option.isSome_map]
    · rw [hfr p c fun i hi hcl => hin ⟨i, hi, hcl⟩]
  · obtain ⟨rfl, rfl⟩ := Prod.mk.inj (List.mem_singleton.mp hplc)
    obtain rfl := Option.some.inj (hp'.symm.trans hp)
    rw [hr]
    refine (getPixel_eight h8 hx hy).mpr ⟨by rw [length_recolorData, hl], fun i hi => ?_⟩
    rw [getElem?_recolorData]
    by_cases hc : i ∈ L.colors
    · rw [if_pos hc, hcel i hc, ← hsm i hi, Option.map_map, Option.map_map]
      refine Option.map_congr fun byte _ => ?_
      have hle := hf byte.toNat (Nat.le_of_lt_succ byte.isLt)
      change (BitVec.ofNat 8 (f byte.toNat)).toNat = f byte.toNat
      rw [BitVec.toNat_ofNat, Nat.mod_eq_of_lt (by omega)]
    · rw [if_neg hc, hfr (L.cell x' y' i).1 (L.cell x' y' i).2 fun j hj hcl => hc (hinj j hj i hi hcl ▸ hj)]
      exact hsm i hi
  · exact hfr p c fun i hi => ho x y (List.mem_singleton_self _) i hi

theorem setPixel_recolored {recolor : Nat → Nat → Nat} (hL : L.Natural)
    (h8 : L.bitsPerSample = 8) (hx : x < L.pixelsWide) (hy : y < L.pixelsHigh) (hr : L.RowPresent planes y)
    (hp : L.getPixel planes [] x y = some pixelData) (hf : ∀ v ≤ 255, f v ≤ 255)
    (hrc : L.recolored recolor pixelData = L.recolorData f pixelData) :
    ∃ planes', L.setPixel planes (L.recolorData f pixelData) x y = some planes' ∧
      L.RecoloredAt planes planes' recolor [(y, x)] := by
  obtain ⟨hl, hsm⟩ := (getPixel_eight h8 hx hy).mp hp
  have hl' : (L.recolorData f pixelData).length = L.numColors := by rw [length_recolorData, hl]
  have hft := withinTwoBytes_eight h8
  have hvl : ∀ value ∈ L.recolorData f pixelData, value < 2 ^ L.bitsPerSample := by
    intro value hval
    obtain ⟨i, hi⟩ := List.mem_iff_getElem?.mp hval
    rw [getElem?_recolorData] at hi
    rw [h8]
    refine Nat.lt_succ_of_le ?_
    split at hi
    · obtain ⟨v, hv, rfl⟩ := Option.map_eq_some_iff.mp hi
      exact hf v (le_of_getPixel h8 hx hy hp hv)
    · exact le_of_getPixel h8 hx hy hp hi
  obtain ⟨planes', hs, hw⟩ := setPixel_wrote hL hft hx hy hr hl'
  have hsl := hw.getPixel_self hL hft (by omega) hx hy hr hl' hvl []
  refine ⟨planes', hs, hw.present, fun x' y' hplc pixelData' hp' => ?_, fun p c ho => ?_⟩
  · obtain ⟨rfl, rfl⟩ := Prod.mk.inj (List.mem_singleton.mp hplc)
    obtain rfl := Option.some.inj (hp'.symm.trans hp)
    rw [hrc]
    exact hsl
  · by_cases hcl : ∃ i < L.numColors, L.cell x y i = (p, c)
    · -- the alpha is written as it was
      obtain ⟨i, hi, hcl⟩ := hcl
      have hc : i ∉ L.colors := fun hc => ho x y (List.mem_singleton_self _) i hc hcl
      have ha := ((getPixel_eight h8 hx hy).mp hsl).2 i hi
      rw [getElem?_recolorData, if_neg hc, ← hsm i hi, hcl] at ha
      exact Option.map_injective (fun _ _ => BitVec.eq_of_toNat_eq) ha
    · refine eq_of_bitAt (hw.present p c) fun u hu => hw.frame _ _ fun i hi hin => hcl ⟨i, hi, ?_⟩
      rw [sampleStart_eight h8, h8] at hin
      exact Prod.ext hin.1.symm (by change L.sampleByte x y i = c; omega)

theorem recoloredAt_self {recolor : Nat → Nat → Nat} {pixelData : List Nat}
    (hp : L.getPixel planes [] x y = some pixelData) (hr : L.recolored recolor pixelData = pixelData) :
    L.RecoloredAt planes planes recolor [(y, x)] where
  present _ _ := rfl
  pixels x' y' hplc pixelData' hp' := by
    obtain ⟨rfl, rfl⟩ := Prod.mk.inj (List.mem_singleton.mp hplc)
    obtain rfl := Option.some.inj (hp'.symm.trans hp)
    rw [hr]
    exact hp
  frame _ _ _ := rfl

/-! ## The steps of the loops -/

theorem getPixel_of_rows (hL : L.Natural) (h8 : L.bitsPerSample = 8) (hx : x < L.pixelsWide) (hy : y < L.pixelsHigh)
    (hr : L.RowPresent planes y) :
    ∃ pixelData a, L.getPixel planes [] x y = some pixelData ∧ pixelData[L.alphaIndex]? = some a ∧ a ≤ 255 := by
  obtain ⟨pixelData, hp⟩ := getPixel_present hL (withinTwoBytes_eight h8) hx hy hr []
  have hl := ((getPixel_eight h8 hx hy).mp hp).1
  have hin : L.alphaIndex < pixelData.length := by
    rw [hl]
    exact L.alphaIndex_lt
  exact ⟨pixelData, _, hp, List.getElem?_eq_getElem hin, le_of_getPixel h8 hx hy hp (List.getElem?_eq_getElem hin)⟩

theorem recolored_alpha {recolor : Nat → Nat → Nat} {a : Nat} (ha : pixelData[L.alphaIndex]? = some a) :
    L.recolored recolor pixelData = L.recolorData (recolor a) pixelData := by
  rw [recolored, ha, Option.getD_some]

theorem recolorData_congr {f g : Nat → Nat} (h8 : L.bitsPerSample = 8) (hx : x < L.pixelsWide)
    (hy : y < L.pixelsHigh) (hp : L.getPixel planes [] x y = some pixelData) (hf : ∀ v ≤ 255, f v = g v) :
    L.recolorData f pixelData = L.recolorData g pixelData := by
  refine List.ext_getElem? fun i => ?_
  rw [getElem?_recolorData, getElem?_recolorData]
  split
  · refine Option.map_congr fun v hv => hf v (le_of_getPixel h8 hx hy hp hv)
  · rfl

theorem recolorData_id (h8 : L.bitsPerSample = 8) (hx : x < L.pixelsWide)
    (hy : y < L.pixelsHigh) (hp : L.getPixel planes [] x y = some pixelData) (hf : ∀ v ≤ 255, f v = v) :
    L.recolorData f pixelData = pixelData := by
  refine List.ext_getElem? fun i => ?_
  rw [getElem?_recolorData]
  split
  · cases hv : pixelData[i]? with
    | none => rfl
    | some v => rw [Option.map_some, hf v (le_of_getPixel h8 hx hy hp hv)]
  · rfl

theorem cell_meshed (hm : L.isPlanar = false) (i : Nat) :
    L.cell x y i = (0, L.bitsPerPixel * x / 8 + L.bytesPerRow * y + i) := by
  unfold cell plane sampleByte
  simp [hm]

theorem alpha_meshed {a : Nat} (hm : L.isPlanar = false) (h8 : L.bitsPerSample = 8)
    (hx : x < L.pixelsWide) (hy : y < L.pixelsHigh) (hp : L.getPixel planes [] x y = some pixelData)
    (ha : pixelData[L.alphaIndex]? = some a) :
    ∃ byte, planes 0 (L.bitsPerPixel * x / 8 + L.bytesPerRow * y + L.alphaIndex) = some byte ∧ byte.toNat = a := by
  have hs := ((getPixel_eight h8 hx hy).mp hp).2 _ L.alphaIndex_lt
  rw [cell_meshed hm, ha] at hs
  exact Option.map_eq_some_iff.mp hs

theorem recolorBytes_meshed {recolor : Nat → Nat → Nat}
    (hm : L.isPlanar = false) (hL : L.Natural) (h8 : L.bitsPerSample = 8) (hx : x < L.pixelsWide)
    (hy : y < L.pixelsHigh) (hp : L.getPixel planes [] x y = some pixelData) (hf : ∀ v ≤ 255, f v ≤ 255)
    (hrc : L.recolored recolor pixelData = L.recolorData f pixelData) :
    ∃ planes', L.recolorBytes f planes (L.bitsPerPixel * x / 8 + L.bytesPerRow * y) = some planes' ∧
      L.RecoloredAt planes planes' recolor [(y, x)] := by
  obtain ⟨planes', hl, hr⟩ := rewrite_recolored hL h8 hx hy hp hf hrc
  simp only [cell_meshed hm] at hl
  exact ⟨planes', hl, hr⟩

theorem premultiplyMeshed_recolors (hm : L.isPlanar = false) (hL : L.Natural) (h8 : L.bitsPerSample = 8) :
    L.Recolors L.premultiplyMeshed premultiplied := by
  intro planes x y hx hy hrw
  obtain ⟨pixelData, a, hp, ha, hale⟩ := getPixel_of_rows hL h8 hx hy (hrw y hy)
  obtain ⟨byte, hb, rfl⟩ := alpha_meshed hm h8 hx hy hp ha
  have hr : L.recolored premultiplied pixelData = _ := recolored_alpha ha
  unfold premultiplyMeshed
  dsimp only
  rw [hb, Option.bind_eq_bind, Option.bind_some]
  by_cases h255 : byte.toNat = 255
  · rw [if_neg (not_not_intro h255)]
    refine ⟨planes, rfl, recoloredAt_self hp ?_⟩
    rw [hr, h255]
    exact recolorData_id h8 hx hy hp fun v hv => premultiplied_full hv
  rw [if_pos h255]
  by_cases h0 : byte.toNat = 0
  · rw [if_pos h0]
    have hz : L.recolored premultiplied pixelData = L.recolorData (fun _ => 0) pixelData := by
      rw [hr, h0]
      exact recolorData_congr h8 hx hy hp fun v _ => premultiplied_zero v
    obtain ⟨planes', hl, hat⟩ := recolorBytes_meshed hm hL h8 hx hy hp (fun _ _ => Nat.zero_le _) hz
    refine ⟨planes', ?_, hat⟩
    rw [← hl]
    unfold recolorBytes
    congr 1
    funext planes i
    exact store_eq_bind _
  · rw [if_neg h0]
    exact recolorBytes_meshed hm hL h8 hx hy hp (fun v hv => premultiplied_le hale hv) hr

theorem premultiplyPlanar_recolors (hL : L.Natural) (h8 : L.bitsPerSample = 8) :
    L.Recolors L.premultiplyPlanar premultiplied := by
  intro planes x y hx hy hr
  obtain ⟨pixelData, a, hp, ha, hale⟩ := getPixel_of_rows hL h8 hx hy (hr y hy)
  have hrc : L.recolored premultiplied pixelData = _ := recolored_alpha ha
  unfold premultiplyPlanar
  simp only [hp, ha, Option.bind_eq_bind, Option.bind_some]
  by_cases h255 : a = 255
  · rw [if_neg (not_not_intro h255)]
    refine ⟨planes, rfl, recoloredAt_self hp ?_⟩
    rw [hrc, h255]
    exact recolorData_id h8 hx hy hp fun v hv => premultiplied_full hv
  · rw [if_pos h255]
    exact setPixel_recolored hL h8 hx hy (hr y hy) hp (fun v hv => premultiplied_le hale hv) hrc

theorem unpremultipliedColor_of_not {a : Nat} (h : ¬ (a ≠ 0 ∧ a ≠ 255)) (v : Nat) : unpremultipliedColor a v = v :=
  if_neg h

theorem unpremultipliedColor_of {a : Nat} (h : a ≠ 0 ∧ a ≠ 255) : unpremultipliedColor a = unpremultiplied a := by
  funext v
  exact if_pos h

theorem unpremultiplyMeshed_recolors (hm : L.isPlanar = false) (hL : L.Natural) (h8 : L.bitsPerSample = 8) :
    L.Recolors L.unpremultiplyMeshed unpremultipliedColor := by
  intro planes x y hx hy hrw
  obtain ⟨pixelData, a, hp, ha, -⟩ := getPixel_of_rows hL h8 hx hy (hrw y hy)
  obtain ⟨byte, hb, rfl⟩ := alpha_meshed hm h8 hx hy hp ha
  have hr : L.recolored unpremultipliedColor pixelData = _ := recolored_alpha ha
  unfold unpremultiplyMeshed
  dsimp only
  rw [hb, Option.bind_eq_bind, Option.bind_some]
  by_cases hpr : byte.toNat ≠ 0 ∧ byte.toNat ≠ 255
  · rw [if_pos hpr]
    rw [unpremultipliedColor_of hpr] at hr
    exact recolorBytes_meshed hm hL h8 hx hy hp (fun v _ => unpremultiplied_le _ v) hr
  · rw [if_neg hpr]
    refine ⟨planes, rfl, recoloredAt_self hp ?_⟩
    rw [hr]
    exact recolorData_id h8 hx hy hp fun v _ => unpremultipliedColor_of_not hpr v

theorem unpremultiplyPlanar_recolors (hL : L.Natural) (h8 : L.bitsPerSample = 8) :
    L.Recolors L.unpremultiplyPlanar unpremultipliedColor := by
  intro planes x y hx hy hrw
  obtain ⟨pixelData, a, hp, ha, -⟩ := getPixel_of_rows hL h8 hx hy (hrw y hy)
  have hr : L.recolored unpremultipliedColor pixelData = _ := recolored_alpha ha
  unfold unpremultiplyPlanar
  simp only [hp, ha, Option.bind_eq_bind, Option.bind_some]
  by_cases hpr : a ≠ 0 ∧ a ≠ 255
  · rw [if_pos hpr]
    rw [unpremultipliedColor_of hpr] at hr
    exact setPixel_recolored hL h8 hx hy (hrw y hy) hp (fun v _ => unpremultiplied_le _ v) hr
  · rw [if_neg hpr]
    refine ⟨planes, rfl, recoloredAt_self hp ?_⟩
    rw [hr]
    exact recolorData_id h8 hx hy hp fun v _ => unpremultipliedColor_of_not hpr v

end Recoloring

/-! ## The loops -/

section Loops

variable {L : BitmapLayout} {planes planes' : Planes} {x y : Nat} {pixel : Planes → Nat → Nat → Option Planes}
  {recolor : Nat → Nat → Nat}

theorem RecoloredAt.getPixel_other {l : List (Nat × Nat)} (h : L.RecoloredAt planes planes' recolor l)
    (hL : L.Natural) (h8 : L.bitsPerSample = 8) (hl : ∀ x y, (y, x) ∈ l → x < L.pixelsWide) (hx : x < L.pixelsWide)
    (hy : y < L.pixelsHigh) (ho : (y, x) ∉ l) : L.getPixel planes' [] x y = L.getPixel planes [] x y := by
  refine getPixel_of_cells h8 hx hy fun i hi => h.frame _ _ fun x' y' hp j hj hc => ho ?_
  have hs := cell_injective hL h8 (hl x' y' hp) hx (mem_colors.mp hj).1 hi hc
  rwa [← (Prod.mk.inj hs).1, ← (Prod.mk.inj (Prod.mk.inj hs).2).1]

theorem foldlM_recolored (hst : L.Recolors pixel recolor) (hL : L.Natural) (h8 : L.bitsPerSample = 8)
    (hrw : ∀ y < L.pixelsHigh, L.RowPresent planes y) {l : List (Nat × Nat)} (hnd : l.Nodup)
    (hl : ∀ x y, (y, x) ∈ l → x < L.pixelsWide ∧ y < L.pixelsHigh) :
    ∃ planes', l.foldlM (fun planes place => pixel planes place.2 place.1) planes = some planes' ∧
      L.RecoloredAt planes planes' recolor l := by
  induction l generalizing planes with
  | nil =>
    exact ⟨planes, rfl, fun _ _ => rfl, fun _ _ hp => absurd hp (List.not_mem_nil), fun _ _ _ => rfl⟩
  | cons place l ih =>
    obtain ⟨y, x⟩ := place
    obtain ⟨hf, hnd⟩ := List.nodup_cons.mp hnd
    obtain ⟨hx, hy⟩ := hl x y (List.mem_cons_self ..)
    obtain ⟨next, hn, ha⟩ := hst planes x y hx hy hrw
    obtain ⟨planes', hlp, hr⟩ := ih (fun y hy => (hrw y hy).congr ha.present) hnd
      fun x' y' hp => hl x' y' (List.mem_cons_of_mem _ hp)
    have hs : ∀ x' y', (y', x') ∈ [(y, x)] → x' < L.pixelsWide := fun x' y' hp => by
      rw [(Prod.mk.inj (List.mem_singleton.mp hp)).2]
      exact hx
    refine ⟨planes', ?_, fun p c => (hr.present p c).trans (ha.present p c), ?_, fun p c ho => ?_⟩
    · rw [List.foldlM_cons, hn]
      exact hlp
    · intro x' y' hp pixelData hpix
      rcases List.mem_cons.mp hp with heq | hm
      · obtain ⟨rfl, rfl⟩ := Prod.mk.inj heq
        rw [hr.getPixel_other hL h8 (fun x' y' hp => (hl x' y' (List.mem_cons_of_mem _ hp)).1) hx hy hf]
        exact ha.pixels x' y' (List.mem_singleton_self _) pixelData hpix
      · obtain ⟨hx', hy'⟩ := hl x' y' hp
        refine hr.pixels x' y' hm pixelData ?_
        rw [ha.getPixel_other hL h8 hs hx' hy' fun h => hf (List.mem_singleton.mp h ▸ hm)]
        exact hpix
    · rw [hr.frame p c fun x' y' hp => ho x' y' (List.mem_cons_of_mem _ hp)]
      exact ha.frame p c fun x' y' hp => ho x' y' (List.mem_cons.mpr (.inl (List.mem_singleton.mp hp)))

theorem mem_places : (y, x) ∈ L.places ↔ x < L.pixelsWide ∧ y < L.pixelsHigh := by
  unfold places
  rw [List.mem_product, List.mem_range, List.mem_range, and_comm]

theorem eachPixel_recolored (hs : L.Recolors pixel recolor) (hL : L.Natural) (h8 : L.bitsPerSample = 8)
    (hr : ∀ y < L.pixelsHigh, L.RowPresent planes y) :
    ∃ planes', L.eachPixel pixel planes = some planes' ∧ L.RecoloredAt planes planes' recolor L.places :=
  foldlM_recolored hs hL h8 hr (List.nodup_range.product List.nodup_range) fun _ _ hp => mem_places.mp hp

end Loops

end BitmapLayout

/-! ## Both calls -/

open BitmapLayout

/-- Meshed data and planar data of the same pixels, with samples of 8 bits and an alpha. -/
structure SameContent (meshed planar : StoredBitmap) : Prop where
  isMeshed : meshed.layout.isPlanar = false
  isPlanar : planar.layout.isPlanar = true
  eightBits : meshed.layout.bitsPerSample = 8 ∧ planar.layout.bitsPerSample = 8
  hasAlpha : meshed.layout.hasAlpha = true ∧ planar.layout.hasAlpha = true
  wide : planar.layout.pixelsWide = meshed.layout.pixelsWide
  high : planar.layout.pixelsHigh = meshed.layout.pixelsHigh
  numColors : planar.layout.numColors = meshed.layout.numColors
  format : planar.layout.format = meshed.layout.format
  pixels : ∀ x y, x < meshed.layout.pixelsWide → y < meshed.layout.pixelsHigh →
    meshed.layout.getPixel meshed.planes [] x y = planar.layout.getPixel planar.planes [] x y

/-- What a call makes of a bitmap: the colors of each pixel have the values that belong to them and to the
alpha, none above 255; its alpha and all bytes outside its colors stay; a second call changes
nothing. -/
structure Colored (call : ImageRep → Option ImageRep) (before after : ImageRep) (value : Nat → Nat → Nat → Prop) :
    Prop where
  pixels : ∀ x y, x < before.layout.pixelsWide → y < before.layout.pixelsHigh →
    ∃ a old new, before.layout.getPixel before.planes [] x y = some old ∧
      after.layout.getPixel after.planes [] x y = some new ∧
      old[before.layout.alphaIndex]? = some a ∧ new[before.layout.alphaIndex]? = some a ∧
      ∀ i ∈ before.layout.colors, ∃ v w, old[i]? = some v ∧ new[i]? = some w ∧ w ≤ 255 ∧ value a v w
  untouched : ∀ p c,
    (∀ x y, x < before.layout.pixelsWide → y < before.layout.pixelsHigh →
      ∀ i ∈ before.layout.colors, before.layout.cell x y i ≠ (p, c)) → after.planes p c = before.planes p c
  again : call after = some after

/-- Both paths make the same of the same pixels. -/
def PathsAgree (call : ImageRep → Option ImageRep) (meshed planar : StoredBitmap) (value : Nat → Nat → Nat → Prop) : Prop :=
  ∃ meshed' planar', call meshed.toImageRep = some meshed' ∧ call planar.toImageRep = some planar' ∧
    (∀ x y, x < meshed.layout.pixelsWide → y < meshed.layout.pixelsHigh →
      meshed'.layout.getPixel meshed'.planes [] x y = planar'.layout.getPixel planar'.planes [] x y) ∧
    Colored call meshed.toImageRep meshed' value ∧ Colored call planar.toImageRep planar' value

section Calls

variable {call : ImageRep → Option ImageRep} {meshed planar : StoredBitmap} {value : Nat → Nat → Nat → Prop}
  {recolor : Nat → Nat → Nat}

theorem getPixel_setNonpremultiplied (rep : ImageRep) (planes : Planes) (flag : Bool) :
    (rep.setNonpremultiplied planes flag).layout.getPixel = rep.layout.getPixel := rfl

theorem color_of_getPixel {L : BitmapLayout} {planes : Planes} {x y i : Nat} {pixelData : List Nat}
    (h8 : L.bitsPerSample = 8) (hx : x < L.pixelsWide) (hy : y < L.pixelsHigh)
    (hp : L.getPixel planes [] x y = some pixelData) (hi : i ∈ L.colors) : ∃ v, pixelData[i]? = some v ∧ v ≤ 255 := by
  have hl := ((getPixel_eight h8 hx hy).mp hp).1
  have hin : i < pixelData.length := by
    rw [hl]
    exact (mem_colors.mp hi).1
  exact ⟨_, List.getElem?_eq_getElem hin, le_of_getPixel h8 hx hy hp (List.getElem?_eq_getElem hin)⟩

theorem colored_of_recolored {b : StoredBitmap} {planes' : Planes} {flag : Bool} (h8 : b.layout.bitsPerSample = 8)
    (hat : b.layout.RecoloredAt b.planes planes' recolor b.layout.places)
    (hle : ∀ a v, a ≤ 255 → v ≤ 255 → recolor a v ≤ 255) (hval : ∀ a v, a ≤ 255 → v ≤ 255 → value a v (recolor a v))
    (hag : call (b.setNonpremultiplied planes' flag) = some (b.setNonpremultiplied planes' flag)) :
    Colored call b.toImageRep (b.setNonpremultiplied planes' flag) value where
  pixels x y hx hy := by
    obtain ⟨pixelData, a, hp, ha, hale⟩ := getPixel_of_rows b.natural h8 hx hy (b.present y hy)
    have haft := hat.pixels x y (mem_places.mpr ⟨hx, hy⟩) pixelData hp
    rw [recolored_alpha ha] at haft
    refine ⟨a, pixelData, _, hp, haft, ha, ?_, fun i hi => ?_⟩
    · rw [getElem?_recolorData, if_neg fun h => (mem_colors.mp h).2 rfl, ha]
    · obtain ⟨v, hg, hv⟩ := color_of_getPixel h8 hx hy hp hi
      refine ⟨v, recolor a v, hg, ?_, hle a v hale hv, hval a v hale hv⟩
      rw [getElem?_recolorData, if_pos hi, hg, Option.map_some]
  untouched p c ho := hat.frame p c fun x y hplc =>
    ho x y (mem_places.mp hplc).1 (mem_places.mp hplc).2
  again := hag

theorem colored_of_idle {b : StoredBitmap} (h8 : b.layout.bitsPerSample = 8) (hc : call b.toImageRep = some b.toImageRep)
    (hval : ∀ a v, value a v v) : Colored call b.toImageRep b.toImageRep value where
  pixels x y hx hy := by
    obtain ⟨pixelData, a, hp, ha, -⟩ := getPixel_of_rows b.natural h8 hx hy (b.present y hy)
    refine ⟨a, pixelData, pixelData, hp, hp, ha, ha, fun i hi => ?_⟩
    obtain ⟨v, hg, hv⟩ := color_of_getPixel h8 hx hy hp hi
    exact ⟨v, v, hg, hg, hv, hval a v⟩
  untouched _ _ _ := rfl
  again := hc

theorem SameContent.recolored_eq (h : SameContent meshed planar) (pixelData : List Nat) :
    planar.layout.recolored recolor pixelData = meshed.layout.recolored recolor pixelData := by
  unfold recolored recolorData alphaIndex colors
  rw [h.format, h.numColors]

theorem pathsAgree_of_recolors (h : SameContent meshed planar) (flag : Bool)
    {meshedPixel planarPixel : Planes → Nat → Nat → Option Planes}
    (hm : meshed.layout.Recolors meshedPixel recolor) (hpl : planar.layout.Recolors planarPixel recolor)
    (hc : call meshed.toImageRep =
      (meshed.layout.eachPixel meshedPixel meshed.planes).map fun planes => meshed.setNonpremultiplied planes flag)
    (hc' : call planar.toImageRep =
      (planar.layout.eachPixel planarPixel planar.planes).map fun planes => planar.setNonpremultiplied planes flag)
    (hle : ∀ a v, a ≤ 255 → v ≤ 255 → recolor a v ≤ 255) (hv : ∀ a v, a ≤ 255 → v ≤ 255 → value a v (recolor a v))
    (hag : ∀ rep : ImageRep, ∀ planes,
      call (rep.setNonpremultiplied planes flag) = some (rep.setNonpremultiplied planes flag)) :
    PathsAgree call meshed planar value := by
  obtain ⟨planes, hl, ha⟩ := eachPixel_recolored hm meshed.natural h.eightBits.1 meshed.present
  obtain ⟨planes', hl', ha'⟩ := eachPixel_recolored hpl planar.natural h.eightBits.2 planar.present
  rw [hl, Option.map_some] at hc
  rw [hl', Option.map_some] at hc'
  refine ⟨_, _, hc, hc', fun x y hx hy => ?_, colored_of_recolored h.eightBits.1 ha hle hv (hag _ _),
    colored_of_recolored h.eightBits.2 ha' hle hv (hag _ _)⟩
  have hx' : x < planar.layout.pixelsWide := by rwa [h.wide]
  have hy' : y < planar.layout.pixelsHigh := by rwa [h.high]
  obtain ⟨pixelData, -, hp, -⟩ := getPixel_of_rows meshed.natural h.eightBits.1 hx hy (meshed.present y hy)
  have hp' := (h.pixels x y hx hy).symm.trans hp
  rw [getPixel_setNonpremultiplied, getPixel_setNonpremultiplied]
  exact (ha.pixels x y (mem_places.mpr ⟨hx, hy⟩) pixelData hp).trans
    ((ha'.pixels x y (mem_places.mpr ⟨hx', hy'⟩) pixelData hp').trans (by rw [h.recolored_eq])).symm

theorem pathsAgree_of_idle (h : SameContent meshed planar) (hc : call meshed.toImageRep = some meshed.toImageRep)
    (hc' : call planar.toImageRep = some planar.toImageRep) (hv : ∀ a v, value a v v) :
    PathsAgree call meshed planar value :=
  ⟨_, _, hc, hc', h.pixels, colored_of_idle h.eightBits.1 hc hv, colored_of_idle h.eightBits.2 hc' hv⟩

end Calls

theorem premultiply_pathsAgree (scaled : ImageRep → Option Planes) {meshed planar : StoredBitmap}
    (h : SameContent meshed planar) :
    PathsAgree (ImageRep.premultiply scaled) meshed planar fun a v w =>
      (w : ℤ) = if meshed.layout.format.alphaNonpremultiplied then round ((v * a : ℚ) / 255) else v := by
  cases hf : meshed.layout.format.alphaNonpremultiplied with
  | false =>
    refine pathsAgree_of_idle h ?_ ?_ fun _ _ => rfl
    · simp [ImageRep.premultiply, hf]
    · simp [ImageRep.premultiply, h.format, hf]
  | true =>
    refine pathsAgree_of_recolors h false (premultiplyMeshed_recolors h.isMeshed meshed.natural h.eightBits.1)
      (premultiplyPlanar_recolors planar.natural h.eightBits.2) ?_ ?_ (fun a v ha hv => premultiplied_le ha hv)
      (fun a v ha hv => premultiplied_eq_round ha hv) fun rep planes => ?_
    · simp [ImageRep.premultiply, hf, h.hasAlpha.1, h.eightBits.1, h.isMeshed, Option.map_eq_bind]
    · simp [ImageRep.premultiply, h.format, hf, h.hasAlpha.2, h.eightBits.2, h.isPlanar, Option.map_eq_bind]
    · simp [ImageRep.premultiply, ImageRep.setNonpremultiplied]

theorem unpremultiply_pathsAgree (scaled : ImageRep → Option Planes) {meshed planar : StoredBitmap}
    (h : SameContent meshed planar) :
    PathsAgree (ImageRep.unpremultiply scaled) meshed planar fun a v w =>
      w = if meshed.layout.format.alphaNonpremultiplied = true ∨ a = 0 ∨ a = 255 then v else min 255 (v * 255 / a) := by
  cases hf : meshed.layout.format.alphaNonpremultiplied with
  | true =>
    refine pathsAgree_of_idle h ?_ ?_ fun _ _ => rfl
    · simp [ImageRep.unpremultiply, hf]
    · simp [ImageRep.unpremultiply, h.format, hf]
  | false =>
    refine pathsAgree_of_recolors h true (unpremultiplyMeshed_recolors h.isMeshed meshed.natural h.eightBits.1)
      (unpremultiplyPlanar_recolors planar.natural h.eightBits.2) ?_ ?_ (fun a v _ hv => ?_)
      (fun a v _ _ => ?_) fun rep planes => ?_
    · simp [ImageRep.unpremultiply, hf, h.hasAlpha.1, h.eightBits.1, h.isMeshed, Option.map_eq_bind]
    · simp [ImageRep.unpremultiply, h.format, hf, h.hasAlpha.2, h.eightBits.2, h.isPlanar, Option.map_eq_bind]
    · unfold unpremultipliedColor
      split
      · exact unpremultiplied_le a v
      · exact hv
    · unfold unpremultipliedColor
      rw [unpremultiplied_eq]
      grind
    · simp [ImageRep.unpremultiply, ImageRep.setNonpremultiplied]

/-- Both calls. -/
theorem premultiply_meshed_planar (scaled : ImageRep → Option Planes) {meshed planar : StoredBitmap}
    (h : SameContent meshed planar) :
    PathsAgree (ImageRep.premultiply scaled) meshed planar
        (fun a v w =>
          (w : ℤ) = if meshed.layout.format.alphaNonpremultiplied then round ((v * a : ℚ) / 255) else v) ∧
      PathsAgree (ImageRep.unpremultiply scaled) meshed planar
        (fun a v w =>
          w = if meshed.layout.format.alphaNonpremultiplied = true ∨ a = 0 ∨ a = 255 then v else min 255 (v * 255 / a)) :=
  ⟨premultiply_pathsAgree scaled h, unpremultiply_pathsAgree scaled h⟩

/-- Two pixels of a gray and an alpha, in rows of two bytes for each plane. -/
def grayLayout (isPlanar : Bool) : BitmapLayout where
  pixelsWide := 2
  pixelsHigh := 1
  bitsPerSample := 8
  numColors := 2
  hasAlpha := true
  isPlanar := isPlanar
  format := ⟨false, true, false, false⟩
  bytesPerRow := if isPlanar then 2 else 4
  bitsPerPixel := if isPlanar then 8 else 16
  hostBigEndian := false
  pixelsWide_pos := Nat.two_pos
  pixelsHigh_pos := Nat.one_pos
  bitsPerSample_pos := Nat.succ_pos 7
  numColors_pos := Nat.two_pos

def meshedGray : StoredBitmap where
  layout := grayLayout false
  planes _ a := [200, 128, 50, 255][a]?
  natural := ⟨by decide, by decide⟩
  present y hy plane hplane a ha ha' := by
    change a < 4 * y + 4 at ha'
    change y < 1 at hy
    dsimp only
    rw [List.getElem?_eq_getElem (show a < 4 by omega), Option.isSome_some]

def planarGray : StoredBitmap where
  layout := grayLayout true
  planes plane a := if plane = 0 then [200, 50][a]? else [128, 255][a]?
  natural := ⟨by decide, by decide⟩
  present y hy plane hplane a ha ha' := by
    change a < 2 * y + 2 at ha'
    change y < 1 at hy
    dsimp only
    split
    · rw [List.getElem?_eq_getElem (show a < 2 by omega), Option.isSome_some]
    · rw [List.getElem?_eq_getElem (show a < 2 by omega), Option.isSome_some]

theorem premultiply_gray :
    PathsAgree (ImageRep.premultiply fun _ => none) meshedGray planarGray
        (fun a v w =>
          (w : ℤ) = if meshedGray.layout.format.alphaNonpremultiplied then round ((v * a : ℚ) / 255) else v) ∧
      PathsAgree (ImageRep.unpremultiply fun _ => none) meshedGray planarGray
        (fun a v w =>
          w = if meshedGray.layout.format.alphaNonpremultiplied = true ∨ a = 0 ∨ a = 255 then v else min 255 (v * 255 / a)) :=
  premultiply_meshed_planar _
    { isMeshed := rfl
      isPlanar := rfl
      eightBits := ⟨rfl, rfl⟩
      hasAlpha := ⟨rfl, rfl⟩
      wide := rfl
      high := rfl
      numColors := rfl
      format := rfl
      pixels := fun x y hx hy => by
        change x < 2 at hx
        change y < 1 at hy
        interval_cases x <;> interval_cases y <;> decide }

end GnustepGui.BitmapImageRep
