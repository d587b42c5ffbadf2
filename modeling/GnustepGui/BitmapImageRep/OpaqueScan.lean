import GnustepGui.BitmapImageRep.Premultiplying

/-!
# The opaque scan of `initWithBitmapDataPlanes:…`

The scan goes through the first plane in steps of a byte for each sample and stops at the first alpha
below 255. The bits that it reads are those of the alpha samples only for samples of 8 bits without any
padding, with the alpha last and in the first plane (`detectsOpaque_iff`).
-/

namespace GnustepGui.BitmapImageRep

open ByteStore

/-- The loop, with `left` more bytes to come. -/
def scanFrom (planes : Planes) (offset bData : Nat) : (left : Nat) → Option Bool
  | 0 => some true
  | left + 1 => do
    let a ← planes 0 (bData + offset)
    if a.toNat ≠ 255 then some false else scanFrom planes offset (bData + offset + 1) left

namespace BitmapLayout

/-- What `setOpaque:` gets. The number of pixels is a floating point product that goes to an unsigned of 32
bits; where it does not fit C does not say what comes of it. -/
def initOpaque (L : BitmapLayout) (planes : Planes) : Option Bool :=
  if L.hasAlpha then
    if L.pixelsHigh * L.pixelsWide < 2 ^ 32 then scanFrom planes (L.numColors - 1) 0 (L.pixelsHigh * L.pixelsWide)
    else none
  else some true

/-- Planes of `bytesPerRow * height` bytes. -/
def Supplied (L : BitmapLayout) (planes : Planes) : Prop :=
  ∀ p a, (planes p a).isSome ↔ p < L.planeCount ∧ a < L.bytesPerRow * L.pixelsHigh

/-- A bit of an alpha sample. -/
def AlphaBit (L : BitmapLayout) (p k : Nat) : Prop :=
  p = L.plane L.alphaIndex ∧ ∃ x < L.pixelsWide, ∃ y < L.pixelsHigh,
    L.sampleStart x y L.alphaIndex ≤ k ∧ k < L.sampleStart x y L.alphaIndex + L.bitsPerSample

/-- Each alpha sample has all its bits. -/
def AllOpaque (L : BitmapLayout) (planes : Planes) : Prop :=
  ∀ x < L.pixelsWide, ∀ y < L.pixelsHigh, ∀ j < L.bitsPerSample,
    bitAt planes (L.plane L.alphaIndex) (L.sampleStart x y L.alphaIndex + j) = true

/-- The scan reads inside of the planes only, and its result is whether each pixel is opaque. -/
def DetectsOpaque (L : BitmapLayout) : Prop :=
  ∀ planes, L.Supplied planes → ∃ isOpaque, L.initOpaque planes = some isOpaque ∧ (isOpaque = true ↔ L.AllOpaque planes)

end BitmapLayout

/-! ## The scan -/

section Scan

variable {planes : Planes} {offset bData left : Nat}

theorem scanFrom_succ :
    scanFrom planes offset bData (left + 1) = (planes 0 (bData + offset)).bind fun a =>
      if a.toNat ≠ 255 then some false else scanFrom planes offset (bData + offset + 1) left := rfl

theorem scanFrom_eq_true : scanFrom planes offset bData left = some true ↔
      ∀ i < left, planes 0 (bData + (offset + 1) * i + offset) = some 255 := by
  induction left generalizing bData with
  | zero => simp [scanFrom]
  | succ left ih =>
    have hs : (∀ i < left + 1, planes 0 (bData + (offset + 1) * i + offset) = some 255) ↔
        planes 0 (bData + offset) = some 255 ∧
          ∀ i < left, planes 0 (bData + offset + 1 + (offset + 1) * i + offset) = some 255 := by
      constructor
      · intro h
        refine ⟨by simpa using h 0 (Nat.succ_pos left), fun i hi => ?_⟩
        have hi' := h (i + 1) (Nat.succ_lt_succ hi)
        rwa [show bData + (offset + 1) * (i + 1) + offset = bData + offset + 1 + (offset + 1) * i + offset by ring] at hi'
      · rintro ⟨hf, hr⟩ i hi
        cases i with
        | zero => simpa using hf
        | succ i =>
          rw [show bData + (offset + 1) * (i + 1) + offset = bData + offset + 1 + (offset + 1) * i + offset by ring]
          exact hr i (Nat.lt_of_succ_lt_succ hi)
    rw [hs, ← ih, scanFrom_succ]
    cases hb : planes 0 (bData + offset) with
    | none => simp
    | some a =>
      by_cases h255 : a = 255#8
      · simp [h255]
      · have hne : a.toNat ≠ 255 := fun h => h255 (BitVec.eq_of_toNat_eq h)
        simp [h255, hne]

theorem scanFrom_eq_false (h : scanFrom planes offset bData left = some false) :
    ∃ i < left, ∃ a, planes 0 (bData + (offset + 1) * i + offset) = some a ∧ a ≠ 255#8 := by
  induction left generalizing bData with
  | zero => simp [scanFrom] at h
  | succ left ih =>
    rw [scanFrom_succ, Option.bind_eq_some_iff] at h
    obtain ⟨a, ha, h⟩ := h
    split at h
    · rename_i h255
      refine ⟨0, Nat.succ_pos left, a, by simpa using ha, fun heq => h255 ?_⟩
      rw [heq]
      rfl
    · obtain ⟨i, hi, b, hb, hne⟩ := ih h
      refine ⟨i + 1, Nat.succ_lt_succ hi, b, ?_, hne⟩
      rw [← hb]
      congr 1
      ring

end Scan

theorem getLsbD_mask_byte {u : Nat} (hu : u < 8) : (255#8).getLsbD u = true := by
  have hm : 255#8 = BitVec.allOnes 8 := rfl
  rw [hm, BitVec.getLsbD_allOnes, decide_eq_true hu]

namespace BitmapLayout

/-! ## The bits that are read -/

section Bits

variable {L : BitmapLayout} {planes : Planes} {p k : Nat}

/-- A bit that the scan reads. -/
def ScannedBit (L : BitmapLayout) (p k : Nat) : Prop :=
  p = 0 ∧ ∃ i < L.pixelsHigh * L.pixelsWide, k / 8 = L.numColors * i + (L.numColors - 1)

/-- The bits of the planes. -/
def PlaneBit (L : BitmapLayout) (p k : Nat) : Prop := p < L.planeCount ∧ k / 8 < L.bytesPerRow * L.pixelsHigh

/-- All bits of the planes are set but for those at one place. -/
def fullBut (L : BitmapLayout) (p k : Nat) : Planes := fun q a =>
  if q < L.planeCount ∧ a < L.bytesPerRow * L.pixelsHigh then
    some (if q = p ∧ a = k / 8 then BitVec.allOnes 8 ^^^ BitVec.twoPow 8 (7 - k % 8) else BitVec.allOnes 8)
  else none

theorem supplied_fullBut (p k : Nat) : L.Supplied (L.fullBut p k) := by
  intro q a
  unfold fullBut
  split <;> simp_all

theorem bitAt_fullBut {q j : Nat} : bitAt (L.fullBut p k) q j = true ↔ L.PlaneBit q j ∧ ¬ (q = p ∧ j = k) := by
  unfold bitAt fullBut PlaneBit
  by_cases hin : q < L.planeCount ∧ j / 8 < L.bytesPerRow * L.pixelsHigh
  · rw [if_pos hin, Option.getD_some]
    by_cases hb : q = p ∧ j / 8 = k / 8
    · rw [if_pos hb, BitVec.getLsbD_xor, BitVec.getLsbD_allOnes, BitVec.getLsbD_twoPow]
      have hp : 7 - k % 8 = 7 - j % 8 ↔ j = k := by omega
      simp only [hin, hb.1, true_and]
      by_cases hj : j = k
      · subst hj
        simp
      · have hne : ¬ 7 - k % 8 = 7 - j % 8 := fun h => hj (hp.mp h)
        simp [hj, hne]
        omega
    · rw [if_neg hb, BitVec.getLsbD_allOnes]
      have hne : ¬ (q = p ∧ j = k) := fun h => hb ⟨h.1, by rw [h.2]⟩
      simp only [hin, hne]
      simp
      omega
  · rw [if_neg hin]
    simp [hin]

/-- The scan finds the bits that it reads set. -/
theorem initOpaque_eq_true (ha : L.hasAlpha = true) : L.initOpaque planes = some true ↔
      L.pixelsHigh * L.pixelsWide < 2 ^ 32 ∧ ∀ k, L.ScannedBit 0 k → bitAt planes 0 k = true := by
  have hs : L.numColors - 1 + 1 = L.numColors := Nat.sub_add_cancel L.numColors_pos
  unfold initOpaque
  rw [if_pos ha]
  by_cases hl : L.pixelsHigh * L.pixelsWide < 2 ^ 32
  · rw [if_pos hl, scanFrom_eq_true, hs]
    simp only [hl, true_and, Nat.zero_add]
    constructor
    · rintro h k ⟨-, i, hi, hk⟩
      unfold bitAt
      rw [hk, h i hi, Option.getD_some]
      exact getLsbD_mask_byte (by omega)
    · intro h i hi
      have hb : ∀ u < 8, bitAt planes 0 (8 * (L.numColors * i + (L.numColors - 1)) + u) = true := fun u hu =>
        h _ ⟨rfl, i, hi, by omega⟩
      cases hbyt : planes 0 (L.numColors * i + (L.numColors - 1)) with
      | none =>
        have hf := hb 0 (by decide)
        unfold bitAt at hf
        rw [show (8 * (L.numColors * i + (L.numColors - 1)) + 0) / 8 = L.numColors * i + (L.numColors - 1) by omega,
          hbyt] at hf
        simp at hf
      | some byte =>
        congr 1
        refine BitVec.eq_of_getLsbD_eq fun u hu => ?_
        rw [getLsbD_of_bitAt hbyt hu, hb _ (by omega)]
        exact (getLsbD_mask_byte hu).symm
  · rw [if_neg hl]
    exact ⟨fun h => absurd h (Option.some_ne_none true).symm, fun h => absurd h.1 hl⟩

theorem initOpaque_eq_false (hal : L.hasAlpha = true) (h : L.initOpaque planes = some false) :
    ∃ k, L.ScannedBit 0 k ∧ (planes 0 (k / 8)).isSome ∧ bitAt planes 0 k = false := by
  have hs : L.numColors - 1 + 1 = L.numColors := Nat.sub_add_cancel L.numColors_pos
  unfold initOpaque at h
  rw [if_pos hal] at h
  split at h
  · obtain ⟨i, hi, a, ha, hne⟩ := scanFrom_eq_false h
    rw [hs, Nat.zero_add] at ha
    by_contra hall
    refine hne (BitVec.eq_of_getLsbD_eq fun u hu => ?_)
    rw [getLsbD_mask_byte hu, getLsbD_of_bitAt ha hu]
    by_contra hb
    have hadd : (8 * (L.numColors * i + (L.numColors - 1)) + (7 - u)) / 8 = L.numColors * i + (L.numColors - 1) := by
      omega
    refine hall ⟨_, ⟨rfl, i, hi, hadd⟩, ?_, eq_false_of_ne_true hb⟩
    rw [hadd, ha, Option.isSome_some]
  · exact absurd h (Option.some_ne_none false).symm

theorem scanFrom_isSome {offset bData left : Nat}
    (h : ∀ i < left, (planes 0 (bData + (offset + 1) * i + offset)).isSome) :
    (scanFrom planes offset bData left).isSome := by
  induction left generalizing bData with
  | zero => rfl
  | succ left ih =>
    have hf := h 0 (Nat.succ_pos left)
    rw [Nat.mul_zero, Nat.add_zero] at hf
    obtain ⟨a, ha⟩ := Option.isSome_iff_exists.mp hf
    rw [scanFrom_succ, ha, Option.bind_some]
    split
    · rfl
    · refine ih fun i hi => ?_
      have hn := h (i + 1) (Nat.succ_lt_succ hi)
      rwa [show bData + (offset + 1) * (i + 1) + offset = bData + offset + 1 + (offset + 1) * i + offset by ring] at hn

theorem allOpaque_iff : L.AllOpaque planes ↔ ∀ p k, L.AlphaBit p k → bitAt planes p k = true := by
  constructor
  · rintro h p k ⟨rfl, x, hx, y, hy, hle, hlt⟩
    have hb := h x hx y hy (k - L.sampleStart x y L.alphaIndex) (by omega)
    rwa [Nat.add_sub_cancel' hle] at hb
  · intro h x hx y hy j hj
    exact h _ _ ⟨rfl, x, hx, y, hy, Nat.le_add_right _ _, by omega⟩

theorem detectsOpaque_iff_bits (ha : L.hasAlpha = true) :
    L.DetectsOpaque ↔ L.pixelsHigh * L.pixelsWide < 2 ^ 32 ∧ (∀ p k, L.ScannedBit p k → L.PlaneBit p k) ∧
      ∀ p k, L.ScannedBit p k ↔ L.AlphaBit p k := by
  constructor
  · intro h
    -- planes with all bits
    obtain ⟨isOpaque, hsc, hfnd⟩ := h _ (supplied_fullBut L.planeCount 0)
    have ht : isOpaque = true := by
      by_contra hf
      rw [eq_false_of_ne_true hf] at hsc
      obtain ⟨k, -, hsm, hb⟩ := initOpaque_eq_false ha hsc
      have hin := (supplied_fullBut L.planeCount 0 0 _).mp hsm
      have hs : bitAt (L.fullBut L.planeCount 0) 0 k = true := bitAt_fullBut.mpr ⟨hin, fun hc => absurd hc.1 hin.1.ne⟩
      rw [hs] at hb
      exact Bool.noConfusion hb
    rw [ht] at hsc
    obtain ⟨hl, hsd⟩ := (initOpaque_eq_true ha).mp hsc
    have hr : ∀ p k, L.ScannedBit p k → L.PlaneBit p k := by
      rintro p k hk
      obtain rfl := hk.1
      exact (bitAt_fullBut.mp (hsd k hk)).1
    have hah : ∀ p k, L.AlphaBit p k → L.PlaneBit p k := fun p k hk =>
      (bitAt_fullBut.mp (allOpaque_iff.mp (hfnd.mp ht) p k hk)).1
    refine ⟨hl, hr, fun p k => ?_⟩
    -- and with all but one
    obtain ⟨isOpaque, hsc, hfnd⟩ := h _ (supplied_fullBut p k)
    have hlf : isOpaque = true ↔ ¬ L.ScannedBit p k := by
      rw [← Option.some_inj, ← hsc, initOpaque_eq_true ha]
      constructor
      · rintro ⟨-, hbt⟩ hk
        obtain rfl := hk.1
        exact (bitAt_fullBut.mp (hbt k hk)).2 ⟨rfl, rfl⟩
      · intro hk
        refine ⟨hl, fun j hj => bitAt_fullBut.mpr ⟨hr 0 j hj, ?_⟩⟩
        rintro ⟨rfl, rfl⟩
        exact hk hj
    have hrt : isOpaque = true ↔ ¬ L.AlphaBit p k := by
      rw [hfnd, allOpaque_iff]
      constructor
      · intro hbt hk
        exact (bitAt_fullBut.mp (hbt p k hk)).2 ⟨rfl, rfl⟩
      · intro hk q j hj
        refine bitAt_fullBut.mpr ⟨hah q j hj, ?_⟩
        rintro ⟨rfl, rfl⟩
        exact hk hj
    exact not_iff_not.mp (hlf.symm.trans hrt)
  · rintro ⟨hl, hr, hsa⟩ planes hp
    have hstr : L.numColors - 1 + 1 = L.numColors := Nat.sub_add_cancel L.numColors_pos
    have hsm : (L.initOpaque planes).isSome := by
      unfold initOpaque
      rw [if_pos ha, if_pos hl]
      refine scanFrom_isSome fun i hi => ?_
      rw [hstr, Nat.zero_add]
      have hin := hr 0 (8 * (L.numColors * i + (L.numColors - 1))) ⟨rfl, i, hi, Nat.mul_div_cancel_left _ (by decide)⟩
      unfold PlaneBit at hin
      rw [Nat.mul_div_cancel_left _ (by decide)] at hin
      exact (hp _ _).mpr hin
    obtain ⟨isOpaque, hsc⟩ := Option.isSome_iff_exists.mp hsm
    refine ⟨isOpaque, hsc, ?_⟩
    rw [← Option.some_inj, ← hsc, initOpaque_eq_true ha, allOpaque_iff]
    constructor
    · rintro ⟨-, hbt⟩ p k hk
      have hsd := (hsa p k).mpr hk
      obtain rfl := hsd.1
      exact hbt k hsd
    · intro hbt
      exact ⟨hl, fun k hk => hbt 0 k ((hsa 0 k).mp hk)⟩

end Bits

/-! ## The layouts without padding -/

/-- Samples of 8 bits side by side, the alpha last and in the first plane. -/
structure Tight (L : BitmapLayout) : Prop where
  eightBits : L.bitsPerSample = 8
  alphaLast : L.numColors = 1 ∨ (L.isPlanar = false ∧ L.format.alphaFirst = false)
  wideEnough : L.numColors * L.pixelsWide ≤ L.bytesPerRow
  rows : L.pixelsHigh = 1 ∨ L.bytesPerRow = L.numColors * L.pixelsWide
  pixels : L.isPlanar = true ∨ L.bitsPerPixel * (L.pixelsWide - 1) / 8 = L.numColors * (L.pixelsWide - 1)

section Tightness

variable {L : BitmapLayout} {p k x y : Nat}

theorem plane_alphaIndex (ha : L.numColors = 1 ∨ (L.isPlanar = false ∧ L.format.alphaFirst = false)) :
    L.plane L.alphaIndex = 0 := by
  unfold plane alphaIndex
  rcases ha with h | ⟨h, -⟩
  · split <;> simp [h]
  · simp [h]

/-- The place of the byte of an alpha sample in a tight layout. -/
theorem Tight.sampleByte_eq (h : L.Tight) (hpx : L.planeSamples * L.bitsPerSample ≤ L.bitsPerPixel)
    (hx : x < L.pixelsWide) (hy : y < L.pixelsHigh) :
    L.sampleByte x y L.alphaIndex = L.numColors * (L.pixelsWide * y + x) + (L.numColors - 1) := by
  have hr : L.bytesPerRow * y = L.numColors * (L.pixelsWide * y) := by
    rcases h.rows with ho | heq
    · obtain rfl : y = 0 := by omega
      simp
    · rw [heq, Nat.mul_assoc]
  unfold sampleByte
  rw [hr, Nat.mul_add]
  by_cases hp : L.isPlanar = true
  · have ho : L.numColors = 1 := h.alphaLast.resolve_right fun hm => by
      rw [hm.1] at hp
      exact Bool.noConfusion hp
    rw [if_pos hp, ho]
    omega
  · have hm : L.isPlanar = false := eq_false_of_ne_true hp
    have hi : L.alphaIndex = L.numColors - 1 := by
      unfold alphaIndex
      rcases h.alphaLast with ho | hl
      · split <;> omega
      · rw [if_neg (by rw [hl.2]; exact Bool.noConfusion)]
    have hb : 8 * L.numColors ≤ L.bitsPerPixel := by
      rwa [planeSamples, if_neg hp, h.eightBits, Nat.mul_comm] at hpx
    obtain ⟨extra, hextra⟩ := Nat.exists_eq_add_of_le hb
    have he := h.pixels.resolve_left hp
    have hoff : L.bitsPerPixel * x / 8 = L.numColors * x := by
      have hle : extra * x ≤ extra * (L.pixelsWide - 1) := Nat.mul_le_mul_left _ (by omega)
      rw [hextra, Nat.add_mul, Nat.mul_assoc] at he ⊢
      omega
    rw [if_neg hp, hoff, hi]
    omega

theorem Tight.alphaBit_iff (h : L.Tight) (hp : L.planeSamples * L.bitsPerSample ≤ L.bitsPerPixel) :
    L.AlphaBit p k ↔ L.ScannedBit p k := by
  unfold AlphaBit ScannedBit
  rw [plane_alphaIndex h.alphaLast]
  refine and_congr_right fun _ => ⟨?_, ?_⟩
  · rintro ⟨x, hx, y, hy, hle, hlt⟩
    rw [sampleStart_eight h.eightBits, h.sampleByte_eq hp hx hy] at hle hlt
    rw [h.eightBits] at hlt
    refine ⟨L.pixelsWide * y + x, ?_, by omega⟩
    have hn := Nat.mul_le_mul_right L.pixelsWide hy
    rw [Nat.succ_mul] at hn
    rw [Nat.mul_comm L.pixelsWide y]
    omega
  · rintro ⟨i, hi, hk⟩
    have hx := Nat.mod_lt i L.pixelsWide_pos
    have hy : i / L.pixelsWide < L.pixelsHigh := Nat.div_lt_of_lt_mul (by rwa [Nat.mul_comm])
    refine ⟨i % L.pixelsWide, hx, i / L.pixelsWide, hy, ?_⟩
    rw [sampleStart_eight h.eightBits, h.sampleByte_eq hp hx hy, Nat.div_add_mod, h.eightBits]
    omega

theorem Tight.planeBit (h : L.Tight) (hk : L.ScannedBit p k) : L.PlaneBit p k := by
  obtain ⟨rfl, i, hi, hk⟩ := hk
  have hp := L.numColors_pos
  refine ⟨?_, ?_⟩
  · unfold planeCount
    split <;> omega
  · have hn := Nat.mul_le_mul_left L.numColors hi
    have ha : L.numColors * (L.pixelsHigh * L.pixelsWide) ≤ L.bytesPerRow * L.pixelsHigh := by
      calc L.numColors * (L.pixelsHigh * L.pixelsWide) = L.numColors * L.pixelsWide * L.pixelsHigh := by ring
        _ ≤ L.bytesPerRow * L.pixelsHigh := Nat.mul_le_mul_right _ h.wideEnough
    rw [Nat.mul_succ] at hn
    omega

/-! ## No other layout -/

theorem pixelStart_zero (L : BitmapLayout) : L.pixelStart 0 = 0 := by
  unfold pixelStart
  split
  · rfl
  · split <;> simp

theorem pixelStart_mono {x' : Nat} (h : x ≤ x') : L.pixelStart x ≤ L.pixelStart x' := by
  have hm : L.bitsPerPixel * x ≤ L.bitsPerPixel * x' := Nat.mul_le_mul_left _ h
  unfold pixelStart
  split
  · omega
  · split <;> omega

theorem le_pixelStart (hp : L.planeSamples * L.bitsPerSample ≤ L.bitsPerPixel) (x : Nat) :
    L.planeSamples * L.bitsPerSample * x ≤ L.pixelStart x := by
  have hm : L.planeSamples * L.bitsPerSample * x ≤ L.bitsPerPixel * x := Nat.mul_le_mul_right _ hp
  unfold pixelStart
  split
  · rename_i h
    rw [planeSamples, if_pos h.2, h.1]
  · split
    · rename_i hb
      obtain ⟨bytes, hby⟩ := planeSamples_bytes hb
      rw [hby, Nat.mul_assoc] at hm ⊢
      omega
    · exact hm

/-- Where the last alpha sample ends. -/
def alphaEnd (L : BitmapLayout) : Nat :=
  L.sampleStart (L.pixelsWide - 1) (L.pixelsHigh - 1) L.alphaIndex + L.bitsPerSample

theorem sampleStart_le_last (hx : x < L.pixelsWide) (hy : y < L.pixelsHigh) :
    L.sampleStart x y L.alphaIndex + L.bitsPerSample ≤ L.alphaEnd := by
  have hr : L.bytesPerRow * y ≤ L.bytesPerRow * (L.pixelsHigh - 1) := Nat.mul_le_mul_left _ (by omega)
  have hp := pixelStart_mono (L := L) (show x ≤ L.pixelsWide - 1 by omega)
  unfold alphaEnd sampleStart
  omega

/-- The first and the last bits that are read and those of the alpha samples are the same. -/
theorem ends_of_sameBits (hs : ∀ p k, L.ScannedBit p k ↔ L.AlphaBit p k) :
    L.plane L.alphaIndex = 0 ∧ L.channel L.alphaIndex * L.bitsPerSample = 8 * (L.numColors - 1) ∧
      L.alphaEnd = 8 * (L.numColors * (L.pixelsHigh * L.pixelsWide)) := by
  have hw := L.pixelsWide_pos
  have hh := L.pixelsHigh_pos
  have hbt := L.bitsPerSample_pos
  have hc := L.numColors_pos
  have hp : 0 < L.pixelsHigh * L.pixelsWide := Nat.mul_pos hh hw
  -- the first alpha sample
  have hf : L.sampleStart 0 0 L.alphaIndex = L.channel L.alphaIndex * L.bitsPerSample := by
    unfold sampleStart
    rw [pixelStart_zero]
    omega
  obtain ⟨hpl, i, hi, hb⟩ := (hs _ _).mpr
    (⟨rfl, 0, hw, 0, hh, le_rfl, by omega⟩ : L.AlphaBit (L.plane L.alphaIndex) (L.sampleStart 0 0 L.alphaIndex))
  obtain ⟨-, x, hx, y, hy, hle, hlt⟩ := (hs 0 (8 * (L.numColors - 1))).mp
    ⟨rfl, 0, hp, by omega⟩
  have hst : L.channel L.alphaIndex * L.bitsPerSample ≤ L.sampleStart x y L.alphaIndex := by
    unfold sampleStart
    omega
  -- the last one
  have hcnt : L.numColors * (L.pixelsHigh * L.pixelsWide - 1) + L.numColors =
      L.numColors * (L.pixelsHigh * L.pixelsWide) := by
    rw [← Nat.mul_succ]
    congr 1
    omega
  have he : L.sampleStart (L.pixelsWide - 1) (L.pixelsHigh - 1) L.alphaIndex + L.bitsPerSample = L.alphaEnd := rfl
  obtain ⟨-, i', hi', hb'⟩ := (hs (L.plane L.alphaIndex) (L.alphaEnd - 1)).mpr
    ⟨rfl, L.pixelsWide - 1, by omega, L.pixelsHigh - 1, by omega, by omega, by omega⟩
  obtain ⟨-, x', hx', y', hy', -, hlt'⟩ :=
    (hs 0 (8 * (L.numColors * (L.pixelsHigh * L.pixelsWide - 1) + (L.numColors - 1)) + 7)).mp
      ⟨rfl, L.pixelsHigh * L.pixelsWide - 1, by omega, by omega⟩
  have hl := sampleStart_le_last hx' hy'
  have hidx : L.numColors * i' ≤ L.numColors * (L.pixelsHigh * L.pixelsWide - 1) := Nat.mul_le_mul_left _ (by omega)
  rw [hf] at hb
  exact ⟨hpl, by omega, by omega⟩

theorem eight_le_of_sameBits (ho : L.numColors = 1) (hs : ∀ p k, L.ScannedBit p k ↔ L.AlphaBit p k) :
    8 ≤ L.bitsPerSample := by
  have hc : Finset.range (L.pixelsHigh * L.pixelsWide * 8) ⊆
      (Finset.range L.pixelsWide ×ˢ Finset.range L.pixelsHigh).biUnion fun place =>
        Finset.Ico (L.sampleStart place.1 place.2 L.alphaIndex)
          (L.sampleStart place.1 place.2 L.alphaIndex + L.bitsPerSample) := by
    intro k hk
    rw [Finset.mem_range] at hk
    obtain ⟨-, x, hx, y, hy, hin⟩ := (hs 0 k).mp ⟨rfl, k / 8, by omega, by rw [ho]; omega⟩
    rw [Finset.mem_biUnion]
    exact ⟨(x, y), Finset.mem_product.mpr ⟨Finset.mem_range.mpr hx, Finset.mem_range.mpr hy⟩, Finset.mem_Ico.mpr hin⟩
  have hcr := (Finset.card_le_card hc).trans
    (Finset.card_biUnion_le_card_mul _ _ L.bitsPerSample fun place _ => by rw [Nat.card_Ico]; omega)
  rw [Finset.card_range, Finset.card_product, Finset.card_range, Finset.card_range, Nat.mul_comm L.pixelsWide] at hcr
  exact Nat.le_of_mul_le_mul_left hcr (Nat.mul_pos L.pixelsHigh_pos L.pixelsWide_pos)

theorem tight_of_sameBits (hpx : L.planeSamples * L.bitsPerSample ≤ L.bitsPerPixel)
    (hrd : ∀ p k, L.ScannedBit p k → L.PlaneBit p k) (hsm : ∀ p k, L.ScannedBit p k ↔ L.AlphaBit p k) : L.Tight := by
  obtain ⟨hpn, hf, hls⟩ := ends_of_sameBits hsm
  have hc := L.numColors_pos
  have hbt := L.bitsPerSample_pos
  -- the last bit is in the planes
  have hin : L.alphaEnd ≤ 8 * (L.bytesPerRow * L.pixelsHigh) := by
    have hwd := L.pixelsWide_pos
    have hh := L.pixelsHigh_pos
    have he : L.sampleStart (L.pixelsWide - 1) (L.pixelsHigh - 1) L.alphaIndex + L.bitsPerSample = L.alphaEnd := rfl
    have hb := hrd _ _ ((hsm (L.plane L.alphaIndex) (L.alphaEnd - 1)).mpr
      ⟨rfl, L.pixelsWide - 1, by omega, L.pixelsHigh - 1, by omega, by omega, by omega⟩)
    have := hb.2
    omega
  have he : L.alphaEnd = 8 * (L.bytesPerRow * (L.pixelsHigh - 1)) + L.pixelStart (L.pixelsWide - 1) +
      8 * (L.numColors - 1) + L.bitsPerSample := by
    unfold alphaEnd sampleStart
    rw [hf]
  have hst := le_pixelStart hpx (L.pixelsWide - 1)
  obtain ⟨wide, hwd⟩ : ∃ wide, L.pixelsWide = wide + 1 := Nat.exists_eq_add_of_le' L.pixelsWide_pos
  obtain ⟨high, hh⟩ : ∃ high, L.pixelsHigh = high + 1 := Nat.exists_eq_add_of_le' L.pixelsHigh_pos
  rw [hwd, hh] at he hls
  rw [hh] at hin
  rw [hwd] at hst
  rw [Nat.add_sub_cancel, Nat.add_sub_cancel] at he
  rw [Nat.add_sub_cancel] at hst
  have ha : L.numColors = 1 ∨ (L.isPlanar = false ∧ L.format.alphaFirst = false) := by
    unfold channel alphaIndex at hf
    cases hpl : L.isPlanar with
    | true =>
      rw [hpl, if_pos rfl] at hf
      omega
    | false =>
      cases hfor : L.format.alphaFirst with
      | true =>
        rw [hpl, hfor, if_neg Bool.noConfusion, if_pos rfl] at hf
        omega
      | false => exact .inr ⟨rfl, rfl⟩
  have hss : L.planeSamples = L.numColors := by
    unfold planeSamples
    rcases ha with ho | hm
    · split <;> omega
    · rw [if_neg (by rw [hm.1]; exact Bool.noConfusion)]
  rw [hss] at hst
  have height : L.bitsPerSample = 8 := by
    by_cases ho : L.numColors = 1
    · -- the rows are apart, so that the samples do not take more bits than the scan reads
      rw [ho] at he hls hst
      rw [Nat.one_mul] at hls hst
      have hr : L.bitsPerSample * (wide + 1) ≤ 8 * L.bytesPerRow := by
        rw [Nat.mul_succ] at hin ⊢
        omega
      have hrw : L.bitsPerSample * (wide + 1) * high ≤ 8 * L.bytesPerRow * high := Nat.mul_le_mul_right _ hr
      have hall : L.bitsPerSample * ((wide + 1) * (high + 1)) ≤ 8 * ((wide + 1) * (high + 1)) := by nlinarith
      have hle := Nat.le_of_mul_le_mul_right hall (Nat.mul_pos (Nat.succ_pos wide) (Nat.succ_pos high))
      exact le_antisymm hle (eight_le_of_sameBits ho hsm)
    · obtain ⟨hm, hl⟩ := ha.resolve_left ho
      unfold channel alphaIndex at hf
      rw [hm, hl, if_neg Bool.noConfusion, if_neg Bool.noConfusion, Nat.mul_comm] at hf
      exact Nat.eq_of_mul_eq_mul_right (by omega) hf
  obtain ⟨bytes, hby⟩ : ∃ bytes, L.pixelStart wide = 8 * bytes := by
    unfold pixelStart
    split
    · exact ⟨_, rfl⟩
    · exact ⟨_, if_pos (.inl height)⟩
  rw [height, hby] at he
  rw [height, hby] at hst
  have hst : L.numColors * wide ≤ bytes := by
    rw [Nat.mul_right_comm] at hst
    omega
  have hbw : bytes + L.numColors ≤ L.bytesPerRow := by
    rw [Nat.mul_succ] at hin
    omega
  have hw : L.numColors * (wide + 1) ≤ L.bytesPerRow := by
    rw [Nat.mul_succ]
    omega
  have hrw : L.numColors * (wide + 1) * high ≤ L.bytesPerRow * high := Nat.mul_le_mul_right _ hw
  have ht : L.bytesPerRow * high + bytes + L.numColors = L.numColors * ((high + 1) * (wide + 1)) := by omega
  have hs : L.numColors * ((high + 1) * (wide + 1)) = L.numColors * (wide + 1) * high + L.numColors * wide + L.numColors := by
    ring
  refine ⟨height, ha, by rwa [hwd], ?_, ?_⟩
  · have hall : L.bytesPerRow * high = L.numColors * (wide + 1) * high := by omega
    rcases Nat.eq_zero_or_pos high with hz | hp
    · exact .inl (by rw [hh, hz])
    · right
      rw [hwd]
      exact Nat.eq_of_mul_eq_mul_right hp hall
  · have hpix : bytes = L.numColors * wide := by omega
    cases hpl : L.isPlanar with
    | true => exact .inl rfl
    | false =>
      right
      rw [pixelStart, if_neg (by simp [hpl]), if_pos (.inl height)] at hby
      rw [hwd, Nat.add_sub_cancel]
      omega

end Tightness

/-- Any bits per pixel from the natural ones on, and any bytes per row. -/
theorem detectsOpaque_iff {L : BitmapLayout} (halpha : L.hasAlpha = true)
    (hpixel : (if L.isPlanar then 1 else L.numColors) * L.bitsPerSample ≤ L.bitsPerPixel) :
    L.DetectsOpaque ↔ L.pixelsHigh * L.pixelsWide < 2 ^ 32 ∧ L.Tight := by
  rw [detectsOpaque_iff_bits halpha]
  refine and_congr_right fun _ => ⟨fun h => tight_of_sameBits hpixel h.1 h.2, fun h => ?_⟩
  exact ⟨fun p k hk => h.planeBit hk, fun p k => (h.alphaBit_iff hpixel).symm⟩

/-- Meshed red, green, blue and alpha of 8 bits each. -/
def rgbaLayout : BitmapLayout where
  pixelsWide := 3
  pixelsHigh := 2
  bitsPerSample := 8
  numColors := 4
  hasAlpha := true
  isPlanar := false
  format := ⟨false, false, false, false⟩
  bytesPerRow := 12
  bitsPerPixel := 32
  hostBigEndian := false
  pixelsWide_pos := Nat.succ_pos 2
  pixelsHigh_pos := Nat.two_pos
  bitsPerSample_pos := (grayLayout false).bitsPerSample_pos
  numColors_pos := Nat.succ_pos 3

theorem detectsOpaque_rgba : rgbaLayout.DetectsOpaque :=
  (detectsOpaque_iff rfl (by decide)).mpr ⟨by decide, ⟨rfl, .inr ⟨rfl, rfl⟩, by decide, .inr rfl, .inr rfl⟩⟩

/-- One pixel of a gray and an alpha in two planes of one byte each. -/
def planarPixel : BitmapLayout where
  pixelsWide := 1
  pixelsHigh := 1
  bitsPerSample := 8
  numColors := 2
  hasAlpha := true
  isPlanar := true
  format := ⟨false, false, false, false⟩
  bytesPerRow := 1
  bitsPerPixel := 8
  hostBigEndian := false
  pixelsWide_pos := Nat.one_pos
  pixelsHigh_pos := Nat.one_pos
  bitsPerSample_pos := (grayLayout true).bitsPerSample_pos
  numColors_pos := Nat.two_pos

/-- The second byte of the first plane is read, which is not there. -/
theorem not_detectsOpaque :
    ¬ ∀ L : BitmapLayout, L.hasAlpha = true → (if L.isPlanar then 1 else L.numColors) * L.bitsPerSample ≤ L.bitsPerPixel →
      L.DetectsOpaque := by
  intro h
  obtain ⟨isOpaque, hs, -⟩ := h planarPixel rfl (by decide) _ (supplied_fullBut 2 0)
  have hf : planarPixel.initOpaque (planarPixel.fullBut 2 0) = none := by decide
  exact Option.some_ne_none isOpaque (hs.symm.trans hf)

end BitmapLayout

end GnustepGui.BitmapImageRep
