import GnustepGui.BitmapImageRep.BitFields
import Mathlib.Algebra.Order.Ring.Nat

/-!
# Setting and getting pixels

In a layout with at least the natural bits per pixel and bytes per row the samples are fields apart from
each other, each in its row. What `setPixel:atX:y:` puts there `getPixel:atX:y:` finds, all other pixels
stay, and no byte outside the row is touched, if and only if no sample reaches over three bytes
(`packs_iff`).
-/

namespace GnustepGui.BitmapImageRep

open ByteStore

theorem mapM_range_eq_some {α : Type} {f : Nat → Option α} {n : Nat} {l : List α} :
    (List.range n).mapM f = some l ↔ l.length = n ∧ ∀ i < n, f i = l[i]? := by
  induction n generalizing l with
  | zero => simp [List.length_eq_zero_iff, eq_comm]
  | succ n ih =>
    have hlp : (List.range (n + 1)).mapM f = some l ↔ ∃ a, (List.range n).mapM f = some a ∧ ∃ b, f n = some b ∧ l = a ++ [b] := by
      rw [List.range_succ, List.mapM_append]
      simp only [List.mapM_cons, List.mapM_nil, Option.pure_def, Option.bind_eq_bind, Option.bind_eq_some_iff, Option.some.injEq]
      grind
    rw [hlp]
    constructor
    · rintro ⟨a, ha, b, hb, rfl⟩
      obtain ⟨hl, hv⟩ := ih.mp ha
      refine ⟨by simp [hl], fun i hi => ?_⟩
      rcases Nat.lt_succ_iff_lt_or_eq.mp hi with h | rfl
      · rw [hv i h, List.getElem?_append_left (by omega)]
      · rw [hb, ← hl, List.getElem?_concat_length]
    · rintro ⟨hl, hv⟩
      rcases List.eq_nil_or_concat l with rfl | ⟨a, b, rfl⟩
      · exact absurd hl (Nat.succ_ne_zero n).symm
      · rw [List.concat_eq_append] at hl hv ⊢
        have hn : a.length = n := by simpa using hl
        refine ⟨a, ih.mpr ⟨hn, fun i hi => ?_⟩, b, ?_, rfl⟩
        · rw [hv i (by omega), List.getElem?_append_left (by omega)]
        · rw [hv n (by omega), ← hn, List.getElem?_concat_length]

namespace BitmapLayout

/-! ## Where the samples are -/

/-- The samples of a pixel that are in one plane. -/
def planeSamples (L : BitmapLayout) : Nat := if L.isPlanar then 1 else L.numColors

/-- The planes in use. -/
def planeCount (L : BitmapLayout) : Nat := if L.isPlanar then L.numColors else 1

def plane (L : BitmapLayout) (i : Nat) : Nat := if L.isPlanar then i else 0

/-- The place of a sample among those of its pixel in its plane. -/
def channel (L : BitmapLayout) (i : Nat) : Nat := if L.isPlanar then 0 else i

/-- At least the bits and the bytes that the samples need. -/
structure Natural (L : BitmapLayout) : Prop where
  pixel : L.planeSamples * L.bitsPerSample ≤ L.bitsPerPixel
  row : L.pixelsWide * L.bitsPerPixel ≤ 8 * L.bytesPerRow

/-- The offset of a sample in the row, as the source counts it. -/
def sampleOffset (L : BitmapLayout) (x i : Nat) : Nat := L.bitsPerPixel * x + L.channel i * L.bitsPerSample

/-- The first bit of a pixel in the row: samples of whole bytes begin with a byte. -/
def pixelStart (L : BitmapLayout) (x : Nat) : Nat :=
  if L.bitsPerSample = 8 ∧ L.isPlanar = true then 8 * x
  else if L.bitsPerSample = 8 ∨ L.bitsPerSample = 16 then 8 * (L.bitsPerPixel * x / 8)
  else L.bitsPerPixel * x

/-- The first bit of a sample in its plane. -/
def sampleStart (L : BitmapLayout) (x y i : Nat) : Nat :=
  8 * (L.bytesPerRow * y) + L.pixelStart x + L.channel i * L.bitsPerSample

/-- The byte of a sample of 8 bits. -/
def sampleByte (L : BitmapLayout) (x y i : Nat) : Nat :=
  if L.isPlanar then x + L.bytesPerRow * y else L.bitsPerPixel * x / 8 + L.bytesPerRow * y + i

/-- There are all bytes of a row. -/
def RowPresent (L : BitmapLayout) (planes : Planes) (y : Nat) : Prop :=
  ∀ plane < L.planeCount, ∀ a, L.bytesPerRow * y ≤ a → a < L.bytesPerRow * y + L.bytesPerRow →
    (planes plane a).isSome

/-- No sample that is not read byte by byte reaches over three bytes. -/
def WithinTwoBytes (L : BitmapLayout) : Prop :=
  L.bitsPerSample = 16 ∨ ∀ x < L.pixelsWide, ∀ i < L.numColors, L.sampleOffset x i % 8 + L.bitsPerSample ≤ 16

section Places

variable {L : BitmapLayout} {x x' y i i' : Nat}

theorem plane_lt (hi : i < L.numColors) : L.plane i < L.planeCount := by
  unfold plane planeCount
  split
  · exact hi
  · exact Nat.one_pos

theorem channel_lt (hi : i < L.numColors) : L.channel i < L.planeSamples := by
  unfold channel planeSamples
  split
  · exact Nat.one_pos
  · exact hi

theorem channel_end (hi : i < L.numColors) :
    L.channel i * L.bitsPerSample + L.bitsPerSample ≤ L.planeSamples * L.bitsPerSample := by
  rw [← Nat.succ_mul]
  exact Nat.mul_le_mul_right _ (channel_lt hi)

theorem planeSamples_bytes (hb : L.bitsPerSample = 8 ∨ L.bitsPerSample = 16) :
    ∃ bytes, L.planeSamples * L.bitsPerSample = 8 * bytes := by
  rcases hb with h | h
  · exact ⟨L.planeSamples, by rw [h, Nat.mul_comm]⟩
  · exact ⟨L.planeSamples * 2, by rw [h]; omega⟩

theorem pixelStart_end (hL : L.Natural) (hx : x < x') :
    L.pixelStart x + L.planeSamples * L.bitsPerSample ≤ L.pixelStart x' := by
  have hp := hL.pixel
  have hn : L.bitsPerPixel * x + L.bitsPerPixel ≤ L.bitsPerPixel * x' := by
    rw [← Nat.mul_succ]
    exact Nat.mul_le_mul_left _ hx
  unfold pixelStart
  split
  · rename_i h
    rw [planeSamples, if_pos h.2, h.1]
    omega
  · split
    · rename_i hb
      obtain ⟨bytes, hby⟩ := planeSamples_bytes hb
      omega
    · omega

theorem pixelStart_row (hL : L.Natural) (hx : x < L.pixelsWide) :
    L.pixelStart x + L.planeSamples * L.bitsPerSample ≤ 8 * L.bytesPerRow := by
  have hp := hL.pixel
  have hr := hL.row
  have hn : L.bitsPerPixel * x + L.bitsPerPixel ≤ L.pixelsWide * L.bitsPerPixel := by
    rw [← Nat.mul_succ, Nat.mul_comm]
    exact Nat.mul_le_mul_right _ hx
  unfold pixelStart
  split
  · rename_i h
    rw [planeSamples, if_pos h.2, h.1] at hp ⊢
    have hw : 8 * (x + 1) ≤ L.bitsPerPixel * (x + 1) := Nat.mul_le_mul_right _ (by omega)
    have he : L.bitsPerPixel * (x + 1) = L.bitsPerPixel * x + L.bitsPerPixel := Nat.mul_succ _ _
    omega
  · split
    · rename_i hb
      omega
    · omega

theorem sampleStart_apart (hL : L.Natural) (hi : i < L.numColors) (hi' : i' < L.numColors) (hne : (x, i) ≠ (x', i')) :
    L.plane i ≠ L.plane i' ∨ L.sampleStart x y i + L.bitsPerSample ≤ L.sampleStart x' y i' ∨
      L.sampleStart x' y i' + L.bitsPerSample ≤ L.sampleStart x y i := by
  have he := channel_end hi
  have he' := channel_end hi'
  unfold sampleStart
  rcases Nat.lt_trichotomy x x' with hx | rfl | hx
  · have := pixelStart_end hL hx
    omega
  · have hne : i ≠ i' := fun h => hne (by rw [h])
    unfold plane channel
    split
    · exact .inl hne
    · right
      rcases Nat.lt_or_gt_of_ne hne with h | h
      · have := Nat.mul_le_mul_right L.bitsPerSample h
        rw [Nat.succ_mul] at this
        omega
      · have := Nat.mul_le_mul_right L.bitsPerSample h
        rw [Nat.succ_mul] at this
        omega
  · have := pixelStart_end hL hx
    omega

theorem sampleStart_row (hL : L.Natural) (hx : x < L.pixelsWide) (hi : i < L.numColors) :
    8 * (L.bytesPerRow * y) ≤ L.sampleStart x y i ∧
      L.sampleStart x y i + L.bitsPerSample ≤ 8 * (L.bytesPerRow * y + L.bytesPerRow) := by
  have he := channel_end hi
  have hr := pixelStart_row hL hx
  unfold sampleStart
  omega

theorem fieldPresent_of_row {planes : Planes} (hL : L.Natural) (hx : x < L.pixelsWide) (hi : i < L.numColors)
    (hr : L.RowPresent planes y) : FieldPresent planes (L.plane i) (L.sampleStart x y i) L.bitsPerSample := by
  intro k hk hk'
  have hin := sampleStart_row (y := y) hL hx hi
  exact hr _ (plane_lt hi) _ (by omega) (by omega)

theorem fieldStart_sampleOffset (h8 : L.bitsPerSample ≠ 8) :
    fieldStart (L.bytesPerRow * y) (L.sampleOffset x i) L.bitsPerSample = L.sampleStart x y i := by
  have hp : ¬ (L.bitsPerSample = 8 ∧ L.isPlanar = true) := fun h => h8 h.1
  unfold fieldStart sampleOffset sampleStart pixelStart
  rw [if_neg hp]
  by_cases h16 : L.bitsPerSample = 16
  · rw [if_pos h16, if_pos (.inr h16), h16]
    omega
  · rw [if_neg h16, if_neg (by simp [h8, h16])]
    omega

theorem sampleStart_eight (h8 : L.bitsPerSample = 8) : L.sampleStart x y i = 8 * L.sampleByte x y i := by
  unfold sampleStart pixelStart channel sampleByte
  cases hp : L.isPlanar with
  | true => simp [h8]; omega
  | false => simp [h8]; omega

end Places

/-! ## One sample -/

section Samples

variable {L : BitmapLayout} {planes : Planes} {x y i : Nat}

/-- The bit of a field that stands for the bit `j` of its value, from the most significant one on. -/
def bitPlace (L : BitmapLayout) (j : Nat) : Nat := bitOrder L.bitsPerSample L.bigEndian j

theorem bitPlace_eight (h8 : L.bitsPerSample = 8) (j : Nat) : L.bitPlace j = j :=
  if_neg fun h => absurd (h8.symm.trans h.1) (by decide)

theorem getSample_eight (h8 : L.bitsPerSample = 8) :
    L.getSample planes x y i = (planes (L.plane i) (L.sampleByte x y i)).map fun byte => byte.setWidth 32 := by
  unfold getSample plane sampleByte
  cases L.isPlanar with
  | true => simp [h8]
  | false => simp [h8]

theorem getSample_field (h8 : L.bitsPerSample ≠ 8) : L.getSample planes x y i =
      getBitValue planes (L.plane i) (L.bytesPerRow * y) (L.sampleOffset x i) L.bitsPerSample L.bigEndian := by
  unfold getSample plane sampleOffset channel
  cases L.isPlanar with
  | true => simp [h8]
  | false => simp [h8]

theorem setSample_eight (h8 : L.bitsPerSample = 8) (value : Nat) :
    L.setSample planes x y i value = planes.store (L.plane i) (L.sampleByte x y i) (BitVec.ofNat 8 value) := by
  unfold setSample plane sampleByte
  cases L.isPlanar with
  | true => simp [h8]
  | false => simp [h8]

theorem setSample_field (h8 : L.bitsPerSample ≠ 8) (value : Nat) : L.setSample planes x y i value =
      setBitValue planes (L.plane i) (L.bytesPerRow * y) (L.sampleOffset x i) L.bitsPerSample L.bigEndian
        (BitVec.ofNat 32 value) := by
  unfold setSample plane sampleOffset channel
  cases L.isPlanar with
  | true => simp [h8]
  | false => simp [h8]

theorem getSample_spec (hf : L.bitsPerSample = 16 ∨ L.sampleOffset x i % 8 + L.bitsPerSample ≤ 16)
    (hp : FieldPresent planes (L.plane i) (L.sampleStart x y i) L.bitsPerSample) :
    ∃ value, L.getSample planes x y i = some value ∧ value.toNat < 2 ^ L.bitsPerSample ∧
      ∀ j < L.bitsPerSample, value.getLsbD (L.bitsPerSample - 1 - j) =
        bitAt planes (L.plane i) (L.sampleStart x y i + L.bitPlace j) := by
  by_cases h8 : L.bitsPerSample = 8
  · rw [sampleStart_eight h8] at hp ⊢
    obtain ⟨byte, hb⟩ := Option.isSome_iff_exists.mp (hp _ le_rfl (by omega))
    rw [Nat.mul_div_cancel_left _ (by decide)] at hb
    rw [getSample_eight h8, hb]
    refine ⟨_, rfl, ?_, fun j hj => ?_⟩
    · rw [h8, BitVec.toNat_setWidth]
      exact Nat.lt_of_le_of_lt (Nat.mod_le _ _) byte.isLt
    · rw [bitPlace_eight h8, h8]
      rw [h8] at hj
      rw [BitVec.getLsbD_setWidth, decide_eq_true (by omega), Bool.true_and, getLsbD_of_bitAt hb (by omega)]
      congr 2
      omega
  · rw [getSample_field h8, ← fieldStart_sampleOffset h8]
    rw [← fieldStart_sampleOffset h8] at hp
    exact getBitValue_spec L.bitsPerSample_pos hf hp

theorem setSample_spec (hf : L.bitsPerSample = 16 ∨ L.sampleOffset x i % 8 + L.bitsPerSample ≤ 16)
    (hp : FieldPresent planes (L.plane i) (L.sampleStart x y i) L.bitsPerSample) (value : Nat) :
    ∃ planes', L.setSample planes x y i value = some planes' ∧
      Wrote planes planes' (L.plane i) (L.sampleStart x y i) L.bitsPerSample
        fun j => (BitVec.ofNat 32 value).getLsbD (L.bitsPerSample - 1 - L.bitPlace j) := by
  by_cases h8 : L.bitsPerSample = 8
  · rw [sampleStart_eight h8] at hp ⊢
    have hb := hp _ le_rfl (by omega)
    rw [Nat.mul_div_cancel_left _ (by decide)] at hb
    rw [setSample_eight h8, store_eq hb]
    refine ⟨_, rfl, ?_⟩
    simp only [bitPlace_eight h8]
    rw [h8]
    refine (wrote_put hb _).congr fun j hj => ?_
    rw [BitVec.getLsbD_ofNat, BitVec.getLsbD_ofNat, decide_eq_true (by omega), decide_eq_true (by omega)]
  · rw [setSample_field h8, ← fieldStart_sampleOffset h8]
    rw [← fieldStart_sampleOffset h8] at hp
    exact setBitValue_spec L.bitsPerSample_pos hf hp _

/-- A sample is made of the bits of its field alone. -/
theorem getSample_eq_of_bits {value : BitVec 32}
    (hf : L.bitsPerSample = 16 ∨ L.sampleOffset x i % 8 + L.bitsPerSample ≤ 16)
    (hpr : FieldPresent planes (L.plane i) (L.sampleStart x y i) L.bitsPerSample)
    (hv : value.toNat < 2 ^ L.bitsPerSample)
    (hbt : ∀ j < L.bitsPerSample, bitAt planes (L.plane i) (L.sampleStart x y i + j) =
      value.getLsbD (L.bitsPerSample - 1 - L.bitPlace j)) : L.getSample planes x y i = some value := by
  obtain ⟨read, hr, hlt, hfl⟩ := getSample_spec hf hpr
  rw [hr, Option.some_inj]
  refine BitVec.eq_of_getLsbD_eq fun u _ => ?_
  by_cases hu : u < L.bitsPerSample
  · have hplc : L.bitPlace (L.bitsPerSample - 1 - u) < L.bitsPerSample := bitOrder_lt _ (by omega)
    have hb := hfl (L.bitsPerSample - 1 - u) (by omega)
    rw [hbt _ hplc] at hb
    unfold bitPlace at hb
    rw [bitOrder_bitOrder _ (by omega)] at hb
    rwa [show L.bitsPerSample - 1 - (L.bitsPerSample - 1 - u) = u by omega] at hb
  · have hp : 2 ^ L.bitsPerSample ≤ 2 ^ u := Nat.pow_le_pow_right (by decide) (by omega)
    rw [BitVec.getLsbD, BitVec.getLsbD, Nat.testBit_lt_two_pow (hlt.trans_le hp),
      Nat.testBit_lt_two_pow (hv.trans_le hp)]

end Samples

/-! ## One pixel -/

/-- The first `m` samples of a pixel have been written, and nothing else has changed. -/
structure WrotePixel (L : BitmapLayout) (planes planes' : Planes) (pixelData : List Nat) (x y m : Nat) : Prop where
  present : ∀ p a, (planes' p a).isSome = (planes p a).isSome
  written : ∀ i < m, ∀ value ∈ pixelData[i]?, ∀ j < L.bitsPerSample,
    bitAt planes' (L.plane i) (L.sampleStart x y i + j) =
      (BitVec.ofNat 32 value).getLsbD (L.bitsPerSample - 1 - L.bitPlace j)
  frame : ∀ p k, (∀ i < m, ¬ (p = L.plane i ∧ L.sampleStart x y i ≤ k ∧ k < L.sampleStart x y i + L.bitsPerSample)) →
    bitAt planes' p k = bitAt planes p k

section Pixels

variable {L : BitmapLayout} {planes planes' : Planes} {pixelData : List Nat} {x y : Nat}

theorem RowPresent.congr (hr : L.RowPresent planes y) (hs : ∀ p a, (planes' p a).isSome = (planes p a).isSome) :
    L.RowPresent planes' y := fun plane hp a ha ha' => (hs plane a).trans (hr plane hp a ha ha')

theorem setSamples_wrote (hL : L.Natural) (hft : L.WithinTwoBytes) (hx : x < L.pixelsWide)
    (hr : L.RowPresent planes y) (hl : pixelData.length = L.numColors) {m : Nat} (hm : m ≤ L.numColors) :
    ∃ planes',
      (List.range m).foldlM
          (fun planes i => do
            let value ← pixelData[i]?
            L.setSample planes x y i value) planes = some planes' ∧
        L.WrotePixel planes planes' pixelData x y m := by
  induction m with
  | zero =>
    refine ⟨planes, rfl, fun _ _ => rfl, fun i hi => absurd hi (Nat.not_lt_zero i), fun _ _ _ => rfl⟩
  | succ m ih =>
    obtain ⟨before, hb, hw⟩ := ih (by omega)
    have hpr := fieldPresent_of_row hL hx (i := m) (by omega) (hr.congr hw.present)
    obtain ⟨last, hls⟩ : ∃ value, pixelData[m]? = some value :=
      ⟨_, List.getElem?_eq_getElem (by omega : m < pixelData.length)⟩
    obtain ⟨after, ha, hf⟩ := setSample_spec (hft.imp_right fun h => h x hx m (by omega)) hpr last
    refine ⟨after, ?_, fun p a => (hf.present p a).trans (hw.present p a), ?_, ?_⟩
    · rw [List.range_succ, List.foldlM_append, hb]
      simp [hls, ha]
    · intro i hi value hv j hj
      rw [hf.bits]
      rcases Nat.lt_succ_iff_lt_or_eq.mp hi with him | rfl
      · -- the sample is apart from those before
        have hp : (x, i) ≠ (x, m) := fun h => absurd (congrArg Prod.snd h) him.ne
        have hap := sampleStart_apart (y := y) hL (by omega) (by omega) hp
        rw [if_neg (by omega)]
        exact hw.written i him value hv j hj
      · rw [if_pos ⟨rfl, by omega, by omega⟩]
        rw [hls] at hv
        rw [Nat.add_sub_cancel_left, Option.some.inj hv]
    · intro p k hk
      rw [hf.bits, if_neg (hk m (Nat.lt_succ_self m))]
      exact hw.frame p k fun i hi => hk i (by omega)

theorem setPixel_wrote (hL : L.Natural) (hf : L.WithinTwoBytes) (hx : x < L.pixelsWide) (hy : y < L.pixelsHigh)
    (hr : L.RowPresent planes y) (hl : pixelData.length = L.numColors) :
    ∃ planes', L.setPixel planes pixelData x y = some planes' ∧
      L.WrotePixel planes planes' pixelData x y L.numColors := by
  obtain ⟨planes', hlp, hw⟩ := setSamples_wrote hL hf hx hr hl le_rfl
  refine ⟨planes', ?_, hw⟩
  unfold setPixel
  rw [if_neg (by omega), Int.toNat_natCast, Int.toNat_natCast]
  exact hlp

theorem getPixel_inside (hx : x < L.pixelsWide) (hy : y < L.pixelsHigh) (old : List Nat) :
    L.getPixel planes old x y = some pixelData ↔ pixelData.length = L.numColors ∧
        ∀ i < L.numColors, (L.getSample planes x y i).map BitVec.toNat = pixelData[i]? := by
  unfold getPixel
  rw [if_neg (by omega), Int.toNat_natCast, Int.toNat_natCast, mapM_range_eq_some]

theorem getPixel_present (hL : L.Natural) (hf : L.WithinTwoBytes) (hx : x < L.pixelsWide) (hy : y < L.pixelsHigh)
    (hr : L.RowPresent planes y) (old : List Nat) : ∃ values, L.getPixel planes old x y = some values := by
  have hs : ∀ i < L.numColors, ∃ value, L.getSample planes x y i = some value := by
    intro i hi
    obtain ⟨value, hv, -⟩ := getSample_spec (hf.imp_right fun h => h x hx i hi) (fieldPresent_of_row hL hx hi hr)
    exact ⟨value, hv⟩
  refine ⟨(List.range L.numColors).map fun i => ((L.getSample planes x y i).map BitVec.toNat).getD 0, ?_⟩
  rw [getPixel_inside hx hy]
  refine ⟨by rw [List.length_map, List.length_range], fun i hi => ?_⟩
  obtain ⟨value, hv⟩ := hs i hi
  rw [List.getElem?_map, List.getElem?_range hi, Option.map_some, hv]
  rfl

/-- A pixel is made of the bits of its fields alone. -/
theorem getPixel_congr (hL : L.Natural) (hft : L.WithinTwoBytes) (hx : x < L.pixelsWide) (hy : y < L.pixelsHigh)
    (hr : L.RowPresent planes y) (hs : ∀ p a, (planes' p a).isSome = (planes p a).isSome)
    (hb : ∀ i < L.numColors, ∀ j < L.bitsPerSample,
      bitAt planes' (L.plane i) (L.sampleStart x y i + j) = bitAt planes (L.plane i) (L.sampleStart x y i + j))
    (old : List Nat) : L.getPixel planes' old x y = L.getPixel planes old x y := by
  obtain ⟨values, hvl⟩ := getPixel_present hL hft hx hy hr old
  rw [hvl]
  obtain ⟨hl, hss⟩ := (getPixel_inside hx hy old).mp hvl
  refine (getPixel_inside hx hy old).mpr ⟨hl, fun i hi => ?_⟩
  have hf := hft.imp_right fun h => h x hx i hi
  obtain ⟨value, hv, hlt, hfl⟩ := getSample_spec hf (fieldPresent_of_row hL hx hi hr)
  have hsa : L.getSample planes' x y i = some value := by
    refine getSample_eq_of_bits hf (fieldPresent_of_row hL hx hi (hr.congr hs)) hlt fun j hj => ?_
    have hp : L.bitPlace j < L.bitsPerSample := bitOrder_lt _ hj
    rw [hb i hi j hj, hfl _ hp]
    unfold bitPlace
    rw [bitOrder_bitOrder _ hj]
  rw [← hss i hi, hsa, hv]

theorem WrotePixel.getPixel_self (h : L.WrotePixel planes planes' pixelData x y L.numColors) (hL : L.Natural)
    (hf : L.WithinTwoBytes) (hb : L.bitsPerSample ≤ 16) (hx : x < L.pixelsWide) (hy : y < L.pixelsHigh)
    (hr : L.RowPresent planes y) (hl : pixelData.length = L.numColors)
    (hvl : ∀ value ∈ pixelData, value < 2 ^ L.bitsPerSample) (old : List Nat) :
    L.getPixel planes' old x y = some pixelData := by
  refine (getPixel_inside hx hy old).mpr ⟨hl, fun i hi => ?_⟩
  have hg : pixelData[i]? = some pixelData[i] := List.getElem?_eq_getElem (by omega)
  have hv := hvl _ (List.getElem_mem (by omega : i < pixelData.length))
  have hp : 2 ^ L.bitsPerSample ≤ 2 ^ 16 := Nat.pow_le_pow_right (by decide) hb
  have ht : (BitVec.ofNat 32 pixelData[i]).toNat = pixelData[i] := by
    rw [BitVec.toNat_ofNat, Nat.mod_eq_of_lt (by omega)]
  rw [getSample_eq_of_bits (hf.imp_right fun h => h x hx i hi)
    (fieldPresent_of_row hL hx hi (hr.congr h.present)) (by rw [ht]; exact hv)
    (fun j hj => h.written i hi _ hg j hj), Option.map_some, ht, hg]

theorem WrotePixel.getPixel_other {x' y' : Nat} (h : L.WrotePixel planes planes' pixelData x y L.numColors)
    (hL : L.Natural) (hf : L.WithinTwoBytes) (hx : x < L.pixelsWide) (hx' : x' < L.pixelsWide)
    (hy' : y' < L.pixelsHigh) (hne : (x', y') ≠ (x, y)) (hr : L.RowPresent planes y') (old : List Nat) :
    L.getPixel planes' old x' y' = L.getPixel planes old x' y' := by
  refine getPixel_congr hL hf hx' hy' hr h.present (fun i' hi' j hj => h.frame _ _ fun i hi => ?_) old
  by_cases hyy : y' = y
  · subst hyy
    have hp : (x', i') ≠ (x, i) := fun heq => hne (by rw [(Prod.mk.inj heq).1])
    have ha := sampleStart_apart (y := y') hL hi' hi hp
    omega
  · -- the rows are apart
    have hin := sampleStart_row (y := y) hL hx hi
    have hin' := sampleStart_row (y := y') hL hx' hi'
    rcases Nat.lt_or_gt_of_ne hyy with hlt | hlt
    · have hn := Nat.mul_le_mul_left L.bytesPerRow hlt
      rw [Nat.mul_succ] at hn
      omega
    · have hn := Nat.mul_le_mul_left L.bytesPerRow hlt
      rw [Nat.mul_succ] at hn
      omega

theorem WrotePixel.outside (h : L.WrotePixel planes planes' pixelData x y L.numColors) (hL : L.Natural)
    (hx : x < L.pixelsWide) {p a : Nat} (ho : ¬ (L.bytesPerRow * y ≤ a ∧ a < L.bytesPerRow * y + L.bytesPerRow)) :
    planes' p a = planes p a := by
  refine eq_of_bitAt (h.present p a) fun u hu => h.frame _ _ fun i hi => ?_
  have hin := sampleStart_row (y := y) hL hx hi
  omega

end Pixels

/-! ## Packing -/

/-- Samples below `2 ^ bitsPerSample` that are set are got, those of all other pixels stay, and no byte
outside the row is read or written, as there need not be any. -/
def Packs (L : BitmapLayout) : Prop :=
  ∀ planes pixelData x y old, x < L.pixelsWide → y < L.pixelsHigh → L.RowPresent planes y →
    pixelData.length = L.numColors → (∀ value ∈ pixelData, value < 2 ^ L.bitsPerSample) →
    ∃ planes', L.setPixel planes pixelData x y = some planes' ∧ L.getPixel planes' old x y = some pixelData ∧
      (∀ x' y', x' < L.pixelsWide → y' < L.pixelsHigh → (x', y') ≠ (x, y) → L.RowPresent planes y' →
        ∃ values, L.getPixel planes old x' y' = some values ∧ L.getPixel planes' old x' y' = some values) ∧
      ∀ p a, ¬ (L.bytesPerRow * y ≤ a ∧ a < L.bytesPerRow * y + L.bytesPerRow) → planes' p a = planes p a

theorem packs_of_withinTwoBytes {L : BitmapLayout} (hL : L.Natural) (hb : L.bitsPerSample ≤ 16)
    (hf : L.WithinTwoBytes) : L.Packs := by
  intro planes pixelData x y old hx hy hr hl hv
  obtain ⟨planes', hs, hw⟩ := setPixel_wrote hL hf hx hy hr hl
  refine ⟨planes', hs, hw.getPixel_self hL hf hb hx hy hr hl hv old, ?_, ?_⟩
  · intro x' y' hx' hy' hne hr'
    obtain ⟨values, hg⟩ := getPixel_present hL hf hx' hy' hr' old
    exact ⟨values, hg, (hw.getPixel_other hL hf hx hx' hy' hne hr' old).trans hg⟩
  · exact fun p a ho => hw.outside hL hx ho

/-- The greatest values do not come back from a layout where a sample reaches over three bytes. -/
theorem withinTwoBytes_of_packs {L : BitmapLayout} (hb : L.bitsPerSample ≤ 16) (hp : L.Packs) : L.WithinTwoBytes := by
  by_contra hw
  unfold WithinTwoBytes at hw
  push Not at hw
  obtain ⟨h16, x, hx, i, hi, hsp⟩ := hw
  obtain ⟨planes', -, hg, -⟩ := hp (fun _ _ => some 0) (List.replicate L.numColors (2 ^ L.bitsPerSample - 1)) x 0
    [] hx L.pixelsHigh_pos (fun _ _ _ _ _ => rfl) (List.length_replicate)
    (fun value hv => by
      have hpos := Nat.two_pow_pos L.bitsPerSample
      rw [List.eq_of_mem_replicate hv]
      omega)
  have hs := ((getPixel_inside hx L.pixelsHigh_pos []).mp hg).2 i hi
  have h8 : L.bitsPerSample ≠ 8 := by omega
  rw [getSample_field h8, List.getElem?_replicate, if_pos hi, Option.map_eq_some_iff] at hs
  obtain ⟨value, hv, ha⟩ := hs
  exact getBitValue_lt_of_three h16 (by omega) hsp hv ha

theorem packs_iff {L : BitmapLayout} (hL : L.Natural) (hbits : L.bitsPerSample ≤ 16) :
    L.Packs ↔
      L.bitsPerSample = 16 ∨ ∀ x < L.pixelsWide, ∀ i < L.numColors,
        (L.bitsPerPixel * x + (if L.isPlanar then 0 else i) * L.bitsPerSample) % 8 + L.bitsPerSample ≤ 16 :=
  ⟨fun h => withinTwoBytes_of_packs hbits h, fun h => packs_of_withinTwoBytes hL hbits h⟩

/-- Three meshed colors of 4 bits. -/
def fourBits : BitmapLayout where
  pixelsWide := 5
  pixelsHigh := 2
  bitsPerSample := 4
  numColors := 3
  hasAlpha := false
  isPlanar := false
  format := ⟨false, false, false, false⟩
  bytesPerRow := 8
  bitsPerPixel := 12
  hostBigEndian := false
  pixelsWide_pos := by decide
  pixelsHigh_pos := by decide
  bitsPerSample_pos := by decide
  numColors_pos := by decide

theorem packs_fourBits : fourBits.Packs :=
  (packs_iff ⟨by decide, by decide⟩ (by decide)).mpr (.inr (by decide))

/-- A gray of 11 bits: the third pixel begins at the bit 22. -/
def elevenBits : BitmapLayout where
  pixelsWide := 3
  pixelsHigh := 1
  bitsPerSample := 11
  numColors := 1
  hasAlpha := false
  isPlanar := false
  format := ⟨false, false, false, false⟩
  bytesPerRow := 5
  bitsPerPixel := 11
  hostBigEndian := false
  pixelsWide_pos := by decide
  pixelsHigh_pos := by decide
  bitsPerSample_pos := by decide
  numColors_pos := by decide

theorem not_packs : ¬ ∀ L : BitmapLayout, L.Natural → L.bitsPerSample ≤ 16 → L.Packs := fun h =>
  absurd (withinTwoBytes_of_packs (by decide) (h elevenBits ⟨by decide, by decide⟩ (by decide)))
    fun hf => hf.elim (by decide) fun hf => absurd (hf 2 (by decide) 0 (by decide)) (by decide)

end BitmapLayout

end GnustepGui.BitmapImageRep
