import GnustepGui.BitmapImageRep.Pixels

/-!
# Bit fields in bytes

What `_get_bit_value` reads and `_set_bit_value` writes: the bits from `fieldStart` on, from the most
significant one on, if the field reaches over at most two bytes. In a field of 16 bits the byte order
decides which byte is the upper one.
-/

namespace GnustepGui.BitmapImageRep

open ByteStore

/-- The first bit of a field in its plane; one of 16 bits begins with a byte. -/
def fieldStart (base msbOff bitWidth : Nat) : Nat :=
  if bitWidth = 16 then 8 * (base + msbOff / 8) else 8 * base + msbOff

/-- Where the `j`th most significant bit of a field is, from its first bit on. -/
def bitOrder (bitWidth : Nat) (bigEndian : Bool) (j : Nat) : Nat :=
  if bitWidth = 16 ∧ bigEndian = false then (j + 8) % 16 else j

/-- There are bytes for all bits from `start` on. -/
def FieldPresent (planes : Planes) (plane start bitWidth : Nat) : Prop :=
  ∀ k, start ≤ k → k < start + bitWidth → (planes plane (k / 8)).isSome

theorem bitOrder_lt {bitWidth j : Nat} (bigEndian : Bool) (hj : j < bitWidth) :
    bitOrder bitWidth bigEndian j < bitWidth := by
  unfold bitOrder
  split
  · omega
  · exact hj

theorem bitOrder_bitOrder {bitWidth j : Nat} (bigEndian : Bool) (hj : j < bitWidth) :
    bitOrder bitWidth bigEndian (bitOrder bitWidth bigEndian j) = j := by
  unfold bitOrder
  split <;> omega

theorem getLsbD_mask {bitWidth i : Nat} (hi : i < 32) :
    (BitVec.ofNat 32 ((1 <<< bitWidth) - 1)).getLsbD i = decide (i < bitWidth) := by
  rw [BitVec.getLsbD_ofNat, Nat.one_shiftLeft, Nat.testBit_two_pow_sub_one, decide_eq_true hi, Bool.true_and]

theorem toNat_and_mask_lt (value : BitVec 32) {bitWidth : Nat} :
    (value &&& BitVec.ofNat 32 ((1 <<< bitWidth) - 1)).toNat < 2 ^ bitWidth := by
  rw [BitVec.toNat_and, Nat.one_shiftLeft, BitVec.toNat_ofNat]
  have hm : (2 ^ bitWidth - 1) % 2 ^ 32 < 2 ^ bitWidth := by
    have hp : 0 < 2 ^ bitWidth := Nat.two_pow_pos bitWidth
    exact Nat.lt_of_le_of_lt (Nat.mod_le _ _) (by omega)
  exact Nat.and_lt_two_pow _ hm

theorem getLsbD_join {n : Nat} (hn : 16 ≤ n) (upper lower : BitVec 8) {i : Nat} (hi : i < 16) :
    (lower.setWidth n ||| (upper.setWidth n <<< 8)).getLsbD i =
      if i < 8 then lower.getLsbD i else upper.getLsbD (i - 8) := by
  rw [BitVec.getLsbD_or, BitVec.getLsbD_setWidth, BitVec.getLsbD_shiftLeft, BitVec.getLsbD_setWidth]
  have hin : i < n := by omega
  have hin' : i - 8 < n := by omega
  by_cases h : i < 8
  · simp [h, hin]
  · rw [if_neg h, BitVec.getLsbD_of_ge lower i (by omega)]
    simp [h, hin, hin']

theorem getLsbD_join_of_ge {n : Nat} (upper lower : BitVec 8) {i : Nat} (hi : 16 ≤ i) :
    (lower.setWidth n ||| (upper.setWidth n <<< 8)).getLsbD i = false := by
  rw [BitVec.getLsbD_or, BitVec.getLsbD_setWidth, BitVec.getLsbD_shiftLeft, BitVec.getLsbD_setWidth,
    BitVec.getLsbD_of_ge lower i (by omega), BitVec.getLsbD_of_ge upper (i - 8) (by omega)]
  simp

section Fields

variable {planes : Planes} {plane base msbOff bitWidth : Nat} {bigEndian : Bool}

/-! ## Reading -/

theorem getBitValue_sixteen (hp : FieldPresent planes plane (fieldStart base msbOff 16) 16) :
    ∃ value, getBitValue planes plane base msbOff 16 bigEndian = some value ∧ value.toNat < 2 ^ 16 ∧
      ∀ j < 16, value.getLsbD (16 - 1 - j) =
        bitAt planes plane (fieldStart base msbOff 16 + bitOrder 16 bigEndian j) := by
  have hs : fieldStart base msbOff 16 = 8 * (base + msbOff / 8) := if_pos rfl
  rw [hs] at hp ⊢
  obtain ⟨at1, ha1⟩ := Option.isSome_iff_exists.mp (hp (8 * (base + msbOff / 8)) le_rfl (by omega))
  obtain ⟨at2, ha2⟩ := Option.isSome_iff_exists.mp (hp (8 * (base + msbOff / 8) + 8) (by omega) (by omega))
  rw [Nat.mul_div_cancel_left _ (by decide)] at ha1
  rw [show (8 * (base + msbOff / 8) + 8) / 8 = base + (msbOff / 8 + 1) by omega] at ha2
  have hb1 := fun {u : Nat} (hu : u < 8) => getLsbD_of_bitAt ha1 hu
  have hb2 := fun {u : Nat} (hu : u < 8) => getLsbD_of_bitAt ha2 hu
  unfold getBitValue
  rw [if_pos rfl]
  dsimp only
  rw [ha1, ha2]
  refine ⟨_, rfl, ?_, fun j hj => ?_⟩
  · rw [BitVec.toNat_setWidth]
    exact Nat.lt_of_le_of_lt (Nat.mod_le _ _) (BitVec.isLt _)
  · rw [BitVec.getLsbD_setWidth, decide_eq_true (by omega : 16 - 1 - j < 32), Bool.true_and]
    cases bigEndian with
    | true =>
      have ho : bitOrder 16 true j = j := if_neg fun h => Bool.noConfusion h.2
      rw [if_pos rfl, getLsbD_join le_rfl _ _ (by omega), ho]
      split
      · rw [hb2 (by omega)]
        congr 1
        omega
      · rw [hb1 (by omega)]
        congr 1
        omega
    | false =>
      have ho : bitOrder 16 false j = (j + 8) % 16 := if_pos ⟨rfl, rfl⟩
      rw [if_neg Bool.noConfusion, getLsbD_join le_rfl _ _ (by omega), ho]
      split
      · rw [hb1 (by omega)]
        congr 1
        omega
      · rw [hb2 (by omega)]
        congr 1
        omega

theorem fieldStart_of_ne (h16 : bitWidth ≠ 16) : fieldStart base msbOff bitWidth = 8 * base + msbOff := if_neg h16

/-- The bytes of the first and of the last bit of a field are present. -/
theorem isSome_of_present (hw : 0 < bitWidth) (hp : FieldPresent planes plane (8 * base + msbOff) bitWidth) :
    (planes plane (base + msbOff / 8)).isSome ∧ (planes plane (base + (msbOff + bitWidth - 1) / 8)).isSome := by
  constructor
  · have h := hp (8 * base + msbOff) le_rfl (by omega)
    rwa [show (8 * base + msbOff) / 8 = base + msbOff / 8 by omega] at h
  · have h := hp (8 * base + (msbOff + bitWidth - 1)) (by omega) (by omega)
    rwa [show (8 * base + (msbOff + bitWidth - 1)) / 8 = base + (msbOff + bitWidth - 1) / 8 by omega] at h

theorem getBitValue_spec (hw : 0 < bitWidth) (hf : bitWidth = 16 ∨ msbOff % 8 + bitWidth ≤ 16)
    (hp : FieldPresent planes plane (fieldStart base msbOff bitWidth) bitWidth) :
    ∃ value, getBitValue planes plane base msbOff bitWidth bigEndian = some value ∧ value.toNat < 2 ^ bitWidth ∧
      ∀ j < bitWidth, value.getLsbD (bitWidth - 1 - j) =
        bitAt planes plane (fieldStart base msbOff bitWidth + bitOrder bitWidth bigEndian j) := by
  by_cases h16 : bitWidth = 16
  · subst h16
    exact getBitValue_sixteen hp
  have hf := hf.resolve_left h16
  have ho : ∀ j, bitOrder bitWidth bigEndian j = j := fun j => if_neg fun h => h16 h.1
  rw [fieldStart_of_ne h16] at hp ⊢
  obtain ⟨h1, h2⟩ := isSome_of_present hw hp
  obtain ⟨at1, ha1⟩ := Option.isSome_iff_exists.mp h1
  obtain ⟨at2, ha2⟩ := Option.isSome_iff_exists.mp h2
  have hb1 := fun {u : Nat} (hu : u < 8) => getLsbD_of_bitAt ha1 hu
  have hb2 := fun {u : Nat} (hu : u < 8) => getLsbD_of_bitAt ha2 hu
  unfold getBitValue
  rw [if_neg h16, if_neg (by omega)]
  dsimp only
  rw [ha2, Option.bind_eq_bind, Option.bind_some]
  by_cases hby : msbOff / 8 ≠ (msbOff + bitWidth - 1) / 8
  · rw [if_pos hby, ha1]
    refine ⟨_, rfl, toNat_and_mask_lt _, fun j hj => ?_⟩
    rw [BitVec.getLsbD_and, getLsbD_mask (by omega), decide_eq_true (by omega), Bool.and_true,
      BitVec.getLsbD_ushiftRight, getLsbD_join (by decide) _ _ (by omega), ho]
    split
    · rw [hb2 (by omega)]
      congr 1
      omega
    · rw [hb1 (by omega)]
      congr 1
      omega
  · rw [if_neg hby]
    refine ⟨_, rfl, toNat_and_mask_lt _, fun j hj => ?_⟩
    rw [BitVec.getLsbD_and, getLsbD_mask (by omega), decide_eq_true (by omega), Bool.and_true,
      BitVec.getLsbD_ushiftRight, BitVec.getLsbD_setWidth, decide_eq_true (by omega), Bool.true_and, ho,
      hb2 (by omega)]
    congr 1
    omega

/-- A field that reaches over three bytes is not read as a whole. -/
theorem getBitValue_lt_of_three (h16 : bitWidth ≠ 16) (h32 : bitWidth < 32) (hs : 16 < msbOff % 8 + bitWidth)
    {value : BitVec 32} (hv : getBitValue planes plane base msbOff bitWidth bigEndian = some value) :
    value.toNat ≠ 2 ^ bitWidth - 1 := by
  unfold getBitValue at hv
  rw [if_neg h16, if_neg (by omega)] at hv
  dsimp only at hv
  rw [Option.bind_eq_bind, Option.bind_eq_some_iff] at hv
  obtain ⟨at2, -, hv⟩ := hv
  rw [if_pos (by omega), Option.bind_eq_bind, Option.bind_eq_some_iff] at hv
  obtain ⟨at1, -, hv⟩ := hv
  obtain rfl := Option.some.inj hv
  intro ha
  -- the two bytes that are read do not reach up to the first bit of the field
  have ht : ((at2.setWidth 32 ||| (at1.setWidth 32 <<< 8)) >>> (7 - (msbOff + bitWidth - 1) % 8) &&&
      BitVec.ofNat 32 (1 <<< bitWidth - 1)).getLsbD (bitWidth - 1) = true := by
    rw [BitVec.getLsbD, ha, Nat.testBit_two_pow_sub_one, decide_eq_true (by omega)]
  rw [BitVec.getLsbD_and, BitVec.getLsbD_ushiftRight, getLsbD_join_of_ge _ _ (by omega), Bool.false_and] at ht
  exact Bool.noConfusion ht

/-! ## Writing -/

/-- The bits of a field have been written, the first one first, and nothing else has changed. -/
structure Wrote (planes planes' : Planes) (plane start bitWidth : Nat) (bit : Nat → Bool) : Prop where
  present : ∀ p a, (planes' p a).isSome = (planes p a).isSome
  bits : ∀ p k, bitAt planes' p k =
    if p = plane ∧ start ≤ k ∧ k < start + bitWidth then bit (k - start) else bitAt planes p k

theorem Wrote.congr {planes' : Planes} {start : Nat} {bit bit' : Nat → Bool}
    (h : Wrote planes planes' plane start bitWidth bit) (hb : ∀ j < bitWidth, bit j = bit' j) :
    Wrote planes planes' plane start bitWidth bit' where
  present := h.present
  bits p k := by
    rw [h.bits]
    split
    · exact hb _ (by omega)
    · rfl

/-- A field within what has been written, of which the other bits are as before. -/
theorem Wrote.narrow {planes' : Planes} {start start' bitWidth' : Nat} {bit bit' : Nat → Bool}
    (h : Wrote planes planes' plane start bitWidth bit) (hle : start ≤ start')
    (he : start' + bitWidth' ≤ start + bitWidth)
    (hin : ∀ k, start' ≤ k → k < start' + bitWidth' → bit (k - start) = bit' (k - start'))
    (ho : ∀ k, start ≤ k → k < start + bitWidth → ¬ (start' ≤ k ∧ k < start' + bitWidth') →
      bit (k - start) = bitAt planes plane k) :
    Wrote planes planes' plane start' bitWidth' bit' where
  present := h.present
  bits p k := by
    rw [h.bits]
    by_cases hp : p = plane
    · subst hp
      simp only [true_and]
      by_cases hk' : start' ≤ k ∧ k < start' + bitWidth'
      · rw [if_pos hk', if_pos (by omega)]
        exact hin k hk'.1 hk'.2
      · rw [if_neg hk']
        split
        · rename_i hk
          exact ho k hk.1 hk.2 hk'
        · rfl
    · simp only [hp, false_and, if_false]

theorem wrote_put {address : Nat} (h : (planes plane address).isSome) (byte : BitVec 8) :
    Wrote planes (planes.put plane address byte) plane (8 * address) 8 fun j => byte.getLsbD (7 - j) where
  present p a := isSome_put h p a
  bits p k := by
    rw [bitAt_put]
    have hc : (p = plane ∧ k / 8 = address) ↔ (p = plane ∧ 8 * address ≤ k ∧ k < 8 * address + 8) := by
      refine and_congr_right fun _ => ?_
      omega
    by_cases hin : p = plane ∧ 8 * address ≤ k ∧ k < 8 * address + 8
    · rw [if_pos (hc.mpr hin), if_pos hin]
      congr 1
      omega
    · rw [if_neg fun h => hin (hc.mp h), if_neg hin]

theorem wrote_two {address : Nat} (h1 : (planes plane address).isSome) (h2 : (planes plane (address + 1)).isSome)
    (byte1 byte2 : BitVec 8) :
    Wrote planes ((planes.put plane address byte1).put plane (address + 1) byte2) plane (8 * address) 16
      fun j => if j < 8 then byte1.getLsbD (7 - j) else byte2.getLsbD (15 - j) := by
  have hf := wrote_put h1 byte1
  have hs := @wrote_put (planes.put plane address byte1) plane _ (by rwa [hf.present]) byte2
  refine ⟨fun p a => (hs.present p a).trans (hf.present p a), fun p k => ?_⟩
  rw [hs.bits, hf.bits]
  by_cases hp : p = plane
  · simp only [hp, true_and]
    by_cases hk2 : 8 * (address + 1) ≤ k ∧ k < 8 * (address + 1) + 8
    · rw [if_pos hk2, if_pos (by omega), if_neg (by omega)]
      congr 1
      omega
    · rw [if_neg hk2]
      by_cases hk1 : 8 * address ≤ k ∧ k < 8 * address + 8
      · rw [if_pos hk1, if_pos (by omega), if_pos (by omega)]
      · rw [if_neg hk1, if_neg (by omega)]
  · simp only [hp, false_and, if_false]

theorem put_comm {p a c : Nat} (hne : a ≠ c) (b b' : BitVec 8) :
    (planes.put p a b).put p c b' = (planes.put p c b').put p a b := by
  funext q e
  simp only [put_eq]
  split_ifs with h1 h2
  · obtain ⟨-, rfl⟩ := h1
    exact absurd h2.2.symm hne
  · rfl
  · rfl
  · rfl

theorem getLsbD_upper (value : BitVec 32) {u : Nat} (hu : u < 8) :
    ((value.setWidth 16 >>> 8).setWidth 8).getLsbD u = value.getLsbD (8 + u) := by
  rw [BitVec.getLsbD_setWidth, BitVec.getLsbD_ushiftRight, BitVec.getLsbD_setWidth]
  simp [hu, (by omega : 8 + u < 16)]

theorem getLsbD_lower (value : BitVec 32) {u : Nat} (hu : u < 8) :
    ((value.setWidth 16 &&& 255).setWidth 8).getLsbD u = value.getLsbD u := by
  have hm : (255 : BitVec 16) = BitVec.ofNat 16 (2 ^ 8 - 1) := rfl
  rw [BitVec.getLsbD_setWidth, BitVec.getLsbD_and, BitVec.getLsbD_setWidth, hm, BitVec.getLsbD_ofNat,
    Nat.testBit_two_pow_sub_one]
  simp [hu, (by omega : u < 16)]

theorem setBitValue_sixteen (hp : FieldPresent planes plane (fieldStart base msbOff 16) 16) (value : BitVec 32) :
    ∃ planes', setBitValue planes plane base msbOff 16 bigEndian value = some planes' ∧
      Wrote planes planes' plane (fieldStart base msbOff 16) 16
        fun j => value.getLsbD (16 - 1 - bitOrder 16 bigEndian j) := by
  have hs : fieldStart base msbOff 16 = 8 * (base + msbOff / 8) := if_pos rfl
  rw [hs] at hp ⊢
  have h1 : (planes plane (base + msbOff / 8)).isSome := by
    have h := hp (8 * (base + msbOff / 8)) le_rfl (by omega)
    rwa [Nat.mul_div_cancel_left _ (by decide)] at h
  have h2 : (planes plane (base + msbOff / 8 + 1)).isSome := by
    have h := hp (8 * (base + msbOff / 8) + 8) (by omega) (by omega)
    rwa [show (8 * (base + msbOff / 8) + 8) / 8 = base + msbOff / 8 + 1 by omega] at h
  unfold setBitValue
  rw [if_pos rfl]
  dsimp only
  rw [← Nat.add_assoc]
  cases bigEndian with
  | true =>
    rw [if_pos rfl, store_eq h1, Option.bind_eq_bind, Option.bind_some, store_eq (by rwa [isSome_put h1])]
    refine ⟨_, rfl, (wrote_two h1 h2 _ _).congr fun j hj => ?_⟩
    have ho : bitOrder 16 true j = j := if_neg fun h => Bool.noConfusion h.2
    rw [ho]
    split
    · rw [getLsbD_upper value (by omega)]
      congr 1
      omega
    · rw [getLsbD_lower value (by omega)]
  | false =>
    rw [if_neg Bool.noConfusion, store_eq h2, Option.bind_eq_bind, Option.bind_some, store_eq (by rwa [isSome_put h2]),
      put_comm (Nat.succ_ne_self _)]
    refine ⟨_, rfl, (wrote_two h1 h2 _ _).congr fun j hj => ?_⟩
    have ho : bitOrder 16 false j = (j + 8) % 16 := if_pos ⟨rfl, rfl⟩
    rw [ho]
    split
    · rw [getLsbD_lower value (by omega)]
      congr 1
      omega
    · rw [getLsbD_upper value (by omega)]
      congr 1
      omega

theorem getLsbD_lowerPart (value : BitVec 32) (byte : BitVec 8) {shift u : Nat} (hu : u < 8) :
    (((((value &&& BitVec.ofNat 32 ((1 <<< bitWidth) - 1)) <<< shift) &&& (255 : BitVec 32)) |||
        (byte.setWidth 32 &&& ~~~(BitVec.ofNat 32 ((1 <<< bitWidth) - 1) <<< shift &&& 255))).setWidth 8).getLsbD u =
      if shift ≤ u ∧ u - shift < bitWidth then value.getLsbD (u - shift) else byte.getLsbD u := by
  have hb : (255#32).getLsbD u = true := by
    rw [show 255#32 = BitVec.ofNat 32 ((1 <<< 8) - 1) from rfl, getLsbD_mask (by omega), decide_eq_true hu]
  rw [BitVec.getLsbD_setWidth, BitVec.getLsbD_or, BitVec.getLsbD_and, BitVec.getLsbD_and, BitVec.getLsbD_not,
    BitVec.getLsbD_and, BitVec.getLsbD_shiftLeft, BitVec.getLsbD_shiftLeft, BitVec.getLsbD_and, BitVec.getLsbD_setWidth,
    getLsbD_mask (by omega)]
  have h32 : u < 32 := by omega
  by_cases hle : shift ≤ u
  · have hn : ¬ u < shift := by omega
    by_cases hlt : u - shift < bitWidth
    · simp only [hu, h32, hle, hn, hlt]
      simp [hb]
    · simp only [hu, h32, hle, hn, hlt]
      simp
  · have hlt : u < shift := by omega
    simp only [hu, h32, hle, hlt]
    simp

theorem getLsbD_upperPart (value : BitVec 32) (byte : BitVec 8) {shift u : Nat} (hu : u < 8) (hs : shift < 8) :
    ((((value &&& BitVec.ofNat 32 ((1 <<< bitWidth) - 1)) <<< shift) >>> 8 |||
        (byte.setWidth 32 &&& ~~~((BitVec.ofNat 32 ((1 <<< bitWidth) - 1) <<< shift) >>> 8))).setWidth 8).getLsbD u =
      if 8 + u - shift < bitWidth then value.getLsbD (8 + u - shift) else byte.getLsbD u := by
  rw [BitVec.getLsbD_setWidth, BitVec.getLsbD_or, BitVec.getLsbD_and, BitVec.getLsbD_not, BitVec.getLsbD_ushiftRight,
    BitVec.getLsbD_ushiftRight, BitVec.getLsbD_shiftLeft, BitVec.getLsbD_shiftLeft, BitVec.getLsbD_and,
    BitVec.getLsbD_setWidth, getLsbD_mask (by omega)]
  have h32 : u < 32 := by omega
  have h32' : 8 + u < 32 := by omega
  have hn : ¬ 8 + u < shift := by omega
  by_cases hlt : 8 + u - shift < bitWidth
  · simp only [hu, h32, h32', hn, hlt]
    simp
  · simp only [hu, h32, h32', hn, hlt]
    simp

theorem setBitValue_spec (hw : 0 < bitWidth) (hf : bitWidth = 16 ∨ msbOff % 8 + bitWidth ≤ 16)
    (hp : FieldPresent planes plane (fieldStart base msbOff bitWidth) bitWidth) (value : BitVec 32) :
    ∃ planes', setBitValue planes plane base msbOff bitWidth bigEndian value = some planes' ∧
      Wrote planes planes' plane (fieldStart base msbOff bitWidth) bitWidth
        fun j => value.getLsbD (bitWidth - 1 - bitOrder bitWidth bigEndian j) := by
  by_cases h16 : bitWidth = 16
  · subst h16
    exact setBitValue_sixteen hp value
  have hf := hf.resolve_left h16
  have ho : ∀ j, bitOrder bitWidth bigEndian j = j := fun j => if_neg fun h => h16 h.1
  rw [fieldStart_of_ne h16] at hp ⊢
  simp only [ho]
  obtain ⟨h1, h2⟩ := isSome_of_present hw hp
  unfold setBitValue
  rw [if_neg h16, if_neg (by omega)]
  dsimp only
  by_cases hby : msbOff / 8 ≠ (msbOff + bitWidth - 1) / 8
  · have hn : base + (msbOff + bitWidth - 1) / 8 = base + msbOff / 8 + 1 := by omega
    obtain ⟨at1, ha1⟩ := Option.isSome_iff_exists.mp h1
    obtain ⟨at2, ha2⟩ := Option.isSome_iff_exists.mp h2
    rw [hn] at ha2 h2
    rw [if_pos hby, ha1, hn]
    simp only [Option.bind_eq_bind, Option.bind_some]
    rw [store_eq h1, Option.bind_some, put_of_ne (fun h => absurd h.2 (Nat.succ_ne_self _)), ha2, Option.bind_some,
      store_eq (by rwa [isSome_put h1])]
    refine ⟨_, rfl, ?_⟩
    have hb1 := fun {u : Nat} (hu : u < 8) => getLsbD_of_bitAt ha1 hu
    have hb2 := fun {u : Nat} (hu : u < 8) => getLsbD_of_bitAt ha2 hu
    refine (wrote_two h1 h2 _ _).narrow (by omega) (by omega) (fun k hk hk' => ?_) fun k hk hk' hout => ?_
    · split
      · rw [getLsbD_upperPart value at1 (by omega) (by omega), if_pos (by omega)]
        congr 1
        omega
      · rw [getLsbD_lowerPart value at2 (by omega), if_pos (by omega)]
        congr 1
        omega
    · split
      · rw [getLsbD_upperPart value at1 (by omega) (by omega), if_neg (by omega), hb1 (by omega)]
        congr 1
        omega
      · rw [getLsbD_lowerPart value at2 (by omega), if_neg (by omega), hb2 (by omega)]
        congr 1
        omega
  · rw [if_neg hby]
    obtain ⟨at2, ha2⟩ := Option.isSome_iff_exists.mp h2
    simp only [Option.bind_eq_bind, Option.bind_some]
    rw [ha2, Option.bind_some, store_eq h2]
    have hb2 := fun {u : Nat} (hu : u < 8) => getLsbD_of_bitAt ha2 hu
    refine ⟨_, rfl, (wrote_put h2 _).narrow (by omega) (by omega) (fun k hk hk' => ?_) fun k hk hk' hout => ?_⟩
    · rw [getLsbD_lowerPart value at2 (by omega), if_pos (by omega)]
      congr 1
      omega
    · rw [getLsbD_lowerPart value at2 (by omega), if_neg (by omega), hb2 (by omega)]
      congr 1
      omega

end Fields

end GnustepGui.BitmapImageRep
