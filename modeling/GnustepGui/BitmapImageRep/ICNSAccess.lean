import GnustepGui.BitmapImageRep.ICNS

/-!
# Accesses of the ICNS decoder

The loops of the decoder, one by one: they stay inside the decoded planes always, and inside the family
when the element they decode ends inside it.
-/

namespace GnustepGui.BitmapImageRep.ICNS

/-! ## Single accesses -/

theorem readByte_of_lt {bytes : List UInt8} {i : Nat} (h : i < bytes.length) :
    readByte bytes i = some bytes[i] := List.getElem?_eq_getElem h

theorem writeByte_of_lt {bytes : List UInt8} {i : Nat} (h : i < bytes.length) (v : UInt8) :
    writeByte bytes i v = some (bytes.set i v) := if_pos h

theorem readType_of_le {bytes : List UInt8} {i : Nat} (h : i + 4 ≤ bytes.length) :
    readType bytes i = some ((bytes.drop i).take 4) := if_pos h

theorem readWord_isSome_iff (bytes : List UInt8) (i : Nat) : (readWord bytes i).isSome ↔ i + 4 ≤ bytes.length := by
  have hl := List.length_drop (i := i) (l := bytes)
  unfold readWord
  generalize bytes.drop i = l at hl
  match l with
  | [] => simp at hl ⊢; omega
  | [_] => simp at hl ⊢; omega
  | [_, _] => simp at hl ⊢; omega
  | [_, _, _] => simp at hl ⊢; omega
  | _ :: _ :: _ :: _ :: _ => simp at hl ⊢; omega

theorem readWord_le {bytes : List UInt8} {i w : Nat} (h : readWord bytes i = some w) :
    i + 4 ≤ bytes.length := (readWord_isSome_iff bytes i).1 (by rw [h]; rfl)

theorem readWord_lt {bytes : List UInt8} {i w : Nat} (h : readWord bytes i = some w) : w < 2 ^ 32 := by
  unfold readWord at h
  split at h
  · rename_i b₀ b₁ b₂ b₃ _ _
    have h₀ := b₀.toNat_lt
    have h₁ := b₁.toNat_lt
    have h₂ := b₂.toNat_lt
    have h₃ := b₃.toNat_lt
    rw [Option.some_inj] at h
    omega
  · cases h

theorem writeWord_length {bytes bytes' : List UInt8} {i w : Nat} (h : writeWord bytes i w = some bytes') :
    bytes'.length = bytes.length := by
  unfold writeWord at h
  split at h
  · rw [Option.some_inj] at h
    subst h
    simp [wordBytes]
    omega
  · cases h

theorem swapBigIntToHost_pos {w : Nat} (hlt : w < 2 ^ 32) (h : w ≠ 0) : 0 < swapBigIntToHost w := by
  unfold swapBigIntToHost
  simp only [Nat.reducePow] at hlt ⊢
  have h₁ : w / 256 / 256 = w / 65536 := Nat.div_div_eq_div_mul w 256 256
  have h₂ : w / 65536 / 256 = w / 16777216 := Nat.div_div_eq_div_mul w 65536 256
  have h₃ : w / 16777216 % 256 = w / 16777216 := Nat.mod_eq_of_lt (by omega)
  have hw : w = w % 256 + 256 * (w / 256 % 256) + 65536 * (w / 65536 % 256) + 16777216 * (w / 16777216) := by
    omega
  rw [h₃]
  generalize w % 256 = a, w / 256 % 256 = b, w / 65536 % 256 = c, w / 16777216 = d at hw ⊢
  omega

@[simp] theorem malloc_length (junk : Nat → UInt8) (n : Nat) : (malloc junk n).length = n := by
  simp [malloc]

/-! ## Runs -/

/-- A result with an image of the same size. -/
def Keeps (size : Nat) (result : Checked (List UInt8)) : Prop :=
  ∃ image, result = some image ∧ image.length = size

variable {size : Nat}

theorem fillRun_keeps (val : UInt8) (n index : Nat) {image : List UInt8}
    (hi : image.length = size) : Keeps size (fillRun val size n index image) := by
  induction n generalizing index image with
  | zero => exact ⟨image, rfl, hi⟩
  | succ n ih =>
    unfold fillRun
    by_cases hidx : index < size
    · rw [if_pos hidx, writeByte_of_lt (hi ▸ hidx)]
      exact ih (index + samplesPerPixel) (by simpa using hi)
    · exact ⟨image, if_neg hidx, hi⟩

section Inside

variable {bytes : List UInt8} {stop : Nat} (hstop : stop ≤ bytes.length)

include hstop

variable {image : List UInt8}

theorem copyRun_keeps {size : Nat} (n index b : Nat) (hi : image.length = size) :
    ∃ b' image', copyRun bytes stop size n index b image = some (b', image') ∧ image'.length = size := by
  induction n generalizing index b image with
  | zero => exact ⟨b, image, rfl, hi⟩
  | succ n ih =>
    unfold copyRun
    by_cases hg : index < size ∧ b < stop
    · rw [if_pos hg, readByte_of_lt (Nat.lt_of_lt_of_le hg.2 hstop)]
      simp only [Option.bind_eq_bind, Option.bind_some]
      rw [writeByte_of_lt (hi ▸ hg.1)]
      exact ih (index + samplesPerPixel) (b + 1) (by simpa using hi)
    · exact ⟨b, image, if_neg hg, hi⟩

theorem decodePlane_keeps {size : Nat} (area plane fuel offset b : Nat) (hi : image.length = size) :
    ∃ b' image', decodePlane bytes stop size area plane fuel offset b image = some (b', image') ∧
      image'.length = size := by
  induction fuel generalizing offset b image with
  | zero => exact ⟨b, image, rfl, hi⟩
  | succ fuel ih =>
    unfold decodePlane
    by_cases hg : offset < area ∧ b < stop
    · have hb := Nat.lt_of_lt_of_le hg.2 hstop
      rw [if_pos hg, readByte_of_lt hb]
      simp only [Option.bind_eq_bind, Option.bind_some]
      split
      · split
        · rename_i hn
          rw [readByte_of_lt (Nat.lt_of_lt_of_le hn hstop)]
          simp only [Option.bind_some]
          obtain ⟨image', hf, hi'⟩ := fillRun_keeps bytes[b + 1] (bytes[b].toNat - 125)
            (samplesPerPixel * offset + plane) hi
          rw [hf]
          exact ih _ _ hi'
        · obtain ⟨image', hf, hi'⟩ := fillRun_keeps 0 (bytes[b].toNat - 125)
            (samplesPerPixel * offset + plane) hi
          rw [hf]
          exact ih _ _ hi'
      · obtain ⟨b', image', hc, hi'⟩ := copyRun_keeps hstop (bytes[b].toNat + 1)
          (samplesPerPixel * offset + plane) (b + 1) hi
        rw [hc]
        exact ih _ _ hi'
    · exact ⟨b, image, if_neg hg, hi⟩

theorem decodePlanes_keeps {size : Nat} (area b : Nat)
    (hi : image.length = size) : Keeps size (decodePlanes bytes stop size area b image) := by
  obtain ⟨b₀, image₀, h₀, hi₀⟩ := decodePlane_keeps hstop area 0 (stop - b) 0 b hi
  obtain ⟨b₁, image₁, h₁, hi₁⟩ := decodePlane_keeps hstop area 1 (stop - b₀) 0 b₀ hi₀
  obtain ⟨b₂, image₂, h₂, hi₂⟩ := decodePlane_keeps hstop area 2 (stop - b₁) 0 b₁ hi₁
  refine ⟨image₂, ?_, hi₂⟩
  simp only [decodePlanes, h₀, h₁, h₂, Option.bind_eq_bind, Option.bind_some]

theorem copyMask_keeps {size : Nat} (n j b : Nat) (hi : image.length = size)
    (hs : samplesPerPixel * (j + n) ≤ size) : Keeps size (copyMask bytes stop n j b image) := by
  induction n generalizing j b image with
  | zero => exact ⟨image, rfl, hi⟩
  | succ n ih =>
    unfold copyMask
    by_cases hg : b < stop
    · have hr : samplesPerPixel * j + 3 < image.length := by
        rw [hi]
        simp only [samplesPerPixel] at hs ⊢
        omega
      rw [if_pos hg, readByte_of_lt (Nat.lt_of_lt_of_le hg hstop)]
      simp only [Option.bind_eq_bind, Option.bind_some]
      rw [writeByte_of_lt hr]
      exact ih (j + 1) (b + 1) (by simpa using hi) (by rwa [Nat.add_assoc, Nat.add_comm 1 n])
    · exact ⟨image, if_neg hg, hi⟩

end Inside

theorem copyMask_of_stop_le (bytes : List UInt8) {stop b : Nat} (h : stop ≤ b) (n j : Nat)
    (image : List UInt8) : copyMask bytes stop n j b image = some image := by
  cases n with
  | zero => rfl
  | succ n => exact if_neg (Nat.not_lt.2 h)

theorem fillMask_keeps (n j : Nat) {image : List UInt8} (hi : image.length = size)
    (hs : samplesPerPixel * (j + n) ≤ size) : Keeps size (fillMask n j image) := by
  induction n generalizing j image with
  | zero => exact ⟨image, rfl, hi⟩
  | succ n ih =>
    have hr : samplesPerPixel * j + 3 < image.length := by
      rw [hi]
      simp only [samplesPerPixel] at hs ⊢
      omega
    unfold fillMask
    rw [writeByte_of_lt hr]
    exact ih (j + 1) (by simpa using hi) (by rwa [Nat.add_assoc, Nat.add_comm 1 n])

theorem copyPixels_keeps {bytes : List UInt8} (n j b : Nat) (hb : b + 3 * n ≤ bytes.length)
    {image : List UInt8} (hi : image.length = size) (hs : samplesPerPixel * (j + n) ≤ size) :
    Keeps size (copyPixels bytes n j b image) := by
  induction n generalizing j b image with
  | zero => exact ⟨image, rfl, hi⟩
  | succ n ih =>
    have hr : samplesPerPixel * j + 3 < size := by
      simp only [samplesPerPixel] at hs ⊢
      omega
    unfold copyPixels
    rw [readByte_of_lt (show b < bytes.length by omega),
      readByte_of_lt (show b + 1 < bytes.length by omega),
      readByte_of_lt (show b + 2 < bytes.length by omega)]
    simp only [Option.bind_eq_bind, Option.bind_some]
    rw [writeByte_of_lt (by omega)]
    simp only [Option.bind_some]
    rw [writeByte_of_lt (by rw [List.length_set]; omega)]
    simp only [Option.bind_some]
    rw [writeByte_of_lt (by rw [List.length_set, List.length_set]; omega)]
    exact ih (j + 1) (b + 3) (by omega) (by simpa using hi) (by rwa [Nat.add_assoc, Nat.add_comm 1 n])

theorem copyBuffer_keeps {imageData : List UInt8} (n k : Nat)
    (hi : 4 * (k + n) ≤ imageData.length) {buffer : List UInt8} (hb : buffer.length = size)
    (hs : 4 * (k + n) ≤ size) : Keeps size (copyBuffer imageData n k buffer) := by
  induction n generalizing k buffer with
  | zero => exact ⟨buffer, rfl, hb⟩
  | succ n ih =>
    unfold copyBuffer
    rw [readByte_of_lt (show 4 * k < imageData.length by omega),
      readByte_of_lt (show 4 * k + 1 < imageData.length by omega),
      readByte_of_lt (show 4 * k + 2 < imageData.length by omega),
      readByte_of_lt (show 4 * k + 3 < imageData.length by omega)]
    simp only [Option.bind_eq_bind, Option.bind_some]
    rw [writeByte_of_lt (by omega)]
    simp only [Option.bind_some]
    rw [writeByte_of_lt (by rw [List.length_set]; omega)]
    simp only [Option.bind_some]
    rw [writeByte_of_lt (by rw [List.length_set, List.length_set]; omega)]
    simp only [Option.bind_some]
    rw [writeByte_of_lt (by rw [List.length_set, List.length_set, List.length_set]; omega)]
    exact ih (k + 1) (by omega) (by simpa using hb) (by omega)

end GnustepGui.BitmapImageRep.ICNS
