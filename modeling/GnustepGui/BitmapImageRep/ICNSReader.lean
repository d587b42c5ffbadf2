import GnustepGui.BitmapImageRep.ICNSAccess

/-!
# When the ICNS readers stay inside

The checks are made for the decoded planes, but not for the headers of the elements: the loops compare
the start of a header with the end of the family (one of them with eight bytes behind it) and then read
all of the header. So it depends on the sizes in the file whether a reader stays inside.
-/

namespace GnustepGui.BitmapImageRep.ICNS

/-! ## The walks over the family -/

/-- From `o` on, the headers that `swapSizes` comes to lie inside the copy. -/
inductive SizesInside : Family → Nat → Prop
  | past {family : Family} {o : Nat} (h : family.length ≤ o) : SizesInside family o
  | zero {family : Family} {o : Nat} (h : readWord family (o + 4) = some 0) : SizesInside family o
  | next {family family' : Family} {o w : Nat} (h : readWord family (o + 4) = some w) (hw : w ≠ 0)
      (hwrite : writeWord family (o + 4) (swapBigIntToHost w) = some family')
      (hrest : SizesInside family' (o + swapBigIntToHost w)) : SizesInside family o

/-- From `o` on, the headers up to the first element of a type lie inside the family. -/
inductive LookupInside (family : Family) (type : IconType) : Nat → Prop
  | past {o : Nat} (h : ICNS_HEADER_SIZE + family.length ≤ o) : LookupInside family type o
  | zero {o : Nat} (h : readWord family (o + 4) = some 0) : LookupInside family type o
  | found {o w : Nat} {t : IconType} (h : readWord family (o + 4) = some w)
      (ht : readType family o = some t) (htype : typesEqual t type) : LookupInside family type o
  | next {o w : Nat} (h : readWord family (o + 4) = some w) (hw : w ≠ 0)
      (hrest : LookupInside family type (o + w)) : LookupInside family type o

theorem writeWord_of_le {bytes : List UInt8} {i : Nat} (h : i + 4 ≤ bytes.length) (w : Nat) :
    ∃ bytes', writeWord bytes i w = some bytes' := ⟨_, if_pos h⟩

theorem swapSizes_ne_none_iff {family : Family} {o fuel : Nat} (hf : family.length ≤ o + fuel) :
    swapSizes fuel o family ≠ none ↔ SizesInside family o := by
  induction fuel generalizing family o with
  | zero => exact iff_of_true (by simp [swapSizes]) (.past hf)
  | succ fuel ih =>
    unfold swapSizes
    by_cases hlt : o < family.length
    · rw [if_pos hlt]
      cases hwd : readWord family (o + 4) with
      | none =>
        refine iff_of_false (by simp) fun h => ?_
        cases h with
        | past hle => omega
        | zero hz => rw [hwd] at hz; cases hz
        | next hn => rw [hwd] at hn; cases hn
      | some w =>
        simp only [Option.bind_eq_bind, Option.bind_some]
        by_cases hw : w = 0
        · subst hw
          exact iff_of_true (by simp) (.zero hwd)
        · rw [if_neg hw]
          obtain ⟨family', hwr⟩ := writeWord_of_le (readWord_le hwd) (swapBigIntToHost w)
          have hl := writeWord_length hwr
          have hp := swapBigIntToHost_pos (readWord_lt hwd) hw
          rw [hwr, Option.bind_some, ih (by omega)]
          constructor
          · exact .next hwd hw hwr
          · intro h
            cases h with
            | past hle => omega
            | zero hz => rw [hwd] at hz; cases hz; exact absurd rfl hw
            | next hn _ hwr' hr =>
              rw [hwd] at hn
              cases hn
              rw [hwr] at hwr'
              cases hwr'
              exact hr
    · rw [if_neg hlt]
      exact iff_of_true (by simp) (.past (by omega))

variable {type : IconType}

theorem findElement_ne_none_iff {family : Family} {o fuel : Nat} (hfl : ICNS_HEADER_SIZE + family.length ≤ o + fuel) :
    findElement family type fuel o ≠ none ↔ LookupInside family type o := by
  induction fuel generalizing o with
  | zero => exact iff_of_true (by simp [findElement]) (.past hfl)
  | succ fuel ih =>
    unfold findElement
    by_cases hlt : o < ICNS_HEADER_SIZE + family.length
    · rw [if_pos hlt]
      cases hwr : readWord family (o + 4) with
      | none =>
        refine iff_of_false (by simp) fun h => ?_
        cases h with
        | past hle => omega
        | zero hz => rw [hwr] at hz; cases hz
        | found hf => rw [hwr] at hf; cases hf
        | next hn => rw [hwr] at hn; cases hn
      | some w =>
        simp only [Option.bind_eq_bind, Option.bind_some]
        by_cases hw : w = 0
        · subst hw
          exact iff_of_true (by simp) (.zero hwr)
        · have hle := readWord_le hwr
          have hty := readType_of_le (show o + 4 ≤ family.length by omega)
          rw [if_neg hw, hty, Option.bind_some]
          by_cases heq : typesEqual ((family.drop o).take 4) type
          · rw [if_pos heq]
            exact iff_of_true (by simp) (.found hwr hty heq)
          · rw [if_neg heq, ih (by omega)]
            constructor
            · exact .next hwr hw
            · intro h
              cases h with
              | past hle => omega
              | zero hz => rw [hwr] at hz; cases hz; exact absurd rfl hw
              | found _ ht he =>
                rw [hty] at ht
                cases ht
                exact absurd he heq
              | next hn _ hr =>
                rw [hwr] at hn
                cases hn
                exact hr
    · rw [if_neg hlt]
      exact iff_of_true (by simp) (.past (by omega))

theorem getElement_ne_none_iff (family : Family) (type : IconType) :
    getElementFromFamily family type ≠ none ↔ LookupInside family type ICNS_HEADER_SIZE :=
  findElement_ne_none_iff (Nat.le_refl _)

@[simp] theorem typesEqual_refl (type : IconType) : typesEqual type type := by
  induction type with
  | nil => rfl
  | cons a type ih => simp [typesEqual, ih]

theorem exists_visitedTypes (family : Family) (fuel o : Nat) : ∃ types, visitedTypes family fuel o = some types := by
  induction fuel generalizing o with
  | zero => exact ⟨[], rfl⟩
  | succ fuel ih =>
    unfold visitedTypes
    by_cases hlt : o + 8 < family.length
    · obtain ⟨w, hw⟩ := Option.isSome_iff_exists.1 ((readWord_isSome_iff family (o + 4)).2 (by omega))
      rw [if_pos hlt, readType_of_le (by omega), hw]
      simp only [Option.bind_eq_bind, Option.bind_some]
      obtain ⟨types, ht⟩ := ih (o + w)
      split
      · exact ⟨[], rfl⟩
      · exact ⟨_, by rw [ht, Option.bind_some]⟩
    · exact ⟨[], if_neg hlt⟩

/-- A type that came by is found again. -/
theorem findElement_of_visited {family : Family} {fuel o : Nat} {types : List IconType}
    (h : visitedTypes family fuel o = some types) (ht : type ∈ types) :
    ∃ e, findElement family type fuel o = some (some e) := by
  induction fuel generalizing o types with
  | zero =>
    cases h
    cases ht
  | succ fuel ih =>
    unfold visitedTypes at h
    split at h
    · rename_i hlt
      have hr := readType_of_le (show o + 4 ≤ family.length by omega)
      obtain ⟨w, hw⟩ := Option.isSome_iff_exists.1 ((readWord_isSome_iff family (o + 4)).2 (by omega))
      rw [hr, hw] at h
      simp only [Option.bind_eq_bind, Option.bind_some] at h
      split at h
      · cases h
        cases ht
      · rename_i hz
        obtain ⟨rest, hrs⟩ := exists_visitedTypes family fuel (o + w)
        rw [hrs, Option.bind_some, Option.some_inj] at h
        subst h
        have hg : o < ICNS_HEADER_SIZE + family.length := by omega
        unfold findElement
        rw [if_pos hg, hw, hr]
        simp only [Option.bind_eq_bind, Option.bind_some, if_neg hz]
        split
        · exact ⟨_, rfl⟩
        · rename_i hne
          rcases List.mem_cons.1 ht with rfl | hm
          · exact absurd (typesEqual_refl _) hne
          · exact ih hrs hm
    · cases h
      cases ht

/-! ## One icon -/

/-- The element holds its header and ends inside the family. -/
structure Element.Inside (family : Family) (e : Element) : Prop where
  header : ICNS_HEADER_SIZE ≤ e.elementSize
  stop : e.offset + e.elementSize ≤ family.length

/-- Decoding an icon type stays inside, and nothing of a malformed element is decoded. -/
structure DecodesSafely (family : Family) (type : IconType) : Prop where
  inside : ∀ junk, getImage32WithMaskFromFamily junk family type ≠ none
  icon : ∀ junk image e, readIcon junk family type = some (some image) →
    getElementFromFamily family type = some (some e) → e.Inside family
  mask : ∀ junk image e, readIcon junk family type = some (some image) →
    getElementFromFamily family (getMaskTypeForIconType type) = some (some e) →
    e.tooLarge family = false → ICNS_HEADER_SIZE < e.elementSize → e.Inside family

/-- The first element of the type is rejected for its size, or it is well formed, and then so is its
mask as far as it is read. -/
def SoundIcon (family : Family) (type : IconType) : Prop :=
  ∀ e, getElementFromFamily family type = some (some e) → e.tooLarge family = false →
    e.Inside family ∧ LookupInside family (getMaskTypeForIconType type) ICNS_HEADER_SIZE ∧
      ∀ m, getElementFromFamily family (getMaskTypeForIconType type) = some (some m) →
        m.tooLarge family = false → ICNS_HEADER_SIZE < m.elementSize → m.Inside family

/-- A type of which `icns_get_image_info_for_type` knows the size. -/
def IsIcon (type : IconType) : Prop :=
  typesEqual type ICNS_NULL_TYPE = false ∧ (getImageInfoForType type).iconChannels ≠ 0

/-- Width, height and size of the image belong together. -/
structure IconImage.Sized (image : IconImage) : Prop where
  size : image.imageDataSize = 4 * image.area
  data : image.imageData.length = image.imageDataSize

variable {image : IconImage}

theorem IconImage.Sized.room (h : image.Sized) : samplesPerPixel * (0 + image.area) ≤ image.imageDataSize :=
  Nat.le_of_eq (by rw [h.size, samplesPerPixel, Nat.zero_add])

theorem getImageInfoForType_icon (h : (getImageInfoForType type).iconChannels ≠ 0) :
    (getImageInfoForType type).iconDepth = 8 ∧ (getImageInfoForType type).iconChannels = 4 := by
  unfold getImageInfoForType at h ⊢
  split
  · exact ⟨rfl, rfl⟩
  · split
    · exact ⟨rfl, rfl⟩
    · split
      · exact ⟨rfl, rfl⟩
      · split
        · exact ⟨rfl, rfl⟩
        · simp_all

theorem exists_initImage (junk : Nat → UInt8) (h : IsIcon type) :
    ∃ image, initImageForType junk type = some image ∧ image.Sized := by
  obtain ⟨hd, hc⟩ := getImageInfoForType_icon h.2
  refine ⟨_, if_neg h.2, ⟨?_, ?_⟩⟩
  · simp only [initImage, IconImage.area, hd, hc]
    omega
  · simp only [initImage, malloc_length]

variable {e : Element}

/-- What is left of the first part once the element has passed the safety check. -/
theorem readIcon_eq (junk : Nat → UInt8) {family : Family}
    (hic : IsIcon type) (he : getElementFromFamily family type = some (some e))
    (hi : initImageForType junk type = some image) (hl : e.tooLarge family = false) :
    readIcon junk family type =
      (if ICNS_HEADER_SIZE ≤ e.elementSize ∧ e.elementSize - ICNS_HEADER_SIZE < 3 * image.area then
        decodePlanes family (e.offset + e.elementSize) image.imageDataSize image.area
          (e.offset + ICNS_HEADER_SIZE) image.imageData
      else copyPixels family image.area 0 (e.offset + ICNS_HEADER_SIZE) image.imageData).map
        fun data => some { image with imageData := data } := by
  unfold readIcon
  rw [hic.1, he, hi]
  simp only [Bool.false_eq_true, if_false, Option.bind_eq_bind, Option.bind_some, hl]
  split
  · cases decodePlanes family (e.offset + e.elementSize) image.imageDataSize image.area
      (e.offset + ICNS_HEADER_SIZE) image.imageData <;> rfl
  · cases copyPixels family image.area 0 (e.offset + ICNS_HEADER_SIZE) image.imageData <;> rfl

theorem Element.Inside.not_tooLarge {family : Family} (h : e.Inside family) : e.tooLarge family = false := by
  have hs := h.stop
  simp only [Element.tooLarge, decide_eq_false_iff_not]
  omega

theorem readIcon_of_not_tooLarge (junk : Nat → UInt8) {family : Family}
    (hic : IsIcon type) (he : getElementFromFamily family type = some (some e))
    (hl : e.tooLarge family = false) (hr : readIcon junk family type ≠ none) :
    ∃ image, readIcon junk family type = some (some image) := by
  obtain ⟨image, hi, -⟩ := exists_initImage junk hic
  rw [readIcon_eq junk hic he hi hl] at hr ⊢
  obtain ⟨data, hd⟩ := Option.ne_none_iff_exists'.1 hr
  obtain ⟨data', -, rfl⟩ := Option.map_eq_some_iff.1 hd
  exact ⟨_, hd⟩

theorem readIcon_of_inside (junk : Nat → UInt8) {family : Family}
    (hic : IsIcon type) (he : getElementFromFamily family type = some (some e)) (hi2 : e.Inside family) :
    ∃ image, readIcon junk family type = some (some image) ∧ image.Sized := by
  obtain ⟨image, himg, himg'⟩ := exists_initImage junk hic
  obtain ⟨hs, hd⟩ := himg'
  rw [readIcon_eq junk hic he himg hi2.not_tooLarge]
  have hk : Keeps image.imageDataSize
      (if ICNS_HEADER_SIZE ≤ e.elementSize ∧ e.elementSize - ICNS_HEADER_SIZE < 3 * image.area then
        decodePlanes family (e.offset + e.elementSize) image.imageDataSize image.area
          (e.offset + ICNS_HEADER_SIZE) image.imageData
      else copyPixels family image.area 0 (e.offset + ICNS_HEADER_SIZE) image.imageData) := by
    have hh := hi2.header
    have hst := hi2.stop
    split
    · exact decodePlanes_keeps hst image.area _ hd
    · exact copyPixels_keeps image.area 0 _ (by omega) hd (IconImage.Sized.room ⟨hs, hd⟩)
  obtain ⟨data, hsm, hl⟩ := hk
  exact ⟨{ image with imageData := data }, by rw [hsm]; rfl, hs, hl⟩

theorem readIcon_eq_none_iff_of_not_icon (junk : Nat → UInt8) {family : Family}
    (hic : ¬ IsIcon type) (he : getElementFromFamily family type = some (some e)) :
    readIcon junk family type = some none := by
  unfold readIcon
  split
  · rfl
  · rename_i hn
    have hc : (getImageInfoForType type).iconChannels = 0 := by
      by_contra h
      exact hic ⟨by simpa using hn, h⟩
    have hi : initImageForType junk type = none := if_pos hc
    rw [he, hi]
    rfl

theorem readMask_inside {family : Family} (hi : image.Sized)
    (hlkp : LookupInside family (getMaskTypeForIconType type) ICNS_HEADER_SIZE)
    (hm : ∀ m, getElementFromFamily family (getMaskTypeForIconType type) = some (some m) →
      m.tooLarge family = false → ICNS_HEADER_SIZE < m.elementSize → m.Inside family) :
    readMask family type image = some none ∨
      ∃ image', readMask family type image = some (some image') ∧ image'.Sized := by
  obtain ⟨found, hf⟩ := Option.ne_none_iff_exists'.1 ((getElement_ne_none_iff _ _).2 hlkp)
  have hr := hi.room
  unfold readMask
  rw [hf, Option.bind_eq_bind, Option.bind_some]
  cases found with
  | none =>
    obtain ⟨data, hd, hl⟩ := fillMask_keeps image.area 0 hi.data hr
    exact .inr ⟨{ image with imageData := data }, by simp [hd], hi.size, hl⟩
  | some m =>
    cases hlrg : m.tooLarge family with
    | true => exact .inl (by simp [hlrg])
    | false =>
      have hk : Keeps image.imageDataSize (copyMask family (m.offset + m.elementSize) image.area 0
          (m.offset + ICNS_HEADER_SIZE) image.imageData) := by
        by_cases hs : ICNS_HEADER_SIZE < m.elementSize
        · exact copyMask_keeps (hm m hf hlrg hs).stop image.area 0 _ hi.data hr
        · exact ⟨_, copyMask_of_stop_le family (by omega) _ _ _, hi.data⟩
      obtain ⟨data, hd, hl⟩ := hk
      exact .inr ⟨{ image with imageData := data }, by simp [hlrg, hd], hi.size, hl⟩

theorem getImage_of_soundIcon (junk : Nat → UInt8) {family : Family}
    (he : getElementFromFamily family type = some (some e)) (hsound : IsIcon type → SoundIcon family type) :
    getImage32WithMaskFromFamily junk family type = some none ∨
      ∃ image, getImage32WithMaskFromFamily junk family type = some (some image) ∧ image.Sized := by
  unfold getImage32WithMaskFromFamily
  by_cases hic : IsIcon type
  · cases hl : e.tooLarge family with
    | true =>
      obtain ⟨image, hi, -⟩ := exists_initImage junk hic
      have hr : readIcon junk family type = some none := by
        unfold readIcon
        rw [hic.1, he, hi]
        simp [hl]
      exact .inl (by rw [hr]; rfl)
    | false =>
      obtain ⟨hins2, hlkp, hm⟩ := hsound hic e he hl
      obtain ⟨image, hr, hs⟩ := readIcon_of_inside junk hic he hins2
      rw [hr]
      exact readMask_inside hs hlkp hm
  · exact .inl (by rw [readIcon_eq_none_iff_of_not_icon junk hic he]; rfl)

theorem decodesSafely_iff {family : Family} (he : getElementFromFamily family type = some (some e)) :
    DecodesSafely family type ↔ (IsIcon type → SoundIcon family type) := by
  constructor
  · rintro ⟨hi2, hic, hms⟩ ht e' he' hl
    rw [he, Option.some_inj, Option.some_inj] at he'
    subst he'
    let junk : Nat → UInt8 := fun _ => 0
    have hg := hi2 junk
    unfold getImage32WithMaskFromFamily at hg
    obtain ⟨image, hr⟩ := readIcon_of_not_tooLarge junk ht he hl (fun h => hg (by rw [h]; rfl))
    rw [hr] at hg
    refine ⟨hic junk image e hr he, ?_, fun m hm hm' hs => hms junk image m hr hm hm' hs⟩
    refine (getElement_ne_none_iff _ _).1 fun h => hg ?_
    simp only [Option.bind_eq_bind, Option.bind_some, readMask, h, Option.bind_none]
  · intro hsound
    have hr : ∀ junk image, readIcon junk family type = some (some image) →
        IsIcon type ∧ e.tooLarge family = false := by
      intro junk image h
      by_cases hic : IsIcon type
      · refine ⟨hic, ?_⟩
        cases hl : e.tooLarge family with
        | false => rfl
        | true =>
          obtain ⟨image', himg, -⟩ := exists_initImage junk hic
          unfold readIcon at h
          rw [hic.1, he, himg] at h
          simp [hl] at h
      · rw [readIcon_eq_none_iff_of_not_icon junk hic he] at h
        cases h
    refine ⟨fun junk h => ?_, fun junk image e' h he' => ?_, fun junk image m h hm hm' hs => ?_⟩
    · rcases getImage_of_soundIcon junk he hsound with h' | ⟨image, h', -⟩ <;> (rw [h] at h'; cases h')
    · rw [he, Option.some_inj, Option.some_inj] at he'
      subst he'
      obtain ⟨hic, hl⟩ := hr junk image h
      exact (hsound hic e he hl).1
    · obtain ⟨hic, hl⟩ := hr junk image h
      exact (hsound hic e he hl).2.2 m hm hm' hs

/-! ## The readers -/

theorem initBitmapFromICNSImage_inside (junk : Nat → UInt8) (h : image.Sized) :
    ∃ rep, initBitmapFromICNSImage junk image = some rep := by
  have hi : 4 * (0 + image.area) ≤ image.imageData.length := by
    have hl : image.imageData.length = 4 * image.area := by rw [h.data, h.size]
    omega
  obtain ⟨buffer, hb, -⟩ := copyBuffer_keeps image.area 0 hi
    (malloc_length junk (4 * image.area)) (by omega)
  exact ⟨⟨image.imageWidth, image.imageHeight, buffer⟩, by simp [initBitmapFromICNSImage, hb]⟩

/-- The readers stay inside of the data, of the family and of the planes, and nothing of a malformed
element is decoded. -/
structure ReadsSafely (data : List UInt8) : Prop where
  inside : ∀ junk, initBitmapFromICNS junk data ≠ none ∧ imageRepsWithICNSData junk data ≠ none
  icons : ∀ family types, importFamilyData (intLength data) data = some (some family) →
    visitedTypes family family.length ICNS_HEADER_SIZE = some types →
    ∀ type ∈ types, DecodesSafely family type

/-- The copy of a family of `n` bytes at the start of the data, its size in host order. -/
def copiedFamily (data : List UInt8) (n : Nat) : Family :=
  data.take 4 ++ wordBytes n ++ (data.drop ICNS_HEADER_SIZE).take (n - ICNS_HEADER_SIZE)

/-- The headers of the data lie inside, and so do the icons that come by. -/
structure Sound (data : List UInt8) : Prop where
  sizes : ∀ w, readWord data 4 = some w → w ≠ 0 → ICNS_HEADER_SIZE ≤ swapBigIntToHost w →
    (swapBigIntToHost w : Int) ≤ intLength data →
    SizesInside (copiedFamily data (swapBigIntToHost w)) ICNS_HEADER_SIZE
  icons : ∀ family types, importFamilyData (intLength data) data = some (some family) →
    visitedTypes family family.length ICNS_HEADER_SIZE = some types →
    ∀ type ∈ types, IsIcon type → SoundIcon family type

theorem intLength_le (data : List UInt8) : intLength data ≤ data.length := by
  unfold intLength
  rw [BitVec.toInt_eq_toNat_cond, BitVec.toNat_ofNat]
  have hm := Nat.mod_le data.length (2 ^ 32)
  split <;> omega

variable {data : List UInt8}

theorem isICNS_length (h : bitmapIsICNS data) : 8 ≤ data.length ∧ typesEqual (data.take 4) ICNS_FAMILY_TYPE := by
  simpa [bitmapIsICNS] using h

theorem findFamily_of_isICNS (h : bitmapIsICNS data) {w : Nat}
    (hw : readWord data 4 = some w) :
    findFamily data (intLength data) (intLength data).toNat 0 =
      some (if 0 < intLength data ∧ w ≠ 0 then some 0 else none) := by
  obtain ⟨hl, ht⟩ := isICNS_length h
  by_cases hp : 0 < intLength data
  · obtain ⟨fuel, hf⟩ : ∃ fuel, (intLength data).toNat = fuel + 1 := ⟨(intLength data).toNat - 1, by omega⟩
    rw [hf, findFamily, if_pos (by simpa using hp), Nat.zero_add, hw]
    simp only [Option.bind_eq_bind, Option.bind_some]
    by_cases hz : w = 0
    · simp [hz]
    · have hr : readType data 0 = some (data.take 4) := readType_of_le (by omega)
      simp [hz, hr, ht, hp]
  · have hf : (intLength data).toNat = 0 := by omega
    simp [hf, findFamily, hp]

/-- The family is there, or its size is not right and it is rejected. -/
theorem importFamilyData_eq (h : bitmapIsICNS data) {w : Nat}
    (hw : readWord data 4 = some w) :
    importFamilyData (intLength data) data =
      if w ≠ 0 ∧ ICNS_HEADER_SIZE ≤ swapBigIntToHost w ∧ (swapBigIntToHost w : Int) ≤ intLength data then
        (swapSizes (swapBigIntToHost w) ICNS_HEADER_SIZE (copiedFamily data (swapBigIntToHost w))).map some
      else some none := by
  obtain ⟨hl, -⟩ := isICNS_length h
  have hle := intLength_le data
  have hr : readType data 0 = some (data.take 4) := readType_of_le (by omega)
  have hh : ∀ n, writeWord (data.take 4 ++ [0, 0, 0, 0]) 4 n = some (data.take 4 ++ wordBytes n) := by
    intro n
    have hf : (data.take 4).length = 4 := by
      rw [List.length_take]
      omega
    simp [writeWord, hf, List.drop_append]
  unfold importFamilyData
  rw [findFamily_of_isICNS h hw]
  simp only [Option.bind_eq_bind, Option.bind_some]
  by_cases hs : 0 < intLength data ∧ w ≠ 0
  · rw [if_pos hs]
    simp only [Nat.zero_add, hw, Option.bind_some, Int.ofNat_zero, Int.sub_zero]
    by_cases hsz : ICNS_HEADER_SIZE ≤ swapBigIntToHost w ∧ (swapBigIntToHost w : Int) ≤ intLength data
    · rw [if_neg (by omega), if_pos ⟨hs.2, hsz⟩, hr]
      simp only [Option.bind_some]
      rw [hh]
      simp only [Option.bind_some]
      rw [if_pos (by omega)]
      rw [Option.map_eq_bind]
      rfl
    · rw [if_pos (by omega), if_neg fun h => hsz h.2]
  · rw [if_neg hs, if_neg]
    rintro ⟨hz, hh', hsz⟩
    refine hs ⟨?_, hz⟩
    simp only [ICNS_HEADER_SIZE] at hh'
    omega

theorem copiedFamily_length {n : Nat} (hn : ICNS_HEADER_SIZE ≤ n)
    (hle : n ≤ data.length) : (copiedFamily data n).length = n := by
  simp only [ICNS_HEADER_SIZE] at hn
  simp [copiedFamily, wordBytes, ICNS_HEADER_SIZE]
  omega

theorem importFamilyData_ne_none_iff (h : bitmapIsICNS data) {w : Nat} (hw : readWord data 4 = some w) :
    importFamilyData (intLength data) data ≠ none ↔
      (w ≠ 0 → ICNS_HEADER_SIZE ≤ swapBigIntToHost w → (swapBigIntToHost w : Int) ≤ intLength data →
        SizesInside (copiedFamily data (swapBigIntToHost w)) ICNS_HEADER_SIZE) := by
  have hle := intLength_le data
  rw [importFamilyData_eq h hw]
  split
  · rename_i hs
    have hl := copiedFamily_length hs.2.1 (show swapBigIntToHost w ≤ data.length by omega)
    rw [ne_eq, Option.map_eq_none_iff, ← ne_eq, swapSizes_ne_none_iff (by omega)]
    exact ⟨fun h _ _ _ => h, fun h => h hs.1 hs.2.1 hs.2.2⟩
  · rename_i hs
    exact iff_of_true (by simp) fun h₁ h₂ h₃ => absurd ⟨h₁, h₂, h₃⟩ hs

theorem foldl_chooseType (types : List IconType) (typeStr : IconType) :
    types.foldl chooseType typeStr = typeStr ∨ types.foldl chooseType typeStr ∈ types := by
  induction types generalizing typeStr with
  | nil => exact .inl rfl
  | cons type types ih =>
    have hc : chooseType typeStr type = typeStr ∨ chooseType typeStr type = type := by
      unfold chooseType
      split
      · exact .inr rfl
      · exact .inl rfl
    rw [List.foldl_cons]
    rcases ih (chooseType typeStr type) with h | h
    · rw [h]
      rcases hc with h' | h'
      · exact .inl h'
      · exact .inr (by simp [h'])
    · exact .inr (List.mem_cons_of_mem _ h)

theorem getImage_null (junk : Nat → UInt8) (family : Family) :
    getImage32WithMaskFromFamily junk family ICNS_NULL_TYPE = some none := by
  simp [getImage32WithMaskFromFamily, readIcon]

section Family

variable {family : Family} {types : List IconType}
  (hvisited : visitedTypes family family.length ICNS_HEADER_SIZE = some types)
  (hsound : ∀ type ∈ types, IsIcon type → SoundIcon family type)

include hvisited hsound

theorem getImage_of_visited (junk : Nat → UInt8) {type : IconType} (ht : type ∈ types) :
    getImage32WithMaskFromFamily junk family type = some none ∨
      ∃ image, getImage32WithMaskFromFamily junk family type = some (some image) ∧ image.Sized := by
  obtain ⟨e, he⟩ := findElement_of_visited hvisited ht
  exact getImage_of_soundIcon junk he (hsound type ht)

theorem collectReps_inside (junk : Nat → UInt8) (visited : List IconType)
    (hs : ∀ type ∈ visited, type ∈ types) (array : List IconRep) (best : Nat) :
    collectReps junk family visited array best ≠ none := by
  induction visited generalizing array best with
  | nil => simp [collectReps]
  | cons type visited ih =>
    rw [List.forall_mem_cons] at hs
    unfold collectReps
    rcases getImage_of_visited hvisited hsound junk hs.1 with h | ⟨image, h, hsiz⟩
    · rw [h]
      exact ih hs.2 array best
    · obtain ⟨rep, hr⟩ := initBitmapFromICNSImage_inside junk hsiz
      rw [h]
      simp only [Option.bind_eq_bind, Option.bind_some, hr]
      exact ih hs.2 _ _

end Family

/-- The readers stay inside exactly on data whose headers and icons are `Sound`. -/
theorem readsSafely_iff (data : List UInt8) :
    (bitmapIsICNS data → ReadsSafely data) ↔ (bitmapIsICNS data → Sound data) := by
  refine forall_congr' fun his => ?_
  obtain ⟨w, hw⟩ := Option.isSome_iff_exists.1
    ((readWord_isSome_iff data 4).2 (isICNS_length his).1)
  have hi := importFamilyData_ne_none_iff his hw
  constructor
  · rintro ⟨hins2, hic⟩
    refine ⟨fun w' hw' => ?_, fun family types hfam hvisited type ht => ?_⟩
    · rw [hw, Option.some_inj] at hw'
      subst hw'
      refine hi.1 fun h => (hins2 fun _ => 0).2 ?_
      rw [imageRepsWithICNSData, h]
      rfl
    · obtain ⟨e, he⟩ := findElement_of_visited hvisited ht
      exact (decodesSafely_iff he).1 (hic family types hfam hvisited type ht)
  · rintro ⟨hsz, hic⟩
    obtain ⟨found, hf⟩ := Option.ne_none_iff_exists'.1 (hi.2 (hsz w hw))
    refine ⟨fun junk => ?_, fun family types hfam hvisited type ht => ?_⟩
    · cases found with
      | none => simp [initBitmapFromICNS, imageRepsWithICNSData, hf]
      | some family =>
        obtain ⟨types, hvisited⟩ := exists_visitedTypes family family.length ICNS_HEADER_SIZE
        have hsound := hic family types hf hvisited
        have hc : getImage32WithMaskFromFamily junk family (types.foldl chooseType ICNS_NULL_TYPE) =
            some none ∨ ∃ image, getImage32WithMaskFromFamily junk family
              (types.foldl chooseType ICNS_NULL_TYPE) = some (some image) ∧ image.Sized := by
          rcases foldl_chooseType types ICNS_NULL_TYPE with h | h
          · exact .inl (by rw [h, getImage_null])
          · exact getImage_of_visited hvisited hsound junk h
        constructor
        · unfold initBitmapFromICNS
          simp only [hf, hvisited, Option.bind_eq_bind, Option.bind_some]
          rcases hc with h | ⟨image, h, hs⟩
          · simp [h]
          · obtain ⟨rep, hr⟩ := initBitmapFromICNSImage_inside junk hs
            simp [h, hr]
        · unfold imageRepsWithICNSData
          simp only [hf, hvisited, Option.bind_eq_bind, Option.bind_some]
          exact collectReps_inside hvisited hsound junk types (fun _ h => h) [] 0
    · obtain ⟨e, he⟩ := findElement_of_visited hvisited ht
      exact (decodesSafely_iff he).2 (hic family types hfam hvisited type ht)

/-- The signature, a size of 9, and one more byte, which is no header. -/
def nineBytes : List UInt8 := [0x69, 0x63, 0x6e, 0x73, 0, 0, 0, 9, 0]

/-- The size of an element is read behind the end of the family. -/
theorem not_readsSafely_nineBytes : ¬ (bitmapIsICNS nineBytes → ReadsSafely nineBytes) := by
  intro h
  exact ((h rfl).inside fun _ => 0).2 rfl

end GnustepGui.BitmapImageRep.ICNS
