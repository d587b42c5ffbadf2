import GnustepGui.RTF.Reading
import Mathlib.Data.List.TakeWhile
import Mathlib.Tactic.FieldSimp

/-!
# Runs that fit

`RunsFit` follows the runs with the formatting that is in force where the open link began: behind the
braces that end a link, what a run does not write again comes from there (`runFits_iff`).
-/

namespace GnustepGui.RTF.RTFProducer

open Settings

variable {C : Type*}

/-! ## What is expected -/

section Fits

variable [DecidableEq C]

/-- The formatting that some attributes say. The default colours are those of text. -/
def formatting (env : Environment C) (attributes : List (Attribute C)) : Formatting C where
  family := (attributes.findSome? Attribute.font?).map (·.familyName)
  size := (attributes.findSome? Attribute.font?).map (·.pointSize)
  italic := (attributes.findSome? Attribute.font?).any (·.italic)
  bold := (attributes.findSome? Attribute.font?).any (·.bold)
  foreground := (attributes.findSome? Attribute.foreground?).filter (· ≠ env.textColor)
  background := (attributes.findSome? Attribute.background?).filter (· ≠ env.textBackgroundColor)
  underline := (attributes.findSome? Attribute.underline?).getD 0

def linkURL (attributes : List (Attribute C)) : Option (List Nat) :=
  (attributes.findSome? Attribute.link?).map (·.absoluteString)

def styledRun (env : Environment C) (run : AttributedRun C) : List (Styled C) :=
  run.string.map fun c => ⟨c, formatting env run.attributes, linkURL run.attributes⟩

/-- A run has characters, and one value for an attribute. -/
structure Formatted (run : AttributedRun C) : Prop where
  string_ne_nil : run.string ≠ []
  formats : ∀ attr ∈ run.attributes, attr.formats = true
  distinct : (run.attributes.map Attribute.name).Nodup

/-! ## Where a run fits -/

def beforeLink (attributes : List (Attribute C)) : List (Attribute C) :=
  attributes.takeWhile fun attr => attr.link?.isNone

def behindLink (attributes : List (Attribute C)) : List (Attribute C) :=
  (attributes.dropWhile fun attr => attr.link?.isNone).tail

def hasLink (attributes : List (Attribute C)) : Bool :=
  (attributes.findSome? Attribute.link?).isSome

/-- The removed attributes that are not undone by the braces of a link. -/
def resets (removed : List (Attribute C)) : List (Attribute C) :=
  if hasLink removed then behindLink removed else removed

/-- What the removed attributes are taken from. -/
def restored (removed : List (Attribute C)) (base formatting : Formatting C) : Formatting C :=
  if hasLink removed then base else formatting

/-- The effect a new attribute is to have. -/
def Formatting.apply (env : Environment C) (attributesOfLastRun : List (Attribute C)) (formatting : Formatting C) :
    Attribute C → Formatting C
  | .font font =>
    let fontOfLastRun := lastFont attributesOfLastRun
    { formatting with
      family :=
        if fontOfLastRun.map (·.familyName) = some font.familyName then formatting.family else some font.familyName
      size := if fontOfLastRun.map (·.pointSize) = some font.pointSize then formatting.size else some font.pointSize
      italic := if font.italic = fontOfLastRun.any (·.italic) then formatting.italic else font.italic
      bold := if font.bold = fontOfLastRun.any (·.bold) then formatting.bold else font.bold }
  | .foregroundColor color =>
    if color = env.textColor then formatting else { formatting with foreground := some color }
  | .backgroundColor color =>
    if color = env.textBackgroundColor then formatting else { formatting with background := some color }
  | .underlineStyle styleMask => { formatting with underline := styleMask }
  | _ => formatting

/-- The formatting where the open link begins, behind a run. -/
def nextBase (env : Environment C) (attributesOfLastRun : List (Attribute C)) (base : Formatting C)
    (attributes : List (Attribute C)) : Formatting C :=
  let removed := attributesToRemove env attributesOfLastRun attributes
  let added := attributesToAdd env attributesOfLastRun attributes
  if hasLink added then
    (beforeLink added).foldl (Formatting.apply env attributesOfLastRun)
      ((resets removed).foldl Formatting.unset (restored removed base (formatting env attributesOfLastRun)))
  else base

/-- The number of the family leads back to it in the font table. -/
def FamilyFits (tables : Context C) (fontName : List Nat) : Prop :=
  fontNumbered tables (toShort (tables.fonts.idxOf fontName)) = some fontName

/-- Half points that a command can have. -/
def SizeFits (pointSize : Rat) : Prop :=
  ∃ k : Int, -0x8000 ≤ k ∧ k < 0x8000 ∧ pointSize * 2 = k

/-- The styles that have a command. -/
def underlineStyles : List Nat :=
  [0, 1, 2, 9, 0x101, 0x201, 0x401, 0x102, 0x202, 0x402]

/-- A colour that is new and not the default is among those with a number. One that is not written again
has to be in force, unless it has been reset. -/
structure ColorFits (tables : Context C) (default : C) (colorOfLastRun color : Option C) (reset : Bool)
    (inForce : Option C) : Prop where
  written : ∀ c, color = some c → colorOfLastRun ≠ some c → c ≠ default → c ∈ tables.colors.take 0x7FFF
  kept : color = none ∨ color = colorOfLastRun ∨ color = some default → reset = false →
    inForce = color.filter (· ≠ default)

/-- What a font has of a kind: it is written where it is new, and otherwise it has to be in force. -/
structure FontFits {β : Type*} (property : NSFont → β) (fits : β → Prop) (fontOfLastRun font : Option NSFont)
    (inForce : Option β) : Prop where
  written : ∀ f, font = some f → fontOfLastRun.map property ≠ some (property f) → fits (property f)
  kept : font = none ∨ font.map property = fontOfLastRun.map property → inForce = font.map property

structure TraitFits (trait : NSFont → Bool) (fontOfLastRun font : Option NSFont) (inForce : Bool) : Prop where
  kept : font = none ∨ font.any trait = fontOfLastRun.any trait → inForce = font.any trait

structure UnderlineFits (styleOfLastRun style : Option Nat) (reset : Bool) (inForce : Nat) : Prop where
  written : ∀ styleMask, style = some styleMask → styleOfLastRun ≠ some styleMask → styleMask ∈ underlineStyles
  kept : style = none ∨ style = styleOfLastRun → reset = false → inForce = style.getD 0

/-- A run is read back as it is, where it comes after one that is. -/
structure RunFits (env : Environment C) (tables : Context C) (attributesOfLastRun : List (Attribute C))
    (reset : List (Attribute C)) (inForce : Formatting C) (run : AttributedRun C) : Prop where
  characters : NSAttachmentCharacter ∉ run.string
  family : FontFits (·.familyName) (FamilyFits tables) (attributesOfLastRun.findSome? Attribute.font?)
    (run.attributes.findSome? Attribute.font?) inForce.family
  size : FontFits (·.pointSize) SizeFits (attributesOfLastRun.findSome? Attribute.font?)
    (run.attributes.findSome? Attribute.font?) inForce.size
  italic : TraitFits (·.italic) (attributesOfLastRun.findSome? Attribute.font?)
    (run.attributes.findSome? Attribute.font?) inForce.italic
  bold : TraitFits (·.bold) (attributesOfLastRun.findSome? Attribute.font?)
    (run.attributes.findSome? Attribute.font?) inForce.bold
  foreground : ColorFits tables env.textColor (attributesOfLastRun.findSome? Attribute.foreground?)
    (run.attributes.findSome? Attribute.foreground?) (reset.findSome? Attribute.foreground?).isSome inForce.foreground
  background : ColorFits tables env.textBackgroundColor (attributesOfLastRun.findSome? Attribute.background?)
    (run.attributes.findSome? Attribute.background?) (reset.findSome? Attribute.background?).isSome inForce.background
  underline : UnderlineFits (attributesOfLastRun.findSome? Attribute.underline?)
    (run.attributes.findSome? Attribute.underline?) (reset.findSome? Attribute.underline?).isSome inForce.underline

def RunsFit (env : Environment C) (tables : Context C) :
    List (Attribute C) → Formatting C → List (AttributedRun C) → Prop
  | _, _, [] => True
  | attributesOfLastRun, base, run :: runs =>
    let removed := attributesToRemove env attributesOfLastRun run.attributes
    RunFits env tables attributesOfLastRun (resets removed)
        (restored removed base (formatting env attributesOfLastRun)) run ∧
      RunsFit env tables run.attributes (nextBase env attributesOfLastRun base run.attributes) runs

end Fits

/-! ## Numbers -/

theorem toShort_eq {n : Int} (hl : -0x8000 ≤ n) (hh : n < 0x8000) : toShort n = n :=
  Int.bmod_eq_of_le_mul_two (by omega) (by omega)

theorem toShort_lt (n : Int) : toShort n < 0x8000 := Int.bmod_lt (by decide)

theorem le_toShort (n : Int) : -0x8000 ≤ toShort n := Int.le_bmod (by decide)

theorem toInt_intCast (k : Int) : toInt k = k := by
  simp [toInt]

theorem half_toShort_eq_iff (pointSize : Rat) :
    (toShort (toInt (pointSize * 2)) : Rat) / 2 = pointSize ↔ SizeFits pointSize := by
  constructor
  · intro h
    refine ⟨toShort (toInt (pointSize * 2)), le_toShort _, toShort_lt _, ?_⟩
    rw [div_eq_iff two_ne_zero] at h
    exact h.symm
  · rintro ⟨k, hl, hh, hk⟩
    rw [hk, toInt_intCast, toShort_eq hl hh, ← hk]
    ring

theorem colorNumbered_eq_iff [DecidableEq C] (tables : Context C) (color : C) :
    colorNumbered tables (toShort (tables.colors.idxOf color + 1)) = some color ↔
      color ∈ tables.colors.take 0x7FFF := by
  constructor
  · intro h
    unfold colorNumbered at h
    split at h
    · rename_i hp
      obtain ⟨hlt, hg⟩ := List.getElem?_eq_some_iff.mp h
      have := toShort_lt (tables.colors.idxOf color + 1)
      exact List.mem_take_iff_getElem.mpr ⟨_, by omega, hg⟩
    · cases h
  · intro h
    have hi : tables.colors.idxOf color = (tables.colors.take 0x7FFF).idxOf color := by
      conv_lhs => rw [← List.take_append_drop 0x7FFF tables.colors]
      exact List.idxOf_append_of_mem h
    have hlt := List.idxOf_lt_length_iff.mpr h
    have hl := List.length_take_le 0x7FFF tables.colors
    rw [colorNumbered, toShort_eq (by omega) (by omega), if_pos (by omega), add_sub_cancel_right, Int.toNat_natCast]
    exact List.getElem?_idxOf (List.mem_of_mem_take h)

theorem underlineRead_mem (styleMask : Nat) :
    underlineRead styleMask ∈ [0, 9, 0x102, 0x202, 0x302, 0x402, 2, 0x101, 0x201, 0x301, 0x401, 1] := by
  unfold underlineRead
  split_ifs <;> decide

theorem underlineRead_eq_iff (styleMask : Nat) : underlineRead styleMask = styleMask ↔ styleMask ∈ underlineStyles := by
  constructor
  · intro h
    have ha : ∀ m ∈ [0, 9, 0x102, 0x202, 0x302, 0x402, 2, 0x101, 0x201, 0x301, 0x401, 1],
        underlineRead m = m → m ∈ underlineStyles := by
      decide
    exact ha styleMask (h ▸ underlineRead_mem styleMask) h
  · intro h
    have ha : ∀ m ∈ underlineStyles, underlineRead m = m := by decide
    exact ha styleMask h

/-! ## One component -/

theorem colorFits_iff [DecidableEq C] {tables : Context C} {default : C} {colorOfLastRun color inForce : Option C} {reset : Bool}
    (hres : reset = true → color ≠ colorOfLastRun) :
    ColorFits tables default colorOfLastRun color reset inForce ↔
      ((if color = colorOfLastRun then none else color).elim (if reset then none else inForce) fun c =>
        if c = default then if reset then none else inForce
        else colorNumbered tables (toShort (tables.colors.idxOf c + 1))) = color.filter (· ≠ default) := by
  have hd (h : color.filter (· ≠ default) = none)
      (hk : color = none ∨ color = colorOfLastRun ∨ color = some default)
      (hw : ∀ c, color = some c → colorOfLastRun ≠ some c → c ≠ default → c ∈ tables.colors.take 0x7FFF) :
      ColorFits tables default colorOfLastRun color reset inForce ↔ (if reset then none else inForce) = none := by
    cases reset with
    | true => exact iff_of_true ⟨hw, fun _ hfal => Bool.noConfusion hfal⟩ rfl
    | false =>
      refine ⟨fun hft => (hft.kept hk rfl).trans h, fun hn => ⟨hw, fun _ _ => ?_⟩⟩
      rw [h]
      exact hn
  by_cases hs : color = colorOfLastRun
  · have hfal : reset = false := by
      cases hr : reset with
      | true => exact absurd hs (hres hr)
      | false => rfl
    subst hfal
    rw [if_pos hs]
    exact ⟨fun hft => hft.kept (.inr (.inl hs)) rfl, fun h => ⟨fun c hc hl => absurd (hs ▸ hc) hl, fun _ _ => h⟩⟩
  · rw [if_neg hs]
    cases color with
    | none => exact hd rfl (.inl rfl) fun c hc => nomatch hc
    | some c =>
      by_cases hc : c = default
      · subst hc
        simp only [Option.elim_some, if_true]
        have hf : (some c).filter (· ≠ c) = none := by simp
        rw [hf]
        exact hd hf (.inr (.inr rfl)) fun c' hc' _ hne => absurd (Option.some.inj hc').symm hne
      · simp only [Option.elim_some, if_neg hc]
        have hf : (some c).filter (· ≠ default) = some c := by simp [hc]
        rw [hf, colorNumbered_eq_iff]
        constructor
        · intro hft
          exact hft.written c rfl (Ne.symm hs) hc
        · intro hm
          refine ⟨fun c' hc' _ _ => Option.some.inj hc' ▸ hm, ?_⟩
          rintro (hk | hk | hk)
          · cases hk
          · exact absurd hk hs
          · exact absurd (Option.some.inj hk) hc

theorem fontFits_iff {β : Type*} [DecidableEq β] {property : NSFont → β} {fits : β → Prop} {read : β → Option β}
    (hr : ∀ b, read b = some b ↔ fits b) {fontOfLastRun font : Option NSFont} {inForce : Option β} :
    FontFits property fits fontOfLastRun font inForce ↔
      ((if font = fontOfLastRun then none else font).elim inForce fun f =>
        if fontOfLastRun.map property = some (property f) then inForce else read (property f)) =
      font.map property := by
  by_cases hs : font = fontOfLastRun
  · subst hs
    rw [if_pos rfl]
    exact ⟨fun hft => hft.kept (.inr rfl), fun h => ⟨fun f hf hne => absurd (hf ▸ rfl) hne, fun _ => h⟩⟩
  · rw [if_neg hs]
    cases font with
    | none => exact ⟨fun hft => hft.kept (.inl rfl), fun h => ⟨fun f hf => (nomatch hf), fun _ => h⟩⟩
    | some f =>
      simp only [Option.elim_some, Option.map_some]
      by_cases hp : fontOfLastRun.map property = some (property f)
      · rw [if_pos hp]
        refine ⟨fun hft => hft.kept (.inr hp.symm), fun h => ⟨fun f' hf' hne => ?_, fun _ => h⟩⟩
        exact absurd (Option.some.inj hf' ▸ hp) hne
      · rw [if_neg hp, hr]
        refine ⟨fun hft => hft.written f rfl hp, fun h => ⟨fun f' hf' _ => Option.some.inj hf' ▸ h, ?_⟩⟩
        rintro (hk | hk)
        · cases hk
        · exact absurd hk.symm hp

theorem traitFits_iff {trait : NSFont → Bool} {fontOfLastRun font : Option NSFont} {inForce : Bool} :
    TraitFits trait fontOfLastRun font inForce ↔
      ((if font = fontOfLastRun then none else font).elim inForce fun f =>
        if trait f = fontOfLastRun.any trait then inForce else trait f) = font.any trait := by
  by_cases hs : font = fontOfLastRun
  · subst hs
    rw [if_pos rfl]
    exact ⟨fun hf => hf.kept (.inr rfl), fun h => ⟨fun _ => h⟩⟩
  · rw [if_neg hs]
    cases font with
    | none => exact ⟨fun hf => hf.kept (.inl rfl), fun h => ⟨fun _ => h⟩⟩
    | some f =>
      simp only [Option.elim_some, Option.any_some]
      by_cases ht : trait f = fontOfLastRun.any trait
      · rw [if_pos ht]
        exact ⟨fun hf => hf.kept (.inr ht), fun h => ⟨fun _ => h⟩⟩
      · rw [if_neg ht]
        refine iff_of_true ⟨?_⟩ rfl
        rintro (hk | hk)
        · cases hk
        · exact absurd hk ht

theorem underlineFits_iff {styleOfLastRun style : Option Nat} {reset : Bool} {inForce : Nat}
    (hres : reset = true → style ≠ styleOfLastRun) :
    UnderlineFits styleOfLastRun style reset inForce ↔
      ((if style = styleOfLastRun then none else style).elim (if reset then 0 else inForce) underlineRead) =
        style.getD 0 := by
  by_cases hs : style = styleOfLastRun
  · have hf : reset = false := by
      cases hr : reset with
      | true => exact absurd hs (hres hr)
      | false => rfl
    subst hf
    rw [if_pos hs]
    exact ⟨fun hft => hft.kept (.inr hs) rfl, fun h => ⟨fun m hm hl => absurd (hs ▸ hm) hl, fun _ _ => h⟩⟩
  · rw [if_neg hs]
    cases style with
    | none =>
      cases reset with
      | true => exact iff_of_true ⟨fun m hm => (nomatch hm), fun _ hf => Bool.noConfusion hf⟩ rfl
      | false => exact ⟨fun hft => hft.kept (.inl rfl) rfl, fun h => ⟨fun m hm => (nomatch hm), fun _ _ => h⟩⟩
    | some m =>
      rw [Option.elim_some, Option.getD_some, underlineRead_eq_iff]
      refine ⟨fun hft => hft.written m rfl (Ne.symm hs), fun h => ⟨fun m' hm' _ => Option.some.inj hm' ▸ h, ?_⟩⟩
      rintro (hk | hk)
      · cases hk
      · exact absurd hk hs

/-! ## Values of attributes -/

/-- `p` gives the value of the attributes that `make` makes. -/
structure Selects {ν : Type*} (p : Attribute C → Option ν) (make : ν → Attribute C) : Prop where
  eq_some_iff : ∀ attr value, p attr = some value ↔ attr = make value
  name : ∀ value value', (make value).name = (make value').name

theorem selects_font : Selects (C := C) Attribute.font? .font :=
  ⟨fun attr _ => by cases attr <;> simp [Attribute.font?], fun _ _ => rfl⟩

theorem selects_foreground : Selects (C := C) Attribute.foreground? .foregroundColor :=
  ⟨fun attr _ => by cases attr <;> simp [Attribute.foreground?], fun _ _ => rfl⟩

theorem selects_background : Selects (C := C) Attribute.background? .backgroundColor :=
  ⟨fun attr _ => by cases attr <;> simp [Attribute.background?], fun _ _ => rfl⟩

theorem selects_underline : Selects (C := C) Attribute.underline? .underlineStyle :=
  ⟨fun attr _ => by cases attr <;> simp [Attribute.underline?], fun _ _ => rfl⟩

theorem selects_link : Selects (C := C) Attribute.link? .link :=
  ⟨fun attr _ => by cases attr <;> simp [Attribute.link?], fun _ _ => rfl⟩

section Values

variable {ν : Type*} {p : Attribute C → Option ν} {make : ν → Attribute C} {env : Environment C}
  {attributesOfLastRun attributes : List (Attribute C)}

theorem Selects.once (h : Selects p make) (hd : (attributes.map Attribute.name).Nodup) : Once p attributes := by
  refine (List.pairwise_map.mp hd).imp fun {a b} hne => ?_
  by_contra hvl
  rw [not_or, ← ne_eq, ← ne_eq, Option.ne_none_iff_exists', Option.ne_none_iff_exists'] at hvl
  obtain ⟨⟨v, hv⟩, w, hw⟩ := hvl
  rw [(h.eq_some_iff a v).mp hv, (h.eq_some_iff b w).mp hw] at hne
  exact hne (h.name v w)

theorem Selects.injective (h : Selects p make) (a b : Attribute C) (v : ν) (ha : p a = some v)
    (hb : p b = some v) : a = b := by
  rw [(h.eq_some_iff a v).mp ha, (h.eq_some_iff b v).mp hb]

variable [DecidableEq C] [DecidableEq ν]

theorem findSome?_attributesToAdd (h : Selects p make) (he : ∀ l, (env.enumerate l).Perm l)
    (hl : (attributesOfLastRun.map Attribute.name).Nodup) (ha : (attributes.map Attribute.name).Nodup) :
    (attributesToAdd env attributesOfLastRun attributes).findSome? p =
      if attributes.findSome? p = attributesOfLastRun.findSome? p then none else attributes.findSome? p := by
  rw [attributesToAdd, ((h.once ha).sublist List.filter_sublist).findSome?_perm (he _)]
  exact findSome?_difference (h.once ha) (h.once hl) h.injective

theorem findSome?_attributesToRemove (h : Selects p make) (he : ∀ l, (env.enumerate l).Perm l)
    (hl : (attributesOfLastRun.map Attribute.name).Nodup) (ha : (attributes.map Attribute.name).Nodup) :
    (attributesToRemove env attributesOfLastRun attributes).findSome? p =
      if attributesOfLastRun.findSome? p = attributes.findSome? p then none else attributesOfLastRun.findSome? p := by
  rw [attributesToRemove, ((h.once hl).sublist List.filter_sublist).findSome?_perm (he _)]
  exact findSome?_difference (h.once hl) (h.once ha) h.injective

end Values

/-! ## The formatting of a run -/

section Run

variable [DecidableEq C] {env : Environment C} {attributesOfLastRun attributes : List (Attribute C)}

omit [DecidableEq C] in
theorem behindLink_sublist (l : List (Attribute C)) : (behindLink l).Sublist l :=
  (List.tail_sublist _).trans (List.dropWhile_sublist _)

omit [DecidableEq C] in
theorem resets_sublist (removed : List (Attribute C)) : (resets removed).Sublist removed := by
  unfold resets
  split
  · exact behindLink_sublist removed
  · exact List.Sublist.refl removed

variable (attributes) in
theorem once_attributesToRemove {ν : Type*} {p : Attribute C → Option ν} {make : ν → Attribute C}
    (h : Selects p make) (he : ∀ l, (env.enumerate l).Perm l) (hl : (attributesOfLastRun.map Attribute.name).Nodup) :
    Once p (attributesToRemove env attributesOfLastRun attributes) :=
  ((h.once hl).sublist List.filter_sublist).perm (he _)

variable (attributesOfLastRun) in
theorem once_attributesToAdd {ν : Type*} {p : Attribute C → Option ν} {make : ν → Attribute C}
    (h : Selects p make) (he : ∀ l, (env.enumerate l).Perm l) (ha : (attributes.map Attribute.name).Nodup) :
    Once p (attributesToAdd env attributesOfLastRun attributes) :=
  ((h.once ha).sublist List.filter_sublist).perm (he _)

theorem ne_of_reset {ν : Type*} [DecidableEq ν] {p : Attribute C → Option ν} {make : ν → Attribute C}
    (h : Selects p make) (he : ∀ l, (env.enumerate l).Perm l)
    (hl : (attributesOfLastRun.map Attribute.name).Nodup) (ha : (attributes.map Attribute.name).Nodup)
    (hr : ((resets (attributesToRemove env attributesOfLastRun attributes)).findSome? p).isSome = true) :
    attributes.findSome? p ≠ attributesOfLastRun.findSome? p := by
  intro hs
  obtain ⟨v, hv⟩ := Option.isSome_iff_exists.mp hr
  obtain ⟨attr, hat, hp⟩ := List.exists_of_findSome?_eq_some hv
  have hn := findSome?_attributesToRemove h he hl ha
  rw [if_pos hs.symm, List.findSome?_eq_none_iff] at hn
  rw [hn attr ((resets_sublist _).mem hat)] at hp
  cases hp

/-- The formatting in force behind the commands of a run. -/
def formattingRead (env : Environment C) (tables : Context C) (attributesOfLastRun attributes : List (Attribute C))
    (inForce : Formatting C) : Formatting C :=
  (attributesToAdd env attributesOfLastRun attributes).foldl (Formatting.set env tables attributesOfLastRun)
    ((resets (attributesToRemove env attributesOfLastRun attributes)).foldl Formatting.unset inForce)

omit [DecidableEq C] in
/-- A component that no removed attribute is for. -/
theorem unset_component {β : Type*} {π : Formatting C → β} (hπ : ∀ s attr, π (Formatting.unset s attr) = π s)
    (l : List (Attribute C)) (s : Formatting C) : π (l.foldl Formatting.unset s) = π s :=
  foldl_unchanged (fun s attr _ => hπ s attr) s

theorem reset_component {β ν : Type*} {p : Attribute C → Option ν} {make : ν → Attribute C} (h : Selects p make)
    (he : ∀ l, (env.enumerate l).Perm l) (hl : (attributesOfLastRun.map Attribute.name).Nodup)
    {π : Formatting C → β} {x : β} (hn : ∀ s attr, p attr = none → π (Formatting.unset s attr) = π s)
    (hs : ∀ s attr v, p attr = some v → π (Formatting.unset s attr) = x) (s : Formatting C) :
    π ((resets (attributesToRemove env attributesOfLastRun attributes)).foldl Formatting.unset s) =
      if ((resets (attributesToRemove env attributesOfLastRun attributes)).findSome? p).isSome then x else π s := by
  have hon := (once_attributesToRemove attributes h he hl).sublist
    (resets_sublist (attributesToRemove env attributesOfLastRun attributes))
  rw [foldl_component (g := fun _ _ => x) hon hn hs]
  cases (resets (attributesToRemove env attributesOfLastRun attributes)).findSome? p <;> rfl

theorem added_component {β ν : Type*} [DecidableEq ν] {p : Attribute C → Option ν} {make : ν → Attribute C}
    (h : Selects p make) (he : ∀ l, (env.enumerate l).Perm l)
    (hl : (attributesOfLastRun.map Attribute.name).Nodup) (ha : (attributes.map Attribute.name).Nodup)
    {tables : Context C} {π : Formatting C → β} {g : ν → β → β}
    (hn : ∀ s attr, p attr = none → π (Formatting.set env tables attributesOfLastRun s attr) = π s)
    (hs : ∀ s attr v, p attr = some v →
      π (Formatting.set env tables attributesOfLastRun s attr) = g v (π s)) (s : Formatting C) :
    π ((attributesToAdd env attributesOfLastRun attributes).foldl
        (Formatting.set env tables attributesOfLastRun) s) =
      (if attributes.findSome? p = attributesOfLastRun.findSome? p then none else attributes.findSome? p).elim (π s)
        fun v => g v (π s) := by
  have hon := once_attributesToAdd attributesOfLastRun h he ha
  rw [foldl_component hon hn hs, findSome?_attributesToAdd h he hl ha]

variable {attr : Attribute C}

theorem set_of_font?_eq_none (tables : Context C) (s : Formatting C) (h : attr.font? = none) :
    (s.set env tables attributesOfLastRun attr).family = s.family ∧
      (s.set env tables attributesOfLastRun attr).size = s.size ∧
      (s.set env tables attributesOfLastRun attr).italic = s.italic ∧
      (s.set env tables attributesOfLastRun attr).bold = s.bold := by
  cases attr with
  | font font => cases h
  | foregroundColor color =>
    simp only [Formatting.set]
    split <;> exact ⟨rfl, rfl, rfl, rfl⟩
  | backgroundColor color =>
    simp only [Formatting.set]
    split <;> exact ⟨rfl, rfl, rfl, rfl⟩
  | _ => exact ⟨rfl, rfl, rfl, rfl⟩

theorem set_of_foreground?_eq_none (tables : Context C) (s : Formatting C)
    (h : attr.foreground? = none) : (s.set env tables attributesOfLastRun attr).foreground = s.foreground := by
  cases attr with
  | foregroundColor color => cases h
  | backgroundColor color =>
    simp only [Formatting.set]
    split <;> rfl
  | _ => rfl

theorem set_of_background?_eq_none (tables : Context C) (s : Formatting C)
    (h : attr.background? = none) : (s.set env tables attributesOfLastRun attr).background = s.background := by
  cases attr with
  | backgroundColor color => cases h
  | foregroundColor color =>
    simp only [Formatting.set]
    split <;> rfl
  | _ => rfl

theorem set_of_underline?_eq_none (tables : Context C) (s : Formatting C)
    (h : attr.underline? = none) : (s.set env tables attributesOfLastRun attr).underline = s.underline := by
  cases attr with
  | underlineStyle styleMask => cases h
  | foregroundColor color =>
    simp only [Formatting.set]
    split <;> rfl
  | backgroundColor color =>
    simp only [Formatting.set]
    split <;> rfl
  | _ => rfl

section

omit [DecidableEq C]

theorem unset_of_foreground?_eq_none (s : Formatting C) (h : attr.foreground? = none) :
    (s.unset attr).foreground = s.foreground := by
  cases attr with
  | foregroundColor color => cases h
  | _ => rfl

theorem unset_of_background?_eq_none (s : Formatting C) (h : attr.background? = none) :
    (s.unset attr).background = s.background := by
  cases attr with
  | backgroundColor color => cases h
  | _ => rfl

theorem unset_of_underline?_eq_none (s : Formatting C) (h : attr.underline? = none) :
    (s.unset attr).underline = s.underline := by
  cases attr with
  | underlineStyle styleMask => cases h
  | _ => rfl

theorem unset_font (s : Formatting C) (attr : Attribute C) :
    (s.unset attr).family = s.family ∧ (s.unset attr).size = s.size ∧ (s.unset attr).italic = s.italic ∧
      (s.unset attr).bold = s.bold := by
  cases attr <;> exact ⟨rfl, rfl, rfl, rfl⟩

end

theorem set_foreground (tables : Context C) (s : Formatting C) (color : C) :
    (s.set env tables attributesOfLastRun (.foregroundColor color)).foreground =
      if color = env.textColor then s.foreground
      else colorNumbered tables (toShort (tables.colors.idxOf color + 1)) := by
  simp only [Formatting.set]
  split
  · rfl
  · dsimp only

theorem set_background (tables : Context C) (s : Formatting C) (color : C) :
    (s.set env tables attributesOfLastRun (.backgroundColor color)).background =
      if color = env.textBackgroundColor then s.background
      else colorNumbered tables (toShort (tables.colors.idxOf color + 1)) := by
  simp only [Formatting.set]
  split
  · rfl
  · dsimp only

theorem formattingRead_font (tables : Context C) (he : ∀ l, (env.enumerate l).Perm l)
    (hl : (attributesOfLastRun.map Attribute.name).Nodup) (ha : (attributes.map Attribute.name).Nodup)
    {β : Type*} {π : Formatting C → β} {g : NSFont → β → β}
    (hu : ∀ s attr, π (Formatting.unset s attr) = π s)
    (hn : ∀ s attr, attr.font? = none → π (Formatting.set env tables attributesOfLastRun s attr) = π s)
    (hs : ∀ s font, π (Formatting.set env tables attributesOfLastRun s (.font font)) = g font (π s))
    (inForce : Formatting C) :
    π (formattingRead env tables attributesOfLastRun attributes inForce) =
      (if attributes.findSome? Attribute.font? = attributesOfLastRun.findSome? Attribute.font? then none
        else attributes.findSome? Attribute.font?).elim (π inForce) fun font => g font (π inForce) := by
  rw [formattingRead, added_component selects_font he hl ha hn, unset_component hu]
  rintro s attr font hf
  rw [(selects_font.eq_some_iff attr font).mp hf]
  exact hs s font

theorem runFits_iff (tables : Context C) (he : ∀ l, (env.enumerate l).Perm l)
    (hl : (attributesOfLastRun.map Attribute.name).Nodup) {run : AttributedRun C} (hr : Formatted run)
    (inForce : Formatting C) :
    RunFits env tables attributesOfLastRun (resets (attributesToRemove env attributesOfLastRun run.attributes))
        inForce run ↔ NSAttachmentCharacter ∉ run.string ∧
        formattingRead env tables attributesOfLastRun run.attributes inForce = formatting env run.attributes := by
  have hd := hr.distinct
  have hfm := formattingRead_font (π := Formatting.family) (g := fun font x =>
      if (lastFont attributesOfLastRun).map (·.familyName) = some font.familyName then x
      else fontNumbered tables (toShort (tables.fonts.idxOf font.familyName))) tables he hl hd
    (fun s attr => (unset_font s attr).1) (fun s attr h => (set_of_font?_eq_none tables s h).1) (fun _ _ => rfl) inForce
  have hs := formattingRead_font (π := Formatting.size) (g := fun font x =>
      if (lastFont attributesOfLastRun).map (·.pointSize) = some font.pointSize then x
      else some (toShort (toInt (font.pointSize * 2)) / 2)) tables he hl hd
    (fun s attr => (unset_font s attr).2.1) (fun s attr h => (set_of_font?_eq_none tables s h).2.1)
    (fun s font => by simp only [Formatting.set]) inForce
  have hit := formattingRead_font (π := Formatting.italic) (g := fun font x =>
      if font.italic = (lastFont attributesOfLastRun).any (·.italic) then x else font.italic) tables he hl
    hd (fun s attr => (unset_font s attr).2.2.1) (fun s attr h => (set_of_font?_eq_none tables s h).2.2.1)
    (fun _ _ => rfl) inForce
  have hbl := formattingRead_font (π := Formatting.bold) (g := fun font x =>
      if font.bold = (lastFont attributesOfLastRun).any (·.bold) then x else font.bold) tables he hl
    hd (fun s attr => (unset_font s attr).2.2.2) (fun s attr h => (set_of_font?_eq_none tables s h).2.2.2)
    (fun _ _ => rfl) inForce
  have hf : (formattingRead env tables attributesOfLastRun run.attributes inForce).foreground = _ :=
    added_component (π := Formatting.foreground) (g := fun c x => if c = env.textColor then x else
      colorNumbered tables (toShort (tables.colors.idxOf c + 1))) selects_foreground he hl hd
      (fun s attr h => set_of_foreground?_eq_none tables s h) (fun s attr c h => by
        rw [(selects_foreground.eq_some_iff attr c).mp h, set_foreground]) _
  rw [reset_component selects_foreground he hl (fun s attr h => unset_of_foreground?_eq_none s h)
    (x := none) (fun s attr c h => by rw [(selects_foreground.eq_some_iff attr c).mp h]; rfl)] at hf
  have hb : (formattingRead env tables attributesOfLastRun run.attributes inForce).background = _ :=
    added_component (π := Formatting.background) (g := fun c x => if c = env.textBackgroundColor then x else
      colorNumbered tables (toShort (tables.colors.idxOf c + 1))) selects_background he hl hd
      (fun s attr h => set_of_background?_eq_none tables s h) (fun s attr c h => by
        rw [(selects_background.eq_some_iff attr c).mp h, set_background]) _
  rw [reset_component selects_background he hl (fun s attr h => unset_of_background?_eq_none s h)
    (x := none) (fun s attr c h => by rw [(selects_background.eq_some_iff attr c).mp h]; rfl)] at hb
  have hu : (formattingRead env tables attributesOfLastRun run.attributes inForce).underline = _ :=
    added_component (π := Formatting.underline) (g := fun m _ => underlineRead m) selects_underline he hl
      hd (fun s attr h => set_of_underline?_eq_none tables s h) (fun s attr m h => by
        rw [(selects_underline.eq_some_iff attr m).mp h]
        rfl) _
  rw [reset_component selects_underline he hl (fun s attr h => unset_of_underline?_eq_none s h)
    (x := 0) (fun s attr m h => by rw [(selects_underline.eq_some_iff attr m).mp h]; rfl)] at hu
  have hn (size : Rat) : some ((toShort (toInt (size * 2)) : Rat) / 2) = some size ↔ SizeFits size := by
    rw [Option.some_inj]
    exact half_toShort_eq_iff size
  have hfam (fontName : List Nat) : fontNumbered tables (toShort (tables.fonts.idxOf fontName)) = some fontName ↔
      FamilyFits tables fontName := Iff.rfl
  rw [Formatting.ext_iff, hfm, hs, hit, hbl, hf, hb, hu]
  constructor
  · intro h
    exact ⟨h.characters, (fontFits_iff hfam).mp h.family, (fontFits_iff hn).mp h.size,
      traitFits_iff.mp h.italic, traitFits_iff.mp h.bold,
      (colorFits_iff (ne_of_reset selects_foreground he hl hd)).mp h.foreground,
      (colorFits_iff (ne_of_reset selects_background he hl hd)).mp h.background,
      (underlineFits_iff (ne_of_reset selects_underline he hl hd)).mp h.underline⟩
  · rintro ⟨hc, hfm, hs, hit, hbl, hf, hb, hu⟩
    exact ⟨hc, (fontFits_iff hfam).mpr hfm, (fontFits_iff hn).mpr hs, traitFits_iff.mpr hit, traitFits_iff.mpr hbl,
      (colorFits_iff (ne_of_reset selects_foreground he hl hd)).mpr hf,
      (colorFits_iff (ne_of_reset selects_background he hl hd)).mpr hb,
      (underlineFits_iff (ne_of_reset selects_underline he hl hd)).mpr hu⟩

end Run

end GnustepGui.RTF.RTFProducer
