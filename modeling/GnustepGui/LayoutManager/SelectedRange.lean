import Mathlib

/-!
# The selection after an edit

`textStorage:edited:range:changeInLength:invalidatedRange:` of a layout manager moves the selection along with the
text. Indexes are unsigned and of 64 bits, the change in length is an `int`.

    before the edit, after it  →  selected as before;  in the edit  →  deselected, unless all of it was selected
-/

namespace GnustepGui.LayoutManager

/-- A number as an `NSUInteger`. -/
def wrap (n : Int) : Nat := (n % 2 ^ 64).toNat

structure NSRange where
  location : Nat
  length : Nat
  deriving DecidableEq, Repr

namespace NSRange

/-- `NSMaxRange` -/
def max (range : NSRange) : Nat := wrap (range.location + range.length)

instance : Membership Nat NSRange where
  mem range i := range.location ≤ i ∧ i < range.location + range.length

theorem mem_iff {range : NSRange} {i : Nat} :
    i ∈ range ↔ range.location ≤ i ∧ i < range.location + range.length := Iff.rfl

end NSRange

theorem wrap_natCast {n : Nat} (h : n < 2 ^ 64) : wrap n = n := by
  unfold wrap
  omega

theorem NSRange.max_eq {location length : Nat} (h : location + length < 2 ^ 64) :
    NSRange.max ⟨location, length⟩ = location + length := by
  rw [NSRange.max, ← Int.natCast_add]
  exact wrap_natCast h

theorem wrap_of_nonneg {n : Int} (hn : 0 ≤ n) (hlt : n < 2 ^ 64) : (wrap n : Int) = n := by
  unfold wrap
  omega

/-! ## The adjustment -/

/-- The new range before the sanity check: `range` is where the new text is, and `lengthChange` what it is longer
than the old one. -/
def movedRange (range selectedRange : NSRange) (lengthChange : Int) : NSRange :=
  if selectedRange.location ≥ wrap (range.max - lengthChange) then
    { selectedRange with location := wrap (selectedRange.location + lengthChange) }
  else if selectedRange.location ≥ range.location then
    if selectedRange.max > wrap (range.max - lengthChange) then
      ⟨range.max, wrap (selectedRange.max - wrap (range.max - lengthChange))⟩
    else ⟨range.max, 0⟩
  else if selectedRange.max > wrap (range.max - lengthChange) then
    { selectedRange with length := wrap (selectedRange.length + lengthChange) }
  else if selectedRange.max > range.location then
    { selectedRange with length := wrap (range.location - selectedRange.location) }
  else selectedRange

/-- The selection that the text views are given. -/
def adjustedRange (textLength : Nat) (range selectedRange : NSRange) (lengthChange : Int) : NSRange :=
  let newRange := movedRange range selectedRange lengthChange
  if newRange.max > textLength then ⟨min range.location textLength, 0⟩ else newRange

/-- What the layout manager does with the selection; without an edit of characters it does nothing. -/
def textStorageEdited (editedCharacters : Bool) (textLength : Nat) (range : NSRange) (changeInLength : Int32)
    (selectedRange : NSRange) : NSRange :=
  let lengthChange := if editedCharacters then changeInLength.toInt else 0
  if editedCharacters then adjustedRange textLength range selectedRange lengthChange else selectedRange

/-! ## Edits -/

/-- The text of `range` has replaced a text that was shorter by `changeInLength`. -/
structure IsEdit (editedCharacters : Bool) (oldLength newLength : Nat) (range : NSRange) (changeInLength : Int) :
    Prop where
  old_lt : oldLength < 2 ^ 64
  new_lt : newLength < 2 ^ 64
  newLength_eq : (newLength : Int) = oldLength + changeInLength
  range_le : range.location + range.length ≤ newLength
  change_le : changeInLength ≤ range.length
  change_eq : editedCharacters = false → changeInLength = 0

/-- A character is selected afterwards exactly when it was selected before. -/
structure Follows (oldLength newLength : Nat) (range : NSRange) (changeInLength : Int) (before after : NSRange) :
    Prop where
  le : after.location + after.length ≤ newLength
  empty : before.length = 0 → after.length = 0
  low : ∀ i, i < range.location → (i ∈ after ↔ i ∈ before)
  high : ∀ i j : Nat, i < oldLength → (range.location + range.length : Int) - changeInLength ≤ i →
    (j : Int) = i + changeInLength → (j ∈ after ↔ i ∈ before)

variable {oldLength newLength : Nat} {range selectedRange : NSRange} {change : Int} {editedCharacters : Bool}

theorem Follows.of_ends {location length start count start' count' : Nat} (hle : start' + count' ≤ newLength)
    (he : count = 0 → count' = 0)
    (hl : ∀ i, i < location → (start' ≤ i ∧ i < start' + count' ↔ start ≤ i ∧ i < start + count))
    (hh : ∀ i j : Nat, i < oldLength → (location + length : Int) - change ≤ i → (j : Int) = i + change →
      (start' ≤ j ∧ j < start' + count' ↔ start ≤ i ∧ i < start + count)) :
    Follows oldLength newLength ⟨location, length⟩ change ⟨start, count⟩ ⟨start', count'⟩ := ⟨hle, he, hl, hh⟩

/-- One case for each position of the two ends of the selection. -/
theorem movedRange_follows (hed : IsEdit editedCharacters oldLength newLength range change)
    (hs : selectedRange.location + selectedRange.length ≤ oldLength) :
    Follows oldLength newLength range change selectedRange (movedRange range selectedRange change) := by
  obtain ⟨ho, hn, hl, hr, hch, -⟩ := hed
  obtain ⟨start, count⟩ := selectedRange
  obtain ⟨location, length⟩ := range
  dsimp only at hs hr hch
  have hm : NSRange.max ⟨location, length⟩ = location + length := NSRange.max_eq (by omega)
  have he : NSRange.max ⟨start, count⟩ = start + count := NSRange.max_eq (by omega)
  have hov : (wrap (↑(location + length) - change) : Int) = location + length - change := by
    rw [wrap_of_nonneg (by omega) (by omega)]
    push_cast
    rfl
  unfold movedRange
  rw [hm, he]
  dsimp only
  generalize wrap (↑(location + length) - change) = oldEnd at *
  by_cases ha : start ≥ oldEnd
  · have hmvd : (wrap (start + change) : Int) = start + change := wrap_of_nonneg (by omega) (by omega)
    rw [if_pos ha]
    exact .of_ends (by omega) (by omega) (by omega) (by omega)
  · rw [if_neg ha]
    by_cases hin : start ≥ location
    · rw [if_pos hin]
      by_cases hb : start + count > oldEnd
      · have hrs : (wrap (↑(start + count) - oldEnd) : Int) = start + count - oldEnd := by
          rw [wrap_of_nonneg (by omega) (by omega)]
          push_cast
          rfl
        rw [if_pos hb]
        exact .of_ends (by omega) (by omega) (by omega) (by omega)
      · rw [if_neg hb]
        exact .of_ends (by omega) (by omega) (by omega) (by omega)
    · rw [if_neg hin]
      by_cases hb : start + count > oldEnd
      · have hg : (wrap (count + change) : Int) = count + change := wrap_of_nonneg (by omega) (by omega)
        rw [if_pos hb]
        exact .of_ends (by omega) (by omega) (by omega) (by omega)
      · rw [if_neg hb]
        by_cases ht : start + count > location
        · have hc : (wrap (location - start) : Int) = location - start := wrap_of_nonneg (by omega) (by omega)
          rw [if_pos ht]
          exact .of_ends (by omega) (by omega) (by omega) (by omega)
        · rw [if_neg ht]
          exact .of_ends (by omega) (by omega) (by omega) (by omega)

/-- After every edit the selection is within the text, stays empty if it was, and has the same characters outside the
edit. -/
theorem selectedRange_follows {changeInLength : Int32}
    (hedit : IsEdit editedCharacters oldLength newLength range changeInLength.toInt)
    (hselected : selectedRange.location + selectedRange.length ≤ oldLength) :
    Follows oldLength newLength range changeInLength.toInt selectedRange
      (textStorageEdited editedCharacters newLength range changeInLength selectedRange) := by
  cases editedCharacters with
  | false =>
    have hz := hedit.change_eq rfl
    have hl := hedit.newLength_eq
    rw [textStorageEdited, if_neg Bool.false_ne_true]
    refine ⟨by omega, id, fun i _ => Iff.rfl, fun i j _ _ hj => ?_⟩
    obtain rfl : j = i := by omega
    exact Iff.rfl
  | true =>
    have hf := movedRange_follows hedit hselected
    have hle := hf.le
    have hm : (movedRange range selectedRange changeInLength.toInt).max ≤ newLength := by
      rw [NSRange.max, ← Int.natCast_add, wrap_natCast (Nat.lt_of_le_of_lt hle hedit.new_lt)]
      exact hle
    rw [textStorageEdited, if_pos rfl, if_pos rfl, adjustedRange, if_neg (Nat.not_lt.mpr hm)]
    exact hf

/-- Two of six characters are replaced by four, of which the first was selected. -/
theorem selectedRange_follows_overlap :
    Follows 6 8 ⟨2, 4⟩ 2 ⟨1, 2⟩ (textStorageEdited true 8 ⟨2, 4⟩ 2 ⟨1, 2⟩) :=
  have he : IsEdit true 6 8 ⟨2, 4⟩ (2 : Int32).toInt :=
    ⟨by decide, by decide, by decide, by decide, by decide, nofun⟩
  selectedRange_follows he (by decide)

end GnustepGui.LayoutManager
