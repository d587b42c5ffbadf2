import GnustepGui.AttributedString.AttributedString
import GnustepGui.Library.Searches

/-!
# Word and line breaks

The scans of the text of an attributed string. The character sets of the Foundation are parameters. Both methods skip
apostrophes within words: `doubleClickAtIndex:` finds the words (`doubleClickAtIndex_selects`), and
`lineBreakBeforeIndex:withinRange:` loses its range when it does (`breaksInRange_iff`).
-/

namespace GnustepGui.AttributedString

open Searches

/-- The sets that `cache_init` builds its own from. -/
structure CharacterSets where
  whitespace : UInt16 → Bool
  whitespaceAndNewline : UInt16 → Bool
  punctuation : UInt16 → Bool
  control : UInt16 → Bool
  illegal : UInt16 → Bool

namespace CharacterSets

variable (sets : CharacterSets)

/-- The four sets and the characters of `<>`, without that of `_`. -/
def wordBreakCSet (c : UInt16) : Bool :=
  c != 95 && (sets.whitespaceAndNewline c || sets.punctuation c || sets.control c || sets.illegal c ||
    c == 60 || c == 62)

def wordCSet (c : UInt16) : Bool := !sets.wordBreakCSet c

def whiteCSet (c : UInt16) : Bool := sets.whitespace c

def nonWhiteCSet (c : UInt16) : Bool := !sets.whiteCSet c

end CharacterSets

/-- The character at an index is a member of the set. -/
def memberAt (set : UInt16 → Bool) (str : List UInt16) (i : Nat) : Bool := str[i]?.any set

variable (sets : CharacterSets) (str : List UInt16)

/-! ## The two methods -/

/-- The apostrophe that a line is not broken behind. -/
def quoteAfterWord (i : Nat) : Bool :=
  decide (i > 0) && memberAt (· == 39) str i && memberAt sets.wordCSet str (i - 1)

def lineBreakBeforeIndex (location : Nat) (aRange : NSRange) : Except NSException (Option Nat) :=
  if aRange.max > str.length ∨ location > str.length then .error .rangeError
  else if ¬ (aRange.location ≤ location ∧ location < aRange.max) then .ok none
  else
    let breaks := memberAt sets.wordBreakCSet str
    -- the scans after the first one start at 0
    let startRange := (skipBack breaks (quoteAfterWord sets str) str.length location
      (last breaks aRange.location location)).2
    .ok (startRange.map (· + 1))

/-- An apostrophe within a word. -/
def quoteWithinWord (i : Nat) : Bool :=
  decide (i > 0) && decide (i < str.length - 1) && memberAt (· == 39) str i &&
    memberAt sets.wordCSet str (i - 1) && memberAt sets.wordCSet str (i + 1)

/-- The two scans of `doubleClickAtIndex:`; the second one starts where the first one has gone to. -/
def scanBothWays (breakCSet : UInt16 → Bool) (location : Nat) : NSRange :=
  let breaks := memberAt sets.wordBreakCSet str
  let quote := quoteWithinWord sets str
  let back := skipBack breaks quote str.length location (last (memberAt breakCSet str) 0 location)
  let endRange := skipOn breaks quote str.length str.length (first (memberAt breakCSet str) back.1 str.length)
  let start := back.2.elim 0 (· + 1)
  ⟨start, endRange.getD str.length - start⟩

def doubleClickAtIndex (location : Nat) : Except NSException NSRange :=
  match str[location]? with
  -- raised here, or by `characterAtIndex:` where the index is the length
  | none => .error .rangeError
  | some c =>
    if sets.whiteCSet c then .ok (scanBothWays sets str sets.nonWhiteCSet location)
    else if sets.wordBreakCSet c then
      if location = 0 ∨ location = str.length - 1 ∨ c ≠ 39 ∨ ¬ memberAt sets.wordCSet str (location - 1) ∨
          ¬ memberAt sets.wordCSet str (location + 1) then .ok ⟨location, 1⟩
      else .ok (scanBothWays sets str sets.wordBreakCSet location)
    else .ok (scanBothWays sets str sets.wordBreakCSet location)

variable {sets str} {location : Nat}

theorem memberAt_word (i : Nat) (h : memberAt sets.wordCSet str i = true) :
    memberAt sets.wordBreakCSet str i = false := by
  unfold memberAt at h ⊢
  cases hc : str[i]? with
  | none => rfl
  | some c =>
    rw [hc] at h
    exact Bool.not_inj (by simpa [CharacterSets.wordCSet] using h)

/-! ## Lines -/

/-- The break characters that a line may be broken behind. -/
def breaksLine (sets : CharacterSets) (str : List UInt16) (i : Nat) : Bool :=
  memberAt sets.wordBreakCSet str i && !quoteAfterWord sets str i

/-- The index is within the range, at most the location, and behind a character that breaks the line. -/
def IsLineBreak (sets : CharacterSets) (str : List UInt16) (location : Nat) (aRange : NSRange) (p : Nat) : Prop :=
  aRange.location < p ∧ p ≤ location ∧ breaksLine sets str (p - 1) = true

/-- The answer is the last line break, if there is one. -/
def BreaksInRange (sets : CharacterSets) (str : List UInt16) (location : Nat) (aRange : NSRange) : Prop :=
  ∃ r, lineBreakBeforeIndex sets str location aRange = .ok r ∧
    (r = none ↔ ∀ p, ¬ IsLineBreak sets str location aRange p) ∧
    ∀ p, r = some p → IsLineBreak sets str location aRange p ∧ ∀ p', p < p' → ¬ IsLineBreak sets str location aRange p'

/-- What the search comes to: no scan after the first one where that one finds nothing, else one from 0. -/
theorem lineBreakBeforeIndex_eq {aRange : NSRange} (hr : aRange.max ≤ str.length)
    (hle : aRange.location ≤ location) (hlt : location < aRange.max) :
    lineBreakBeforeIndex sets str location aRange = .ok
      ((if last (memberAt sets.wordBreakCSet str) aRange.location location = none then none
        else last (breaksLine sets str) 0 location).map (· + 1)) := by
  have hq : ∀ k, quoteAfterWord sets str k = true → memberAt sets.wordBreakCSet str (k - 1) = false := by
    intro k hk
    exact memberAt_word _ (Bool.and_eq_true_iff.mp hk).2
  unfold lineBreakBeforeIndex
  rw [if_neg (by omega), if_neg (not_not.mpr ⟨hle, hlt⟩)]
  dsimp only
  cases hl : last (memberAt sets.wordBreakCSet str) aRange.location location with
  | none =>
    rw [if_pos rfl]
    cases str.length <;> rfl
  | some k =>
    obtain ⟨-, hk, hb, hn⟩ := last_eq_some_iff.mp hl
    rw [if_neg (Option.some_ne_none k), ← last_eq_some_iff.mpr ⟨Nat.zero_le k, hk, hb, hn⟩,
      skipBack_found hq (by omega)]
    rfl

theorem breaks_iff {aRange : NSRange} (r : Option Nat) :
    ((r.map (· + 1) = none ↔ ∀ p, ¬ IsLineBreak sets str location aRange p) ∧
      ∀ p, r.map (· + 1) = some p → IsLineBreak sets str location aRange p ∧
        ∀ p', p < p' → ¬ IsLineBreak sets str location aRange p') ↔
      r = last (breaksLine sets str) aRange.location location := by
  have hn : (∀ p, ¬ IsLineBreak sets str location aRange p) ↔
      last (breaksLine sets str) aRange.location location = none := by
    rw [last_eq_none_iff]
    constructor
    · exact fun h j hj hj' => Bool.eq_false_iff.mpr fun hb => h (j + 1) ⟨Nat.lt_succ_of_le hj, hj', hb⟩
    · rintro h p ⟨hlt, hle, hb⟩
      rw [h (p - 1) (by omega) (by omega)] at hb
      cases hb
  rw [hn, Option.map_eq_none_iff]
  cases r with
  | none => exact ⟨fun h => (h.1.mp rfl).symm, fun h => ⟨⟨fun _ => h.symm, fun _ => rfl⟩, fun p hp => by cases hp⟩⟩
  | some k =>
    constructor
    · rintro ⟨-, hf⟩
      obtain ⟨⟨hlt, hle, hb⟩, hl⟩ := hf (k + 1) rfl
      refine (last_eq_some_iff.mpr ⟨Nat.le_of_lt_succ hlt, hle, hb, fun j hj hj' => ?_⟩).symm
      exact Bool.eq_false_iff.mpr fun hb' => hl (j + 1) (by omega) ⟨by omega, hj', hb'⟩
    · intro h
      obtain ⟨hle, hlt, hb, hl⟩ := last_eq_some_iff.mp h.symm
      refine ⟨iff_of_false (Option.some_ne_none k) (h ▸ Option.some_ne_none k), fun p hp => ?_⟩
      obtain rfl : k + 1 = p := Option.some.inj hp
      refine ⟨⟨Nat.lt_succ_of_le hle, hlt, hb⟩, ?_⟩
      rintro p' hp' ⟨-, hle', hb'⟩
      rw [hl (p' - 1) (by omega) (by omega)] at hb'
      cases hb'

/-- The answer is right unless the breaks of the range are all apostrophes after words, and the line breaks before the range. -/
theorem breaksInRange_iff (sets : CharacterSets) (str : List UInt16) (location : Nat) (aRange : NSRange)
    (hrange : aRange.max ≤ str.length) (hle : aRange.location ≤ location) (hlt : location < aRange.max) :
    BreaksInRange sets str location aRange ↔
      (∃ j, aRange.location ≤ j ∧ j < location ∧ breaksLine sets str j = true) ∨
        (∀ j, aRange.location ≤ j → j < location → memberAt sets.wordBreakCSet str j = false) ∨
        ∀ j, j < aRange.location → breaksLine sets str j = false := by
  have hi : BreaksInRange sets str location aRange ↔
      (if last (memberAt sets.wordBreakCSet str) aRange.location location = none then none
        else last (breaksLine sets str) 0 location) = last (breaksLine sets str) aRange.location location := by
    unfold BreaksInRange
    rw [lineBreakBeforeIndex_eq hrange hle hlt, ← breaks_iff]
    constructor
    · rintro ⟨r, hr, h⟩
      obtain rfl := Except.ok.inj hr
      exact h
    · exact fun h => ⟨_, rfl, h⟩
  rw [hi]
  by_cases hn : last (memberAt sets.wordBreakCSet str) aRange.location location = none
  · have hf := last_eq_none_iff.mp hn
    rw [if_pos hn]
    refine iff_of_true (last_eq_none_iff.mpr fun j hj hj' => ?_).symm (.inr (.inl hf))
    unfold breaksLine
    rw [hf j hj hj']
    rfl
  rw [if_neg hn]
  cases hl : last (breaksLine sets str) aRange.location location with
  | some k =>
    obtain ⟨hk, hk', hb, hbhd⟩ := last_eq_some_iff.mp hl
    exact iff_of_true (last_eq_some_iff.mpr ⟨Nat.zero_le k, hk', hb, hbhd⟩) (.inl ⟨k, hk, hk', hb⟩)
  | none =>
    have hw := last_eq_none_iff.mp hl
    rw [last_eq_none_iff]
    constructor
    · exact fun h => .inr (.inr fun j hj => h j (Nat.zero_le j) (hj.trans_le hle))
    · rintro (⟨j, hj, hj', hb⟩ | hf | hbef) j' - hlt'
      · rw [hw j hj hj'] at hb
        cases hb
      · exact absurd (last_eq_none_iff.mpr hf) hn
      · rcases Nat.lt_or_ge j' aRange.location with hlt'' | hge
        · exact hbef j' hlt''
        · exact hw j' hge hlt'

/-- Sets with a blank and an apostrophe. -/
def blankAndQuote : CharacterSets where
  whitespace := (· == 32)
  whitespaceAndNewline := (· == 32)
  punctuation := (· == 39)
  control _ := false
  illegal _ := false

theorem breaksInRange_blank : BreaksInRange blankAndQuote [98, 32, 99] 2 ⟨0, 3⟩ :=
  (breaksInRange_iff _ _ 2 ⟨0, 3⟩ (by decide) (by decide) (by decide)).mpr
    (.inl ⟨1, by decide, by decide, by decide⟩)

/-- In `a b'c` the range from `b` has no break before `c`, but the blank in front of the range is found. -/
theorem not_breaksInRange_word : ¬ BreaksInRange blankAndQuote [97, 32, 98, 39, 99] 4 ⟨2, 3⟩ := by
  rintro ⟨r, hr, -, hf⟩
  have heq : lineBreakBeforeIndex blankAndQuote [97, 32, 98, 39, 99] 4 ⟨2, 3⟩ = .ok (some 2) := by decide
  rw [heq] at hr
  obtain ⟨⟨hlt, -⟩, -⟩ := hf 2 (Except.ok.inj hr).symm
  exact absurd hlt (lt_irrefl 2)

/-! ## Words -/

/-- What is documented of the sets. -/
structure CharacterSets.Documented (sets : CharacterSets) : Prop where
  withNewline : ∀ c, sets.whitespace c = true → sets.whitespaceAndNewline c = true
  underscore : sets.whitespace 95 = false
  apostrophe : sets.whitespace 39 = false

def Blank (sets : CharacterSets) (str : List UInt16) (i : Nat) : Prop := memberAt sets.whiteCSet str i = true

/-- A word character, or an apostrophe between two of them. -/
def OfWord (sets : CharacterSets) (str : List UInt16) (i : Nat) : Prop :=
  memberAt sets.wordCSet str i = true ∨ quoteWithinWord sets str i = true

/-- The blanks around a blank, the word around a part of one, and another character alone. -/
def Selects (sets : CharacterSets) (str : List UInt16) (location : Nat) (r : NSRange) : Prop :=
  (Blank sets str location ∧ MaximalRun (Blank sets str) str.length r.location r.max location) ∨
    (¬ Blank sets str location ∧ OfWord sets str location ∧
      MaximalRun (OfWord sets str) str.length r.location r.max location) ∨
    (¬ Blank sets str location ∧ ¬ OfWord sets str location ∧ r = ⟨location, 1⟩)

theorem memberAt_eq {set : UInt16 → Bool} {c : UInt16} {i : Nat} (h : str[i]? = some c) : memberAt set str i = set c := by
  unfold memberAt
  rw [h]
  rfl

theorem quoteWithinWord_iff {i : Nat} : quoteWithinWord sets str i = true ↔
    0 < i ∧ i < str.length - 1 ∧ str[i]? = some 39 ∧ memberAt sets.wordCSet str (i - 1) = true ∧
      memberAt sets.wordCSet str (i + 1) = true := by
  have hc : memberAt (· == 39) str i = true ↔ str[i]? = some 39 := by
    unfold memberAt
    cases str[i]? with
    | none => simp
    | some c => simp
  unfold quoteWithinWord
  rw [Bool.and_eq_true_iff, Bool.and_eq_true_iff, Bool.and_eq_true_iff, Bool.and_eq_true_iff, decide_eq_true_iff,
    decide_eq_true_iff, hc, and_assoc, and_assoc, and_assoc]

theorem not_word_of_blank (hs : sets.Documented) {i : Nat} (h : Blank sets str i) : memberAt sets.wordCSet str i = false := by
  unfold Blank memberAt at h
  unfold memberAt
  cases hc : str[i]? with
  | none => rfl
  | some c =>
    rw [hc] at h
    have hne : c ≠ 95 := fun heq => by
      rw [heq] at h
      exact Bool.false_ne_true (hs.underscore.symm.trans h)
    change (!(c != 95 && _)) = false
    rw [hs.withNewline c h, bne_iff_ne.mpr hne]
    rfl

theorem not_blank_of_word (hs : sets.Documented) {i : Nat} (h : OfWord sets str i) : ¬ Blank sets str i := by
  intro hb
  rcases h with h | h
  · rw [not_word_of_blank hs hb] at h
    cases h
  · unfold Blank at hb
    rw [memberAt_eq (quoteWithinWord_iff.mp h).2.2.1] at hb
    exact Bool.false_ne_true (hs.apostrophe.symm.trans hb)

/-- In a run of blanks there are no apostrophes to skip. -/
theorem scanBothWays_blank (hss : sets.Documented) (hlt : location < str.length) (h : Blank sets str location) :
    MaximalRun (Blank sets str) str.length (scanBothWays sets str sets.nonWhiteCSet location).location
      (scanBothWays sets str sets.nonWhiteCSet location).max location := by
  have hp : ∀ j, j < str.length → (Blank sets str j ↔ memberAt sets.nonWhiteCSet str j = false) := by
    intro j hj
    unfold Blank memberAt
    rw [List.getElem?_eq_getElem hj]
    exact (Bool.not_eq_false' _).to_iff.symm
  have hr := MaximalRun.of_searches hp hlt h
  have hbc : skipBack (memberAt sets.wordBreakCSet str) (quoteWithinWord sets str) str.length location
      (last (memberAt sets.nonWhiteCSet str) 0 location) =
        (location, last (memberAt sets.nonWhiteCSet str) 0 location) := by
    refine skipBack_of_not fun k hk => Bool.eq_false_iff.mpr fun hq => ?_
    obtain ⟨-, hk', -, hnn⟩ := last_eq_some_iff.mp hk
    have hn := (quoteWithinWord_iff.mp hq).2.2.2.2
    have hb : Blank sets str (k + 1) := hr.all _ (by rw [hk]; exact le_rfl) (by
      have := hr.lt_stop
      omega)
    rw [not_word_of_blank hss hb] at hn
    cases hn
  have hon : skipOn (memberAt sets.wordBreakCSet str) (quoteWithinWord sets str) str.length str.length
      (first (memberAt sets.nonWhiteCSet str) location str.length) =
        first (memberAt sets.nonWhiteCSet str) location str.length := by
    refine skipOn_of_not fun k hk => Bool.eq_false_iff.mpr fun hq => ?_
    have hs := hr.lt_stop
    have hst := hr.start_le
    rw [hk] at hs
    have hpr := (quoteWithinWord_iff.mp hq).2.2.2.1
    have hb : Blank sets str (k - 1) := hr.all _ (hst.trans (Nat.le_sub_one_of_lt hs)) (by
      rw [hk]
      exact Nat.sub_one_lt_of_lt hs)
    rw [not_word_of_blank hss hb] at hpr
    cases hpr
  have hle := (hr.start_le.trans_lt hr.lt_stop).le
  unfold scanBothWays
  dsimp only
  rw [hbc, hon, NSRange.max_mk, Nat.add_sub_cancel' hle]
  exact hr

theorem scanBothWays_word (hlt : location < str.length) (h : OfWord sets str location) :
    MaximalRun (OfWord sets str) str.length (scanBothWays sets str sets.wordBreakCSet location).location
      (scanBothWays sets str sets.wordBreakCSet location).max location := by
  have hw : ∀ k, quoteWithinWord sets str k = true → memberAt sets.wordBreakCSet str (k - 1) = false :=
    fun k hk => memberAt_word _ (quoteWithinWord_iff.mp hk).2.2.2.1
  have hp : ∀ j, j < str.length → (OfWord sets str j ↔
      (memberAt sets.wordBreakCSet str j && !quoteWithinWord sets str j) = false) := by
    intro j hj
    unfold OfWord memberAt
    rw [List.getElem?_eq_getElem hj, Bool.and_eq_false_iff, Bool.not_eq_eq_eq_not, Bool.not_false]
    exact or_congr_left (Bool.not_eq_true' _).to_iff
  have hr := MaximalRun.of_searches hp hlt h
  obtain ⟨hm, hb⟩ := skipBack_moved hw str.length location
  have hle := (hr.start_le.trans_lt hr.lt_stop).le
  unfold scanBothWays
  dsimp only
  rw [skipBack_found hw hlt.le, skipOn_eq (Nat.le_add_right _ _), first_shorten hm hb, NSRange.max_mk,
    Nat.add_sub_cancel' hle]
  exact hr

theorem doubleClickAtIndex_spec (hs : sets.Documented) (hlt : location < str.length) :
    ∃ r, doubleClickAtIndex sets str location = .ok r ∧ Selects sets str location r := by
  have hc := List.getElem?_eq_getElem hlt
  by_cases hb : Blank sets str location
  · refine ⟨_, ?_, .inl ⟨hb, scanBothWays_blank hs hlt hb⟩⟩
    unfold doubleClickAtIndex
    rw [hc]
    exact if_pos ((memberAt_eq hc).symm.trans hb)
  have hwh : ¬ sets.whiteCSet str[location] = true := fun h => hb ((memberAt_eq hc).trans h)
  by_cases hw : OfWord sets str location
  · refine ⟨_, ?_, .inr (.inl ⟨hb, hw, scanBothWays_word hlt hw⟩)⟩
    unfold doubleClickAtIndex
    rw [hc]
    dsimp only
    rw [if_neg hwh]
    split
    · next hbr =>
      rcases hw with hw | hq
      · have := memberAt_word location hw
        rw [memberAt_eq hc, hbr] at this
        cases this
      · obtain ⟨hp, hl, hq, hpr, hnx⟩ := quoteWithinWord_iff.mp hq
        refine if_neg ?_
        rintro (h | h | h | h | h)
        · omega
        · omega
        · exact h (Option.some.inj (hc.symm.trans hq))
        · exact h hpr
        · exact h hnx
    · rfl
  · refine ⟨_, ?_, .inr (.inr ⟨hb, hw, rfl⟩)⟩
    obtain ⟨hn, hq⟩ := not_or.mp hw
    have hbr : sets.wordBreakCSet str[location] = true := by
      rw [memberAt_eq hc] at hn
      exact by_contra fun h => hn (by rw [CharacterSets.wordCSet, Bool.eq_false_iff.mpr h]; rfl)
    unfold doubleClickAtIndex
    rw [hc]
    dsimp only
    rw [if_neg hwh, if_pos hbr]
    refine if_pos (by_contra fun h => hq (quoteWithinWord_iff.mpr ?_))
    obtain ⟨hp, hl, hc39, hpr, hnx⟩ : location ≠ 0 ∧ location ≠ str.length - 1 ∧ str[location] = 39 ∧ _ ∧ _ := by
      simpa only [not_or, not_not] using h
    exact ⟨Nat.pos_of_ne_zero hp, by omega, hc.trans (congrArg some hc39), hpr, hnx⟩

/-- A double click selects blanks, a word or one character, and the same from anywhere in what it selects. -/
theorem doubleClickAtIndex_selects (sets : CharacterSets) (hsets : sets.Documented) (str : List UInt16) (location : Nat)
    (hlt : location < str.length) :
    ∃ r, doubleClickAtIndex sets str location = .ok r ∧ Selects sets str location r ∧
      ∀ j, r.location ≤ j → j < r.max → doubleClickAtIndex sets str j = .ok r := by
  obtain ⟨r, hr, hs⟩ := doubleClickAtIndex_spec hsets hlt
  have hsm {p : Nat → Prop} {r' : NSRange} {j : Nat} (h : MaximalRun p str.length r.location r.max j)
      (h' : MaximalRun p str.length r'.location r'.max j) : r' = r := by
    obtain ⟨hst, hsp⟩ := h.unique h'
    obtain ⟨start, length⟩ := r
    obtain ⟨start', length'⟩ := r'
    obtain rfl : start = start' := hst
    obtain rfl : length = length' := Nat.add_left_cancel hsp
    rfl
  refine ⟨r, hr, hs, fun j hj hj' => ?_⟩
  rcases hs with ⟨-, hrun⟩ | ⟨-, -, hrun⟩ | ⟨-, -, rfl⟩
  · have hb := hrun.all j hj hj'
    obtain ⟨r', hr', ⟨-, hrun'⟩ | ⟨hn, -⟩ | ⟨hn, -⟩⟩ := doubleClickAtIndex_spec hsets (hj'.trans_le hrun.stop_le)
    · rw [hr', hsm (hrun.at_index hj hj') hrun']
    · exact absurd hb hn
    · exact absurd hb hn
  · have hw := hrun.all j hj hj'
    obtain ⟨r', hr', ⟨hb, -⟩ | ⟨-, -, hrun'⟩ | ⟨-, hn, -⟩⟩ :=
      doubleClickAtIndex_spec hsets (hj'.trans_le hrun.stop_le)
    · exact absurd hb (not_blank_of_word hsets hw)
    · rw [hr', hsm (hrun.at_index hj hj') hrun']
    · exact absurd hw hn
  · obtain rfl : j = location := le_antisymm (Nat.le_of_lt_succ hj') hj
    exact hr

theorem doubleClickAtIndex_quote : ∃ r, doubleClickAtIndex blankAndQuote [97, 39, 98] 1 = .ok r ∧
    Selects blankAndQuote [97, 39, 98] 1 r ∧
      ∀ j, r.location ≤ j → j < r.max → doubleClickAtIndex blankAndQuote [97, 39, 98] j = .ok r :=
  doubleClickAtIndex_selects blankAndQuote ⟨fun _ h => h, by decide, by decide⟩ _ 1 (by decide)

end GnustepGui.AttributedString
