import Mathlib.Data.Nat.Basic
import Mathlib.Order.Basic

/-!
# Searches for an index

The first and the last index of a range at which a predicate holds; the loops that search again behind an index that does
not count; and the longest run of indexes around one at which a predicate holds.
-/

namespace Searches

/-- The last index of a range at which the predicate holds. -/
def last (p : Nat → Bool) (start : Nat) : Nat → Option Nat
  | 0 => none
  | stop + 1 => if start ≤ stop ∧ p stop = true then some stop else last p start stop

/-- The first index of a range at which the predicate holds. -/
def first (p : Nat → Bool) (start stop : Nat) : Option Nat := (List.range' start (stop - start)).find? p

/-- Search back again, as long as what is found is to be skipped; with it the end of the last search. -/
def skipBack (b q : Nat → Bool) : Nat → Nat → Option Nat → Nat × Option Nat
  | fuel + 1, location, some k =>
    if q k then skipBack b q fuel (k - 1) (last b 0 (k - 1)) else (location, some k)
  | _, location, found => (location, found)

/-- Search on, as long as what is found is to be skipped. -/
def skipOn (b q : Nat → Bool) (stop : Nat) : Nat → Option Nat → Option Nat
  | fuel + 1, some k => if q k then skipOn b q stop fuel (first b (k + 1) stop) else some k
  | _, found => found

variable {p b q : Nat → Bool} {start stop k : Nat}

/-! ## The searches -/

theorem last_eq_some_iff : last p start stop = some k ↔
    start ≤ k ∧ k < stop ∧ p k = true ∧ ∀ j, k < j → j < stop → p j = false := by
  induction stop with
  | zero => simp [last]
  | succ stop ih =>
    unfold last
    split
    · next h =>
      constructor
      · rintro h'
        obtain rfl := Option.some.inj h'
        exact ⟨h.1, Nat.lt_succ_self _, h.2, fun j hlt hle => by omega⟩
      · rintro ⟨-, hlt, -, hn⟩
        rcases Nat.lt_succ_iff_lt_or_eq.mp hlt with hlt | rfl
        · rw [hn stop hlt (Nat.lt_succ_self _)] at h
          exact absurd h.2 Bool.false_ne_true
        · rfl
    · next h =>
      rw [ih]
      constructor
      · rintro ⟨hle, hlt, hk, hn⟩
        refine ⟨hle, hlt.trans (Nat.lt_succ_self _), hk, fun j hj hj' => ?_⟩
        rcases Nat.lt_succ_iff_lt_or_eq.mp hj' with hj' | rfl
        · exact hn j hj hj'
        · exact Bool.eq_false_iff.mpr fun hp => h ⟨by omega, hp⟩
      · rintro ⟨hle, hlt, hk, hn⟩
        have hne : k ≠ stop := fun heq => h ⟨heq ▸ hle, heq ▸ hk⟩
        exact ⟨hle, by omega, hk, fun j hj hj' => hn j hj (by omega)⟩

theorem last_eq_none_iff : last p start stop = none ↔ ∀ j, start ≤ j → j < stop → p j = false := by
  constructor
  · intro h j
    induction stop with
    | zero => exact fun _ hlt => absurd hlt (Nat.not_lt_zero j)
    | succ stop ih =>
      unfold last at h
      split at h
      · cases h
      · next hp =>
        intro hle hlt
        rcases Nat.lt_succ_iff_lt_or_eq.mp hlt with hlt | rfl
        · exact ih h hle hlt
        · exact Bool.eq_false_iff.mpr fun h' => hp ⟨hle, h'⟩
  · intro h
    cases hl : last p start stop with
    | none => rfl
    | some k =>
      obtain ⟨hle, hlt, hk, -⟩ := last_eq_some_iff.mp hl
      rw [h k hle hlt] at hk
      cases hk

/-- What comes after the last index does not matter. -/
theorem last_shorten {stop' : Nat} (hle : stop' ≤ stop) (h : ∀ j, stop' ≤ j → j < stop → p j = false) :
    last p start stop = last p start stop' := by
  induction stop, hle using Nat.le_induction with
  | base => rfl
  | succ stop hle ih =>
    rw [last, if_neg fun hp => by rw [h stop hle (Nat.lt_succ_self _)] at hp; exact Bool.false_ne_true hp.2]
    exact ih fun j hj hj' => h j hj (hj'.trans (Nat.lt_succ_self _))

theorem first_eq_some_iff : first p start stop = some k ↔
    start ≤ k ∧ k < stop ∧ p k = true ∧ ∀ j, start ≤ j → j < k → p j = false := by
  unfold first
  rw [List.find?_range'_eq_some, List.mem_range'_1]
  simp only [Bool.not_eq_eq_eq_not, Bool.not_true]
  constructor
  · rintro ⟨hk, ⟨hle, hlt⟩, hn⟩
    exact ⟨hle, by omega, hk, hn⟩
  · rintro ⟨hle, hlt, hk, hn⟩
    exact ⟨hk, ⟨hle, by omega⟩, hn⟩

theorem first_eq_none_iff : first p start stop = none ↔ ∀ j, start ≤ j → j < stop → p j = false := by
  unfold first
  rw [List.find?_eq_none]
  constructor
  · intro h j hle hlt
    exact Bool.eq_false_iff.mpr (h j (List.mem_range'_1.mpr ⟨hle, by omega⟩))
  · intro h j hj
    have := List.mem_range'_1.mp hj
    rw [h j this.1 (by omega)]
    exact Bool.false_ne_true

theorem first_shorten {start' : Nat} (hle : start ≤ start') (h : ∀ j, start ≤ j → j < start' → p j = false) :
    first p start stop = first p start' stop := by
  cases hf : first p start' stop with
  | none =>
    refine first_eq_none_iff.mpr fun j hj hj' => ?_
    rcases Nat.lt_or_ge j start' with hlt | hge
    · exact h j hj hlt
    · exact first_eq_none_iff.mp hf j hge hj'
  | some k =>
    obtain ⟨hle', hlt, hk, hn⟩ := first_eq_some_iff.mp hf
    refine first_eq_some_iff.mpr ⟨hle.trans hle', hlt, hk, fun j hj hj' => ?_⟩
    rcases Nat.lt_or_ge j start' with hlt' | hge
    · exact h j hj hlt'
    · exact hn j hge hj'

/-! ## The loops -/

theorem skipped_behind (hq : ∀ k, q k = true → b (k - 1) = false) (hk : q k = true)
    (hn : ∀ j, k < j → j < stop → b j = false) {j : Nat} (hle : k - 1 ≤ j) (hlt : j < stop) :
    (b j && !q j) = false := by
  rcases Nat.lt_trichotomy j k with hj | rfl | hj
  · obtain rfl : j = k - 1 := by omega
    rw [hq k hk]
    rfl
  · rw [hk]
    exact Bool.and_false _
  · rw [hn j hj hlt]
    rfl

theorem skipBack_found (hq : ∀ k, q k = true → b (k - 1) = false) {fuel location : Nat} (hf : stop ≤ fuel) :
    (skipBack b q fuel location (last b 0 stop)).2 = last (fun k => b k && !q k) 0 stop := by
  induction fuel generalizing stop location with
  | zero =>
    obtain rfl := Nat.le_zero.mp hf
    rfl
  | succ fuel ih =>
    cases hl : last b 0 stop with
    | none =>
      refine (last_eq_none_iff.mpr fun j hj hj' => ?_).symm
      rw [last_eq_none_iff.mp hl j hj hj']
      rfl
    | some k =>
      obtain ⟨-, hlt, hk, hn⟩ := last_eq_some_iff.mp hl
      unfold skipBack
      by_cases hs : q k = true
      · rw [if_pos hs, ih (by omega)]
        exact (last_shorten (by omega) fun j hj hj' => skipped_behind hq hs hn hj hj').symm
      · rw [if_neg hs]
        refine (last_eq_some_iff.mpr ⟨Nat.zero_le _, hlt, ?_, fun j hj hj' => ?_⟩).symm
        · rw [hk, Bool.eq_false_iff.mpr hs]
          rfl
        · rw [hn j hj hj']
          rfl

theorem skipBack_moved (hq : ∀ k, q k = true → b (k - 1) = false) (fuel location : Nat) :
    (skipBack b q fuel location (last b 0 location)).1 ≤ location ∧
      ∀ j, (skipBack b q fuel location (last b 0 location)).1 ≤ j → j < location → (b j && !q j) = false := by
  induction fuel generalizing location with
  | zero => exact ⟨le_rfl, fun j hj hj' => absurd hj' (Nat.not_lt.mpr hj)⟩
  | succ fuel ih =>
    cases hl : last b 0 location with
    | none => exact ⟨le_rfl, fun j hj hj' => absurd hj' (Nat.not_lt.mpr hj)⟩
    | some k =>
      obtain ⟨-, hlt, -, hn⟩ := last_eq_some_iff.mp hl
      unfold skipBack
      by_cases hs : q k = true
      · rw [if_pos hs]
        obtain ⟨hle, hb⟩ := ih (k - 1)
        refine ⟨hle.trans (by omega), fun j hj hj' => ?_⟩
        rcases Nat.lt_or_ge j (k - 1) with hj'' | hge
        · exact hb j hj hj''
        · exact skipped_behind hq hs hn hge hj'
      · rw [if_neg hs]
        exact ⟨le_rfl, fun j hj hj' => absurd hj' (Nat.not_lt.mpr hj)⟩

theorem skipBack_of_not {fuel location : Nat} {found : Option Nat} (h : ∀ k, found = some k → q k = false) :
    skipBack b q fuel location found = (location, found) := by
  cases fuel with
  | zero => rfl
  | succ fuel =>
    cases found with
    | none => rfl
    | some k => exact if_neg (Bool.eq_false_iff.mp (h k rfl))

theorem skipOn_of_not {fuel : Nat} {found : Option Nat} (h : ∀ k, found = some k → q k = false) :
    skipOn b q stop fuel found = found := by
  cases fuel with
  | zero => rfl
  | succ fuel =>
    cases found with
    | none => rfl
    | some k => exact if_neg (Bool.eq_false_iff.mp (h k rfl))

theorem skipOn_eq {fuel : Nat} (hfl : stop ≤ fuel + start) :
    skipOn b q stop fuel (first b start stop) = first (fun k => b k && !q k) start stop := by
  have hn (hnn : ∀ j, start ≤ j → j < stop → b j = false) :
      first (fun k => b k && !q k) start stop = none := first_eq_none_iff.mpr fun j hj hj' => by
    rw [hnn j hj hj']
    rfl
  induction fuel generalizing start with
  | zero =>
    have he : ∀ j, start ≤ j → j < stop → b j = false := fun j hj hj' => by omega
    rw [hn he, first_eq_none_iff.mpr he]
    rfl
  | succ fuel ih =>
    cases hf : first b start stop with
    | none =>
      rw [hn (first_eq_none_iff.mp hf)]
      rfl
    | some k =>
      obtain ⟨hle, hlt, hk, hnn⟩ := first_eq_some_iff.mp hf
      unfold skipOn
      by_cases hs : q k = true
      · rw [if_pos hs, ih (by omega) fun h => first_eq_none_iff.mpr fun j hj hj' => by rw [h j hj hj']; rfl]
        refine (first_shorten (by omega) fun j hj hj' => ?_).symm
        rcases Nat.lt_succ_iff_lt_or_eq.mp hj' with hj' | rfl
        · rw [hnn j hj hj']
          rfl
        · rw [hs]
          exact Bool.and_false _
      · rw [if_neg hs]
        refine (first_eq_some_iff.mpr ⟨hle, hlt, ?_, fun j hj hj' => ?_⟩).symm
        · rw [hk, Bool.eq_false_iff.mpr hs]
          rfl
        · rw [hnn j hj hj']
          rfl

/-! ## Runs -/

/-- The indexes from `start` to `stop` are the longest run around `i` at which the predicate holds. -/
structure MaximalRun (p : Nat → Prop) (length start stop i : Nat) : Prop where
  start_le : start ≤ i
  lt_stop : i < stop
  stop_le : stop ≤ length
  all : ∀ j, start ≤ j → j < stop → p j
  before : ∀ j, j + 1 = start → ¬ p j
  behind : stop < length → ¬ p stop

namespace MaximalRun

variable {p : Nat → Prop} {length i j start' stop' : Nat}

theorem at_index (h : MaximalRun p length start stop i) (hle : start ≤ j) (hlt : j < stop) :
    MaximalRun p length start stop j := ⟨hle, hlt, h.stop_le, h.all, h.before, h.behind⟩

theorem unique (h : MaximalRun p length start stop i) (h' : MaximalRun p length start' stop' i) :
    start = start' ∧ stop = stop' := by
  have hs {start stop start' stop' : Nat} (h : MaximalRun p length start stop i)
      (h' : MaximalRun p length start' stop' i) : start ≤ start' := by
    by_contra hlt
    have := h.start_le
    have := h'.lt_stop
    exact h.before (start - 1) (by omega) (h'.all _ (by omega) (by omega))
  have hsp {start stop start' stop' : Nat} (h : MaximalRun p length start stop i)
      (h' : MaximalRun p length start' stop' i) : stop' ≤ stop := by
    by_contra hlt
    have := h.lt_stop
    have := h'.start_le
    have := h'.stop_le
    exact h.behind (by omega) (h'.all _ (by omega) (by omega))
  exact ⟨le_antisymm (hs h h') (hs h' h), le_antisymm (hsp h' h) (hsp h h')⟩

/-- The run is between the two nearest indexes at which the predicate does not hold. -/
theorem of_searches {t : Nat → Bool} (hp : ∀ j, j < length → (p j ↔ t j = false)) (hi : i < length)
    (hpi : p i) : MaximalRun p length ((last t 0 i).elim 0 (· + 1)) ((first t i length).getD length) i := by
  have ht : t i = false := (hp i hi).mp hpi
  have hb : (last t 0 i).elim 0 (· + 1) ≤ i ∧ (∀ j, (last t 0 i).elim 0 (· + 1) ≤ j → j < i → t j = false) ∧
      ∀ j, j + 1 = (last t 0 i).elim 0 (· + 1) → t j = true := by
    cases hl : last t 0 i with
    | none => exact ⟨Nat.zero_le _, fun j _ => last_eq_none_iff.mp hl j (Nat.zero_le _), fun j hj => by cases hj⟩
    | some k =>
      obtain ⟨-, hlt, hk, hn⟩ := last_eq_some_iff.mp hl
      exact ⟨hlt, fun j hj => hn j hj, fun j hj => Nat.succ.inj hj ▸ hk⟩
  have hon : i < (first t i length).getD length ∧ (first t i length).getD length ≤ length ∧
      (∀ j, i ≤ j → j < (first t i length).getD length → t j = false) ∧
      ((first t i length).getD length < length → t ((first t i length).getD length) = true) := by
    cases hf : first t i length with
    | none => exact ⟨hi, le_rfl, first_eq_none_iff.mp hf, fun h => absurd h (lt_irrefl _)⟩
    | some k =>
      obtain ⟨hle, hlt, hk, hn⟩ := first_eq_some_iff.mp hf
      have hne : i ≠ k := fun heq => by
        rw [← heq, ht] at hk
        cases hk
      exact ⟨lt_of_le_of_ne hle hne, hlt.le, hn, fun _ => hk⟩
  refine ⟨hb.1, hon.1, hon.2.1, fun j hj hj' => (hp j (hj'.trans_le hon.2.1)).mpr ?_, fun j hj hpj => ?_, fun h hpj => ?_⟩
  · rcases Nat.lt_or_ge j i with hlt | hge
    · exact hb.2.1 j hj hlt
    · exact hon.2.2.1 j hge hj'
  · have hle := hb.1
    exact Bool.false_ne_true (((hp j (by omega)).mp hpj).symm.trans (hb.2.2 j hj))
  · exact Bool.false_ne_true (((hp _ h).mp hpj).symm.trans (hon.2.2.2 h))

end MaximalRun

end Searches
