import Mathlib.Data.Finset.Max

/-!
# Sets of indexes

A finite set of positions and the two shifts of its elements: to the right, which leaves a gap, and
to the left, which takes the indexes of the gap out (`mem_shiftRight`, `mem_shiftLeft`).
-/

namespace IndexSets

variable {s : Finset Nat} {start n i : Nat}

/-- The indexes from `start` on move up by `n`. -/
def shiftRight (s : Finset Nat) (start n : Nat) : Finset Nat :=
  s.image fun i => if start ≤ i then i + n else i

/-- The indexes from `start` on move down by `n`; the `n` indexes before `start` are taken out. -/
def shiftLeft (s : Finset Nat) (start n : Nat) : Finset Nat :=
  (s.filter fun i => i + n < start ∨ start ≤ i).image fun i => if start ≤ i then i - n else i

def indexLessThan (s : Finset Nat) (i : Nat) : Option Nat := (s.filter (· < i)).max

def indexGreaterThan (s : Finset Nat) (i : Nat) : Option Nat := (s.filter (i < ·)).min

def indexGreaterThanOrEqual (s : Finset Nat) (i : Nat) : Option Nat := (s.filter (i ≤ ·)).min

theorem mem_shiftRight : i ∈ shiftRight s start n ↔ (i < start ∧ i ∈ s) ∨ (start + n ≤ i ∧ i - n ∈ s) := by
  simp only [shiftRight, Finset.mem_image]
  constructor
  · rintro ⟨j, hj, rfl⟩
    split
    · refine .inr ⟨by omega, ?_⟩
      rw [Nat.add_sub_cancel]
      exact hj
    · exact .inl ⟨by omega, hj⟩
  · rintro (⟨hlt, hi⟩ | ⟨hle, hi⟩)
    · exact ⟨i, hi, if_neg (by omega)⟩
    · refine ⟨i - n, hi, ?_⟩
      rw [if_pos (by omega)]
      omega

theorem mem_shiftLeft (hn : n ≤ start) :
    i ∈ shiftLeft s start n ↔ (i + n < start ∧ i ∈ s) ∨ (start ≤ i + n ∧ i + n ∈ s) := by
  simp only [shiftLeft, Finset.mem_image, Finset.mem_filter]
  constructor
  · rintro ⟨j, ⟨hj, hk⟩, rfl⟩
    split
    · refine .inr ⟨by omega, ?_⟩
      rw [Nat.sub_add_cancel (by omega)]
      exact hj
    · exact .inl ⟨by omega, hj⟩
  · rintro (⟨hlt, hi⟩ | ⟨hle, hi⟩)
    · exact ⟨i, ⟨hi, .inl hlt⟩, if_neg (by omega)⟩
    · refine ⟨i + n, ⟨hi, .inr hle⟩, ?_⟩
      rw [if_pos hle]
      omega

/-- A shift at a start that lies in the gap of a second one makes that gap wider. -/
theorem shiftLeft_shiftLeft {a b m : Nat} (hb : b ≤ a) (ha : a ≤ b + m) :
    shiftLeft (shiftLeft s (a + n) n) (b + m) m = shiftLeft s (b + (m + n)) (m + n) := by
  ext i
  rw [mem_shiftLeft (by omega), mem_shiftLeft (by omega), mem_shiftLeft (by omega), mem_shiftLeft (by omega)]
  constructor
  · rintro (⟨hlt, ⟨-, hi⟩ | ⟨hle, -⟩⟩ | ⟨hle, ⟨hlt, -⟩ | ⟨-, hi⟩⟩)
    · exact .inl ⟨by omega, hi⟩
    · omega
    · omega
    · exact .inr ⟨by omega, by rwa [← Nat.add_assoc]⟩
  · rintro (⟨hlt, hi⟩ | ⟨hle, hi⟩)
    · exact .inl ⟨by omega, .inl ⟨by omega, hi⟩⟩
    · exact .inr ⟨by omega, .inr ⟨by omega, by rwa [Nat.add_assoc]⟩⟩

theorem shiftLeft_zero : shiftLeft s start 0 = s := by
  ext i
  rw [mem_shiftLeft (Nat.zero_le start), Nat.add_zero]
  constructor
  · rintro (⟨-, hi⟩ | ⟨-, hi⟩) <;> exact hi
  · intro hi
    exact (Nat.lt_or_ge i start).imp (⟨·, hi⟩) (⟨·, hi⟩)

theorem indexLessThan_mem {j : Nat} (h : indexLessThan s i = some j) : j ∈ s := by
  exact (Finset.mem_filter.1 (Finset.mem_of_max h)).1

theorem indexGreaterThan_mem {j : Nat} (h : indexGreaterThan s i = some j) : j ∈ s := by
  exact (Finset.mem_filter.1 (Finset.mem_of_min h)).1

theorem eq_empty_of_no_neighbour (hi : i ∉ s) (hl : indexLessThan s i = none)
    (hg : indexGreaterThan s i = none) : s = ∅ := by
  have hb : s.filter (· < i) = ∅ := Finset.max_eq_bot.1 hl
  have ha : s.filter (i < ·) = ∅ := Finset.min_eq_top.1 hg
  refine Finset.eq_empty_of_forall_notMem fun j hj => ?_
  rcases Nat.lt_trichotomy j i with hlt | rfl | hgt
  · exact Finset.notMem_empty j (hb ▸ Finset.mem_filter.2 ⟨hj, hlt⟩)
  · exact hi hj
  · exact Finset.notMem_empty j (ha ▸ Finset.mem_filter.2 ⟨hj, hgt⟩)

end IndexSets
