import Mathlib.Algebra.Order.BigOperators.Group.List
import Mathlib.Algebra.Order.Floor.Ring
import Mathlib.Data.List.Sort
import Mathlib.Tactic.Ring

/-!
# Filling to a level

Vessels that each hold from `lower` up to `upper`, filled to a common level as far as they go. Between two
levels with no bound in between, those that reach across grow by the difference and the others not at all
(`level_eq_add`). `UnitsFit` is about filling up what is left of a given amount in whole units.
-/

namespace Filling

universe u v

variable {ι : Type u} {K : Type v} [Field K] [LinearOrder K] (lower upper : ι → K)

/-- What a vessel holds. -/
def level (L : K) (c : ι) : K := max (lower c) (min L (upper c))

/-- The vessel reaches from one level to the other. -/
abbrev Grows (a b : K) (c : ι) : Prop := lower c ≤ a ∧ upper c ≥ b

/-- No bound lies strictly between the levels. -/
def NoneBetween (a b : K) (l : List ι) : Prop :=
  ∀ c ∈ l, (lower c ≤ a ∨ b ≤ lower c) ∧ (upper c ≤ a ∨ b ≤ upper c)

/-- The whole units that the growing vessels can take above `a`. -/
def rooms [FloorRing K] (a b : K) (l : List ι) : ℤ :=
  ((l.filter fun c => Grows lower upper a b c).map fun c => ⌊upper c - a⌋).sum

/-- From level `a` up, with `free` left to fill. A gap that `free` does not fill is right in one of three ways: the
growing vessels can take all whole units of it; they can take none, and the gap is passed over; or no vessel grows
above the gap. -/
def UnitsFit [FloorRing K] (l : List ι) : (free a : K) → (levels : List K) → Prop
  | _, _, [] => True
  | free, a, b :: levels =>
    if (b - a) * (l.countP fun c => Grows lower upper a b c) ≤ free then
      UnitsFit l (free - (b - a) * (l.countP fun c => Grows lower upper a b c)) b levels
    else
      ⌊free⌋ ≤ rooms lower upper a b l ∨ rooms lower upper a b l = 0 ∧ UnitsFit l free b levels ∨
        ∀ c ∈ l, lower c = upper c ∨ upper c ≤ b

instance decidableUnitsFit [FloorRing K] (l : List ι) :
    (levels : List K) → (free a : K) → Decidable (UnitsFit lower upper l free a levels)
  | [], _, _ => isTrue trivial
  | b :: levels, free, a =>
    have := decidableUnitsFit l levels
    inferInstanceAs (Decidable (if (b - a) * (l.countP fun c => Grows lower upper a b c) ≤ free then
      UnitsFit lower upper l (free - (b - a) * (l.countP fun c => Grows lower upper a b c)) b levels
    else
      ⌊free⌋ ≤ rooms lower upper a b l ∨ rooms lower upper a b l = 0 ∧ UnitsFit lower upper l free b levels ∨
        ∀ c ∈ l, lower c = upper c ∨ upper c ≤ b))

/-- The bounds of all vessels. -/
def bounds (l : List ι) : List K := l.flatMap fun c => [lower c, upper c]

/-- From the least bound up. -/
def AllUnitsFit [FloorRing K] (l : List ι) (free : K) : Prop :=
  match (bounds lower upper l).insertionSort (· ≤ ·) with
  | [] => True
  | a :: levels => UnitsFit lower upper l free a levels

instance decidableAllUnitsFit [FloorRing K] (l : List ι) (free : K) : Decidable (AllUnitsFit lower upper l free) :=
  match h : (bounds lower upper l).insertionSort (· ≤ ·) with
  | [] => isTrue (by unfold AllUnitsFit; rw [h]; trivial)
  | a :: levels => decidable_of_iff (UnitsFit lower upper l free a levels) (by unfold AllUnitsFit; rw [h])

variable {lower upper} {a b : K} {c : ι} {l : List ι}

section

omit [Field K]

theorem lower_le_level (L : K) (c : ι) : lower c ≤ level lower upper L c := le_max_left _ _

theorem level_le_upper (hc : lower c ≤ upper c) (L : K) : level lower upper L c ≤ upper c :=
  max_le hc (min_le_right _ _)

theorem level_of_le_lower (hc : lower c ≤ upper c) (h : a ≤ lower c) : level lower upper a c = lower c := by
  unfold level
  rw [min_eq_left (h.trans hc), max_eq_left h]

theorem level_of_upper_le (hc : lower c ≤ upper c) (h : upper c ≤ a) : level lower upper a c = upper c := by
  unfold level
  rw [min_eq_right h, max_eq_right hc]

theorem level_of_between (hlo : lower c ≤ a) (hup : a ≤ upper c) : level lower upper a c = a := by
  unfold level
  rw [min_eq_left hup, max_eq_right hlo]

end

/-- A vessel from one level to the next. -/
theorem level_eq_add (hc : lower c ≤ upper c) (ha : a < b) (hlo : lower c ≤ a ∨ b ≤ lower c)
    (hup : upper c ≤ a ∨ b ≤ upper c) :
    level lower upper b c = if Grows lower upper a b c then level lower upper a c + (b - a) else level lower upper a c := by
  by_cases hg : Grows lower upper a b c
  · rw [if_pos hg, level_of_between (hg.1.trans ha.le) hg.2, level_of_between hg.1 (ha.le.trans hg.2), add_sub_cancel]
  rw [if_neg hg]
  rcases hlo with hlo | hlo
  · rcases hup with hup | hup
    · rw [level_of_upper_le hc (hup.trans ha.le), level_of_upper_le hc hup]
    · exact absurd ⟨hlo, hup⟩ hg
  · rw [level_of_le_lower hc hlo, level_of_le_lower hc (ha.le.trans hlo)]

theorem rooms_cons [FloorRing K] (a b : K) (c : ι) (l : List ι) :
    rooms lower upper a b (c :: l) =
      (if Grows lower upper a b c then ⌊upper c - a⌋ else 0) + rooms lower upper a b l := by
  unfold rooms
  by_cases hg : Grows lower upper a b c
  · rw [if_pos hg, List.filter_cons_of_pos (p := fun c => decide (Grows lower upper a b c)) (decide_eq_true hg),
      List.map_cons, List.sum_cons]
  · rw [if_neg hg, zero_add,
      List.filter_cons_of_neg (p := fun c => decide (Grows lower upper a b c)) (by rwa [decide_eq_true_eq])]

theorem unitsFit_map [FloorRing K] {κ : Type*} (f : ι → κ) (lower' upper' : κ → K) (l : List ι) (levels : List K)
    (free a : K) : UnitsFit lower' upper' (l.map f) free a levels ↔ UnitsFit (lower' ∘ f) (upper' ∘ f) l free a levels := by
  induction levels generalizing free a with
  | nil => exact Iff.rfl
  | cons b levels ih =>
    have hc : ((l.map f).countP fun c => Grows lower' upper' a b c) =
        l.countP fun c => Grows (lower' ∘ f) (upper' ∘ f) a b c := by
      rw [List.countP_map]
      rfl
    have hr : rooms lower' upper' a b (l.map f) = rooms (lower' ∘ f) (upper' ∘ f) a b l := by
      unfold rooms
      rw [List.filter_map, List.map_map]
      rfl
    unfold UnitsFit
    rw [hc, hr, ih, ih, List.forall_mem_map]
    rfl

theorem allUnitsFit_iff [FloorRing K] {levels : List K} (hp : (a :: levels).Perm (bounds lower upper l))
    (hs : (a :: levels).Pairwise (· ≤ ·)) (free : K) :
    AllUnitsFit lower upper l free ↔ UnitsFit lower upper l free a levels := by
  have hsr : (bounds lower upper l).insertionSort (· ≤ ·) = a :: levels :=
    ((List.perm_insertionSort _ _).trans hp.symm).eq_of_pairwise' (List.pairwise_insertionSort _ _) hs
  unfold AllUnitsFit
  rw [hsr]

theorem allUnitsFit_map [FloorRing K] {κ : Type*} (f : ι → κ) (lower' upper' : κ → K) (l : List ι) (free : K) :
    AllUnitsFit lower' upper' (l.map f) free ↔ AllUnitsFit (lower' ∘ f) (upper' ∘ f) l free := by
  have hb : bounds lower' upper' (l.map f) = bounds (lower' ∘ f) (upper' ∘ f) l := by
    unfold bounds
    rw [List.flatMap_map]
    rfl
  unfold AllUnitsFit
  rw [hb]
  cases (bounds (lower' ∘ f) (upper' ∘ f) l).insertionSort (· ≤ ·) with
  | nil => exact Iff.rfl
  | cons a levels => exact unitsFit_map f lower' upper' l levels free a

end Filling
