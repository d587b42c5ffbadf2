import Mathlib.Data.List.Count
import Mathlib.Order.Bounds.Basic

/-!
# Items at places

A sequence of items is given by the places they are at, which do not decrease. The items of a place, and the places
from there up to the next one that has items, make up a cluster.
-/

namespace Clusters

variable {places : List Nat} {x y p q k : Nat}

/-- How many items are at places before `x`. -/
def rank (places : List Nat) (x : Nat) : Nat := places.countP (· < x)

/-- The first place of an item that is not before `x`. -/
def ceiling (places : List Nat) (top x : Nat) : Nat := (places[rank places x]?).getD top

/-- `f` is the last place of an item up to `x`. -/
def IsFloor (places : List Nat) (x f : Nat) : Prop := IsGreatest {p | p ∈ places ∧ p ≤ x} f

/-! ## Ranks -/

theorem rank_le_length (places : List Nat) (x : Nat) : rank places x ≤ places.length := List.countP_le_length

theorem rank_cons (a : Nat) (places : List Nat) (x : Nat) :
    rank (a :: places) x = rank places x + if a < x then 1 else 0 := by
  simp [rank, List.countP_cons]

theorem rank_append (before after : List Nat) (x : Nat) : rank (before ++ after) x = rank before x + rank after x :=
  List.countP_append

theorem rank_eq_zero (h : ∀ p ∈ places, x ≤ p) : rank places x = 0 := by
  rw [rank, List.countP_eq_zero]
  intro p hp hlt
  exact absurd (of_decide_eq_true hlt) (Nat.not_lt.mpr (h p hp))

theorem rank_eq_length (h : ∀ p ∈ places, p < x) : rank places x = places.length := by
  rw [rank, List.countP_eq_length]
  exact fun p hp => decide_eq_true (h p hp)

theorem rank_map_add (places : List Nat) (a x : Nat) : rank (places.map (· + a)) (x + a) = rank places x := by
  simp [rank, List.countP_map, Function.comp_def]

theorem rank_mono (places : List Nat) (h : x ≤ y) : rank places x ≤ rank places y := by
  apply List.countP_mono_left
  intro p _ hlt
  exact decide_eq_true (Nat.lt_of_lt_of_le (of_decide_eq_true hlt) h)

/-- The rank is the same where there is no item in between. -/
theorem rank_eq_of_forall (hle : x ≤ y) (h : ∀ p ∈ places, x ≤ p → y ≤ p) : rank places x = rank places y := by
  apply List.countP_congr
  intro p hp
  rw [decide_eq_true_iff, decide_eq_true_iff]
  exact ⟨fun hlt => Nat.lt_of_lt_of_le hlt hle, fun hlt => Nat.lt_of_not_le fun hx => absurd (h p hp hx) (by omega)⟩

variable (hsorted : places.Pairwise (· ≤ ·))
include hsorted

theorem lt_rank_iff (hk : places[k]? = some p) : k < rank places x ↔ p < x := by
  induction places generalizing k with
  | nil => cases hk
  | cons a places ih =>
    obtain ⟨hf, hr⟩ := List.pairwise_cons.mp hsorted
    rw [rank_cons]
    by_cases ha : a < x
    · rw [if_pos ha]
      cases k with
      | zero =>
        obtain rfl := Option.some.inj hk
        exact ⟨fun _ => ha, fun _ => Nat.succ_pos _⟩
      | succ k => rw [Nat.succ_lt_succ_iff, ih hr hk]
    · have hp : x ≤ p := by
        refine Nat.le_trans (Nat.le_of_not_lt ha) ?_
        cases k with
        | zero => exact Nat.le_of_eq (Option.some.inj hk)
        | succ k => exact hf p (List.mem_of_getElem? hk)
      have hn : rank places x = 0 := rank_eq_zero fun q hq => Nat.le_trans (Nat.le_of_not_lt ha) (hf q hq)
      rw [if_neg ha, hn]
      omega

theorem le_of_getElem {i j : Nat} (hij : i ≤ j) (hi : places[i]? = some p) (hj : places[j]? = some q) : p ≤ q := by
  by_contra hlt
  have ha := (lt_rank_iff hsorted (x := p) hj).mpr (by omega)
  have hb := (lt_rank_iff hsorted (x := p) hi).mp (Nat.lt_of_le_of_lt hij ha)
  omega

theorem rank_eq (hle : k ≤ places.length) (hb : ∀ i p, i < k → places[i]? = some p → p < x)
    (ha : ∀ p, places[k]? = some p → x ≤ p) : rank places x = k := by
  apply Nat.le_antisymm
  · by_contra hlt
    have hk : k < places.length := Nat.lt_of_lt_of_le (Nat.lt_of_not_le hlt) (rank_le_length places x)
    have hg := List.getElem?_eq_getElem hk
    exact absurd ((lt_rank_iff hsorted hg).mp (Nat.lt_of_not_le hlt)) (Nat.not_lt.mpr (ha _ hg))
  · by_contra hlt
    have hk : rank places x < places.length := by omega
    have hg := List.getElem?_eq_getElem hk
    have := (lt_rank_iff hsorted hg).mpr (hb _ _ (Nat.lt_of_not_le hlt) hg)
    omega

theorem getElem_rank (hp : p ∈ places) : places[rank places p]? = some p := by
  obtain ⟨k, hk⟩ := List.getElem?_of_mem hp
  have hle : rank places p ≤ k := Nat.le_of_not_lt fun hlt => Nat.lt_irrefl p ((lt_rank_iff hsorted hk).mp hlt)
  have hlt : rank places p < places.length := Nat.lt_of_le_of_lt hle (List.getElem?_eq_some_iff.mp hk).1
  have hg := List.getElem?_eq_getElem hlt
  have hup : p ≤ places[rank places p] := Nat.le_of_not_lt fun h => Nat.lt_irrefl _ ((lt_rank_iff hsorted hg).mpr h)
  rw [hg, Nat.le_antisymm (le_of_getElem hsorted hle hg hk) hup]

theorem rank_last (hpos : 0 < rank places x) (hq : places[rank places x - 1]? = some q) :
    rank places (q + 1) = rank places x := by
  have hlt : q < x := (lt_rank_iff hsorted hq).mp (by omega)
  refine rank_eq_of_forall hlt fun p hp hqp => ?_
  obtain ⟨k, hk⟩ := List.getElem?_of_mem hp
  by_contra hpx
  have hkx : k < rank places x := (lt_rank_iff hsorted hk).mpr (by omega)
  have := le_of_getElem hsorted (by omega : k ≤ rank places x - 1) hk hq
  omega

/-! ## Floors and ceilings -/

variable {top : Nat}

theorem ceiling_le_of_mem (hp : p ∈ places) (hx : x ≤ p) : ceiling places top x ≤ p := by
  obtain ⟨k, hk⟩ := List.getElem?_of_mem hp
  have hle : rank places x ≤ k := Nat.le_of_not_lt fun hlt => by
    have := (lt_rank_iff hsorted hk).mp hlt
    omega
  have hg := List.getElem?_eq_getElem (Nat.lt_of_le_of_lt hle (List.getElem?_eq_some_iff.mp hk).1)
  rw [ceiling, hg]
  exact le_of_getElem hsorted hle hg hk

omit hsorted in
theorem ceiling_eq_or (places : List Nat) (top x : Nat) :
    ceiling places top x ∈ places ∨ ceiling places top x = top := by
  unfold ceiling
  cases hg : places[rank places x]? with
  | none => exact .inr rfl
  | some p => exact .inl (List.mem_of_getElem? hg)

theorem le_ceiling (hx : x ≤ top) : x ≤ ceiling places top x := by
  unfold ceiling
  cases hg : places[rank places x]? with
  | none => exact hx
  | some p => exact Nat.le_of_not_lt fun hlt => Nat.lt_irrefl _ ((lt_rank_iff hsorted hg).mpr hlt)

theorem rank_ceiling (hx : x ≤ top) : rank places (ceiling places top x) = rank places x :=
  (rank_eq_of_forall (le_ceiling hsorted hx) fun _ hp hle => ceiling_le_of_mem hsorted hp hle).symm

theorem ceiling_ceiling (hx : x ≤ top) : ceiling places top (ceiling places top x) = ceiling places top x := by
  conv_lhs => rw [ceiling, rank_ceiling hsorted hx]
  rfl

theorem ceiling_mono (ht : ∀ p ∈ places, p < top) (hx : x ≤ y) (hy : y ≤ top) :
    ceiling places top x ≤ ceiling places top y := by
  obtain hm | ht' := ceiling_eq_or places top y
  · exact ceiling_le_of_mem hsorted hm (Nat.le_trans hx (le_ceiling hsorted hy))
  · rw [ht']
    obtain hm | heq := ceiling_eq_or places top x
    · exact Nat.le_of_lt (ht _ hm)
    · exact Nat.le_of_eq heq

omit hsorted in
theorem IsFloor.mono {f g : Nat} (hf : IsFloor places x f) (hg : IsFloor places y g) (hx : x ≤ y) : f ≤ g :=
  hg.2 ⟨hf.1.1, Nat.le_trans hf.1.2 hx⟩

omit hsorted in
theorem isFloor_self (hp : p ∈ places) : IsFloor places p p := ⟨⟨hp, Nat.le_refl p⟩, fun _ hq => hq.2⟩

theorem isFloor_of_getElem (hk : places[k]? = some p) (hr : rank places (x + 1) = k + 1) : IsFloor places x p := by
  have hle : p < x + 1 := (lt_rank_iff hsorted hk).mp (by omega)
  refine ⟨⟨List.mem_of_getElem? hk, Nat.le_of_lt_succ hle⟩, fun q hq => ?_⟩
  obtain ⟨i, hi⟩ := List.getElem?_of_mem hq.1
  have hlt : i < rank places (x + 1) := (lt_rank_iff hsorted hi).mpr (Nat.lt_succ_of_le hq.2)
  exact le_of_getElem hsorted (by omega) hi hk

end Clusters
