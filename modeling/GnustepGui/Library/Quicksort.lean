import Mathlib.Data.List.Perm.Basic
import Mathlib.Data.List.Pairwise

/-!
# Quicksort in place

Hoare's partition with the first entry as pivot, on the entries from `p` to `r` of an array. The two scans
have no bounds of their own: they stop at an entry that is equal to the pivot or that an earlier exchange has
put there. For every order in which `lt` is a strict weak order, the sort ends, rearranges the entries from `p`
to `r` only, and leaves them in order (`exists_sort`).
-/

namespace Quicksort

universe u

variable {α : Type u} (lt : α → α → Bool)

/-! ## The code -/

/-- `j--`, and on while the entry is above `x`; `none` where it runs off the array. -/
def scanDown (x : α) (data : List α) : (j : Nat) → Option Nat
  | 0 => none
  | j + 1 =>
    match data[j]? with
    | none => none
    | some y => if lt x y then scanDown x data j else some j

/-- From `i` up while the entry is below `x`; the list is the array from `i` on. -/
def scanUp (x : α) : List α → (i : Nat) → Option Nat
  | [], _ => none
  | y :: rest, i => if lt y x then scanUp x rest (i + 1) else some i

/-- The loop, with `i` the next entry to scan up from and `j` the last one that was scanned down to: the end of
the lower part, and the array. -/
def partition (x : α) : (fuel : Nat) → List α → (i j : Nat) → Option (Nat × List α)
  | 0, _, _, _ => none
  | fuel + 1, data, i, j =>
    match scanDown lt x data j with
    | none => none
    | some j =>
      match scanUp lt x (data.drop i) i with
      | none => none
      | some i => if i < j then partition x fuel (data.swap i j) (i + 1) j else some (j, data)

def sort : (fuel : Nat) → List α → (p r : Nat) → Option (List α)
  | 0, _, _, _ => none
  | fuel + 1, data, p, r =>
    if p < r then
      match data[p]? with
      | none => none
      | some x =>
        match partition lt x (r + 2) data p (r + 1) with
        | none => none
        | some (q, data) =>
          match sort fuel data p q with
          | none => none
          | some data => sort fuel data (q + 1) r
    else some data

/-! ## Entries of a range -/

section Ranges

variable {P Q : α → Prop} {data data' data'' : List α} {a b c i j k p q r : Nat}

/-- All entries from `a` up to `b`, without it. -/
def Range (P : α → Prop) (data : List α) (a b : Nat) : Prop :=
  ∀ k y, a ≤ k → k < b → data[k]? = some y → P y

theorem Range.empty (h : b ≤ a) : Range P data a b := fun _ _ ha hb _ => absurd (Nat.le_trans h ha) (Nat.not_le.mpr hb)

theorem Range.imp (h : Range P data a b) (hPQ : ∀ y, P y → Q y) : Range Q data a b :=
  fun k y ha hb hy => hPQ y (h k y ha hb hy)

theorem Range.append (hab : Range P data a b) (hb : Range P data b c) : Range P data a c := by
  intro k y ha hc hy
  rcases Nat.lt_or_ge k b with hlt | hge
  · exact hab k y ha hlt hy
  · exact hb k y hge hc hy

theorem Range.shrink (h : Range P data a b) (ha : a ≤ i) (hb : j ≤ b) : Range P data i j :=
  fun k y hi hj hy => h k y (Nat.le_trans ha hi) (Nat.lt_of_lt_of_le hj hb) hy

theorem Range.single {y : α} (hy : data[a]? = some y) (hP : P y) : Range P data a (a + 1) := by
  intro k z ha hb hz
  obtain rfl : k = a := by omega
  rw [hy] at hz
  exact Option.some.inj hz ▸ hP

/-- Only the entries from `p` to `r` have moved, among themselves. -/
structure Rearranged (p r : Nat) (data data' : List α) : Prop where
  perm : data'.Perm data
  outside : ∀ k, k < p ∨ r < k → data'[k]? = data[k]?
  inside : ∀ k, p ≤ k → k ≤ r → ∃ k', p ≤ k' ∧ k' ≤ r ∧ data'[k]? = data[k']?

theorem Rearranged.refl (p r : Nat) (data : List α) : Rearranged p r data data :=
  ⟨List.Perm.refl data, fun _ _ => rfl, fun k hp hr => ⟨k, hp, hr, rfl⟩⟩

theorem Rearranged.trans (h : Rearranged p r data data') (h' : Rearranged p r data' data'') :
    Rearranged p r data data'' where
  perm := h'.perm.trans h.perm
  outside k hk := (h'.outside k hk).trans (h.outside k hk)
  inside k hp hr := by
    obtain ⟨k', hp', hr', heq'⟩ := h'.inside k hp hr
    obtain ⟨k'', hp'', hr'', heq''⟩ := h.inside k' hp' hr'
    exact ⟨k'', hp'', hr'', heq'.trans heq''⟩

theorem Rearranged.widen (h : Rearranged i j data data') (hp : p ≤ i) (hr : j ≤ r) : Rearranged p r data data' where
  perm := h.perm
  outside k hk := h.outside k (by omega)
  inside k hkp hkr := by
    by_cases hin : i ≤ k ∧ k ≤ j
    · obtain ⟨k', hi, hj, heq⟩ := h.inside k hin.1 hin.2
      exact ⟨k', by omega, by omega, heq⟩
    · exact ⟨k, hkp, hkr, h.outside k (by omega)⟩

theorem getElem?_swap (hi : i < data.length) (hj : j < data.length) (k : Nat) :
    (data.swap i j)[k]? = if k = i then data[j]? else if k = j then data[i]? else data[k]? := by
  rw [List.swap_eq_of_lt hi hj, List.getElem?_set, List.getElem?_set, List.length_set]
  by_cases hki : k = i
  · by_cases hk : k = j
    · subst hki
      subst hk
      simp [hi]
    · subst hki
      simp [Ne.symm hk, hi]
  · by_cases hk : k = j
    · subst hk
      simp [hki, hj]
    · simp [hki, hk, Ne.symm hki, Ne.symm hk]

theorem rearranged_swap (hpi : p ≤ i) (hi : i ≤ r) (hpj : p ≤ j) (hj : j ≤ r) (hr : r < data.length) :
    Rearranged p r data (data.swap i j) where
  perm := List.swap_perm data i j
  outside k hk := by
    rw [getElem?_swap (by omega) (by omega), if_neg (by omega), if_neg (by omega)]
  inside k hp hr := by
    rw [getElem?_swap (by omega) (by omega)]
    by_cases hki : k = i
    · exact ⟨j, hpj, hj, if_pos hki⟩
    · by_cases hkj : k = j
      · exact ⟨i, hpi, hi, by rw [if_neg hki, if_pos hkj]⟩
      · exact ⟨k, hp, hr, by rw [if_neg hki, if_neg hkj]⟩

/-- A range keeps what holds of all its entries. -/
theorem Rearranged.range (h : Rearranged p r data data') (hrg : Range P data p (r + 1)) : Range P data' p (r + 1) := by
  intro k y hp hr hy
  obtain ⟨k', hp', hr', heq⟩ := h.inside k hp (by omega)
  exact hrg k' y hp' (by omega) (heq ▸ hy)

theorem Rearranged.range_outside (h : Rearranged p r data data') (hr : Range P data a b)
    (ho : b ≤ p ∨ r < a) : Range P data' a b := by
  intro k y ha hb hy
  rw [h.outside k (by omega)] at hy
  exact hr k y ha hb hy

end Ranges

/-! ## The scans -/

section Scans

variable {x : α} {data : List α} {i j k : Nat} {y : α}

theorem exists_scanDown (hj : j ≤ data.length) (hk : k < j) (hy : data[k]? = some y) (hst : lt x y = false) :
    ∃ m z, scanDown lt x data j = some m ∧ k ≤ m ∧ m < j ∧ data[m]? = some z ∧ lt x z = false ∧
      Range (fun y => lt x y = true) data (m + 1) j := by
  induction j with
  | zero => exact absurd hk (Nat.not_lt_zero k)
  | succ j ih =>
    have hs : data[j]? = some (data.get ⟨j, hj⟩) := List.getElem?_eq_getElem hj
    rw [scanDown, hs]
    dsimp only
    by_cases hlt : lt x (data.get ⟨j, hj⟩) = true
    · rw [if_pos hlt]
      have hne : k ≠ j := by
        rintro rfl
        rw [hs, Option.some.injEq] at hy
        rw [hy, hst] at hlt
        exact Bool.false_ne_true hlt
      obtain ⟨m, z, hsc, hkm, hm, hz, hle, hr⟩ := ih (by omega) (by omega)
      exact ⟨m, z, hsc, hkm, by omega, hz, hle, hr.append (.single hs hlt)⟩
    · rw [if_neg hlt]
      exact ⟨j, _, rfl, by omega, by omega, hs, eq_false_of_ne_true hlt, .empty (Nat.le_refl _)⟩

theorem exists_scanUp_list {l : List α} (hy : l[k]? = some y) (hs : lt y x = false) (i : Nat) :
    ∃ m z, scanUp lt x l i = some (i + m) ∧ m ≤ k ∧ l[m]? = some z ∧ lt z x = false ∧
      Range (fun y => lt y x = true) l 0 m := by
  induction l generalizing k i with
  | nil => exact absurd hy (by simp)
  | cons w rest ih =>
    rw [scanUp]
    by_cases hlt : lt w x = true
    · rw [if_pos hlt]
      cases k with
      | zero =>
        rw [List.getElem?_cons_zero, Option.some.injEq] at hy
        rw [hy, hs] at hlt
        exact absurd hlt Bool.false_ne_true
      | succ k =>
        obtain ⟨m, z, hsc, hm, hz, hge, hr⟩ := ih (by rwa [List.getElem?_cons_succ] at hy) (i + 1)
        refine ⟨m + 1, z, by rw [hsc, Nat.add_assoc, Nat.add_comm 1 m], by omega, hz, hge, fun n v _ hn hv => ?_⟩
        cases n with
        | zero =>
          rw [List.getElem?_cons_zero, Option.some.injEq] at hv
          rwa [← hv]
        | succ n => exact hr n v (Nat.zero_le n) (by omega) hv
    · rw [if_neg hlt]
      exact ⟨0, w, rfl, Nat.zero_le k, rfl, eq_false_of_ne_true hlt, .empty (Nat.le_refl _)⟩

theorem exists_scanUp (hi : i ≤ k) (hy : data[k]? = some y) (hs : lt y x = false) :
    ∃ m z, scanUp lt x (data.drop i) i = some m ∧ i ≤ m ∧ m ≤ k ∧ data[m]? = some z ∧ lt z x = false ∧
      Range (fun y => lt y x = true) data i m := by
  have hd : (data.drop i)[k - i]? = some y := by
    rw [List.getElem?_drop, Nat.add_sub_cancel' hi]
    exact hy
  obtain ⟨m, z, hsc, hm, hz, hge, hr⟩ := exists_scanUp_list lt hd hs i
  rw [List.getElem?_drop] at hz
  refine ⟨i + m, z, hsc, by omega, by omega, hz, hge, fun n v hin hn hv => ?_⟩
  refine hr (n - i) v (Nat.zero_le _) (by omega) ?_
  rw [List.getElem?_drop, Nat.add_sub_cancel' hin]
  exact hv

end Scans

/-! ## The partition -/

section Order

variable (hasymm : ∀ a b, lt a b = true → lt b a = false)
  (htrans : ∀ a b c, lt b a = false → lt c b = false → lt c a = false)

variable {x : α} {data : List α} {fuel i j p r : Nat}

/-- What the partition leaves: nothing up to `q` is above the pivot, and nothing behind `q` is below it. -/
structure Partitioned (x : α) (p r : Nat) (data : List α) (q : Nat) (data' : List α) : Prop where
  lower : p ≤ q
  upper : q < r
  rearranged : Rearranged p r data data'
  below : Range (fun y => lt x y = false) data' p (q + 1)
  above : Range (fun y => lt y x = false) data' (q + 1) (r + 1)

include hasymm in
/-- The loop once it has exchanged two entries. -/
theorem exists_partition (hf : j < fuel) (hr : r < data.length) (hpi : p < i) (hi : i ≤ j) (hj : j ≤ r)
    (hb : Range (fun y => lt x y = false) data p i) (ha : Range (fun y => lt y x = false) data j (r + 1)) :
    ∃ q data', partition lt x fuel data i j = some (q, data') ∧ Partitioned lt x p r data q data' := by
  induction fuel generalizing data i j with
  | zero => exact absurd hf (Nat.not_lt_zero j)
  | succ fuel ih =>
    -- the entries that the scans stop at
    have hl : data[i - 1]? = some (data.get ⟨i - 1, by omega⟩) := List.getElem?_eq_getElem (by omega)
    have hh : data[j]? = some (data.get ⟨j, by omega⟩) := List.getElem?_eq_getElem (by omega)
    obtain ⟨m, z, hdw, him, hmj, hz, hzx, hd⟩ := exists_scanDown lt (by omega : j ≤ data.length)
      (by omega) hl
      (hb (i - 1) _ (by omega) (by omega) hl)
    obtain ⟨n, w, hup, hin, hnj, hw, hwx, hu⟩ := exists_scanUp lt hi hh
      (ha j _ (Nat.le_refl j) (by omega) hh)
    have hb' : Range (fun y => lt x y = false) data p n := hb.append (hu.imp fun y => hasymm y x)
    have ha' : Range (fun y => lt y x = false) data (m + 1) (r + 1) := (hd.imp fun y => hasymm x y).append ha
    rw [partition, hdw]
    dsimp only
    rw [hup]
    dsimp only
    by_cases hn : n < m
    · rw [if_pos hn]
      have hs : Rearranged p r data (data.swap n m) := rearranged_swap (by omega) (by omega) (by omega) (by omega) hr
      have hsw : (data.swap n m)[n]? = some z := by rw [getElem?_swap (by omega) (by omega), if_pos rfl, hz]
      have hsm : (data.swap n m)[m]? = some w := by
        rw [getElem?_swap (by omega) (by omega), if_neg (by omega), if_pos rfl, hw]
      have hlo : Range (fun y => lt x y = false) (data.swap n m) p n := by
        intro k y hpk hk hy
        rw [getElem?_swap (by omega) (by omega), if_neg (by omega), if_neg (by omega)] at hy
        exact hb' k y hpk hk hy
      have hupp : Range (fun y => lt y x = false) (data.swap n m) (m + 1) (r + 1) := by
        intro k y hm hkr hy
        rw [getElem?_swap (by omega) (by omega), if_neg (by omega), if_neg (by omega)] at hy
        exact ha' k y hm hkr hy
      have hlen : (data.swap n m).length = data.length := List.length_swap
      obtain ⟨q, data', hp, hq⟩ := @ih (data.swap n m) (n + 1) m (by omega) (by omega) (by omega) (by omega)
        (by omega) (hlo.append (.single hsw hzx)) ((Range.single hsm hwx).append hupp)
      exact ⟨q, data', hp, hq.lower, hq.upper, hs.trans hq.rearranged, hq.below, hq.above⟩
    · rw [if_neg hn]
      refine ⟨m, data, rfl, by omega, by omega, .refl p r data, ?_, ha'⟩
      exact (hb'.shrink (Nat.le_refl p) (Nat.not_lt.mp hn)).append (.single hz hzx)

include hasymm in
theorem exists_partition_first (hpr : p < r) (hr : r < data.length) (hx : data[p]? = some x) :
    ∃ q data', partition lt x (r + 2) data p (r + 1) = some (q, data') ∧ Partitioned lt x p r data q data' := by
  have hs : lt x x = false := by
    by_contra hlt
    rw [Bool.not_eq_false] at hlt
    exact Bool.false_ne_true ((hasymm x x hlt).symm.trans hlt)
  obtain ⟨m, z, hdw, hpm, hmr, hz, hzx, hd⟩ := exists_scanDown lt (by omega : r + 1 ≤ data.length)
    (by omega) hx hs
  obtain ⟨n, w, hup, hpn, hnp, hw, hwx, -⟩ := exists_scanUp lt (Nat.le_refl p) hx hs
  obtain rfl : n = p := Nat.le_antisymm hnp hpn
  obtain rfl : w = x := Option.some.inj (hw.symm.trans hx)
  have ha : Range (fun y => lt y w = false) data (m + 1) (r + 1) := hd.imp fun y => hasymm w y
  rw [partition, hdw]
  dsimp only
  rw [hup]
  dsimp only
  by_cases hn : n < m
  · rw [if_pos hn]
    have hsp : Rearranged n r data (data.swap n m) := rearranged_swap (by omega) (by omega) (by omega) (by omega) hr
    have hsw : (data.swap n m)[n]? = some z := by rw [getElem?_swap (by omega) (by omega), if_pos rfl, hz]
    have hsm : (data.swap n m)[m]? = some w := by
      rw [getElem?_swap (by omega) (by omega), if_neg (by omega), if_pos rfl, hw]
    have hu : Range (fun y => lt y w = false) (data.swap n m) (m + 1) (r + 1) := by
      intro k y hm hk hy
      rw [getElem?_swap (by omega) (by omega), if_neg (by omega), if_neg (by omega)] at hy
      exact ha k y hm hk hy
    have hl : (data.swap n m).length = data.length := List.length_swap
    obtain ⟨q, data', hp, hq⟩ := exists_partition lt hasymm (by omega : m < r + 1) (by omega)
      (Nat.lt_succ_self n) hn (by omega) (.single hsw hzx) ((Range.single hsm hs).append hu)
    exact ⟨q, data', hp, hq.lower, hq.upper, hsp.trans hq.rearranged, hq.below, hq.above⟩
  · obtain rfl : m = n := by omega
    rw [if_neg hn]
    exact ⟨m, data, rfl, Nat.le_refl m, hpr, .refl m r data, .single hz hzx, ha⟩

/-! ## The sort -/

/-- In order from `p` to `r`. -/
def SortedOn (p r : Nat) (data : List α) : Prop :=
  ∀ k m y z, p ≤ k → k < m → m ≤ r → data[k]? = some y → data[m]? = some z → lt z y = false

include hasymm htrans in
theorem exists_sort (hf : r - p < fuel) (hr : p < r → r < data.length) :
    ∃ data', sort lt fuel data p r = some data' ∧ Rearranged p r data data' ∧ SortedOn lt p r data' := by
  induction fuel generalizing data p r with
  | zero => exact absurd hf (Nat.not_lt_zero _)
  | succ fuel ih =>
    rw [sort]
    by_cases hpr : p < r
    · rw [if_pos hpr]
      have hl := hr hpr
      have hx : data[p]? = some (data.get ⟨p, by omega⟩) := List.getElem?_eq_getElem (by omega)
      rw [hx]
      dsimp only
      obtain ⟨q, data₁, hp, hq⟩ := exists_partition_first lt hasymm hpr hl hx
      rw [hp]
      dsimp only
      have hpq := hq.lower
      have hqr := hq.upper
      have hl₁ := hq.rearranged.perm.length_eq
      obtain ⟨data₂, hsr₂, hre₂, hs₂⟩ := @ih data₁ p q (by omega) (by omega)
      rw [hsr₂]
      dsimp only
      have hl₂ := hre₂.perm.length_eq
      obtain ⟨data₃, hsr₃, hre₃, hs₃⟩ := @ih data₂ (q + 1) r (by omega) (by omega)
      refine ⟨data₃, hsr₃, ?_, fun k m y z hpk hk hm hy hz => ?_⟩
      · exact hq.rearranged.trans
          ((hre₂.widen (Nat.le_refl p) (Nat.le_of_lt hqr)).trans (hre₃.widen (by omega) (Nat.le_refl r)))
      · have hb : Range (fun y => lt (data.get ⟨p, by omega⟩) y = false) data₃ p (q + 1) :=
          hre₃.range_outside (hre₂.range hq.below) (.inl (Nat.le_refl _))
        have ha : Range (fun y => lt y (data.get ⟨p, by omega⟩) = false) data₃ (q + 1) (r + 1) :=
          hre₃.range (hre₂.range_outside hq.above (.inr (Nat.lt_succ_self q)))
        by_cases hkq : k ≤ q
        · by_cases hmq : m ≤ q
          · rw [hre₃.outside k (by omega)] at hy
            rw [hre₃.outside m (by omega)] at hz
            exact hs₂ k m y z hpk hk hmq hy hz
          · exact htrans _ _ _ (hb k y hpk (by omega) hy) (ha m z (by omega) (by omega) hz)
        · exact hs₃ k m y z (by omega) hk hm hy hz
    · rw [if_neg hpr]
      exact ⟨data, rfl, .refl p r data, fun k m y z hpk hk hm => absurd hk (by omega)⟩

include hasymm htrans in
/-- The whole array. -/
theorem exists_sort_all (hf : data.length ≤ fuel) (hsm : data ≠ []) :
    ∃ data', sort lt fuel data 0 (data.length - 1) = some data' ∧ data'.Perm data ∧
      data'.Pairwise (fun a b => lt b a = false) := by
  have hp : 0 < data.length := List.length_pos_of_ne_nil hsm
  obtain ⟨data', hsr, hr, hs⟩ := @exists_sort _ lt hasymm htrans data fuel 0 (data.length - 1) (by omega)
    fun _ => by omega
  refine ⟨data', hsr, hr.perm, List.pairwise_iff_getElem.mpr fun i j hi hj hij => ?_⟩
  have hl := hr.perm.length_eq
  exact hs i j _ _ (Nat.zero_le i) hij (by omega) (List.getElem?_eq_getElem hi) (List.getElem?_eq_getElem hj)

end Order

end Quicksort
