import Mathlib

/-!
# Skip lists over a sequence of sized elements

The elements of a sequence have sizes, and each one reaches up to a height. `before` adds the sizes up to a position,
`scan` walks the sequence to the element that a target falls in, and `stop` is where the link of a level leads.
-/

namespace SkipLists

variable {α : Type*} (size height : α → Nat) (xs : List α)

/-! ## Sums of sizes -/

/-- The sizes of the elements before position `i`. -/
def before (i : Nat) : Nat := ((xs.take i).map size).sum

@[simp] theorem before_zero : before size xs 0 = 0 := rfl

variable {size xs}

variable (size) in
theorem before_succ {i : Nat} {x : α} (hx : xs[i]? = some x) : before size xs (i + 1) = before size xs i + size x := by
  simp [before, List.take_add_one, hx]

variable (size xs) in
theorem before_mono {i j : Nat} (h : i ≤ j) : before size xs i ≤ before size xs j := by
  have hp := (List.take_prefix_take_left (l := xs) h).map size
  obtain ⟨rest, hr⟩ := hp
  unfold before
  rw [← hr, List.sum_append]
  exact Nat.le_add_right _ _

theorem lt_of_before_lt {i j : Nat} (h : before size xs i < before size xs j) : i < j := by
  by_contra hle
  exact absurd (before_mono size xs (Nat.le_of_not_lt hle)) (Nat.not_le.mpr h)

/-- The sums over a shorter sequence are the sums up to its length. -/
theorem before_of_length_le {i : Nat} (h : xs.length ≤ i) : before size xs i = before size xs xs.length := by
  simp [before, List.take_of_length_le h]

/-! ## The linear scan -/

variable (size) in
/-- The first element whose end is beyond the target. -/
def scan (target : Nat) : List α → Option Nat
  | [] => none
  | x :: xs => if target < size x then some 0 else (scan (target - size x) xs).map (· + 1)

theorem before_cons_succ {x : α} {i : Nat} : before size (x :: xs) (i + 1) = size x + before size xs i := by
  simp [before]

variable {target i : Nat}

/-- A target is within one element, so the scan finds the only element it is within. -/
theorem scan_eq_some (hle : before size xs i ≤ target) (hlt : target < before size xs (i + 1)) :
    scan size target xs = some i := by
  induction xs generalizing target i with
  | nil => simp [before] at hlt
  | cons x xs ih =>
    cases i with
    | zero =>
      rw [before_cons_succ] at hlt
      exact if_pos (by simpa using hlt)
    | succ i =>
      rw [before_cons_succ] at hle hlt
      have hr : scan size (target - size x) xs = some i := ih (by omega) (by omega)
      rw [scan, if_neg (by omega), hr]
      rfl

theorem scan_lt (h : scan size target xs = some i) : i < xs.length := by
  induction xs generalizing target i with
  | nil => cases h
  | cons x xs ih =>
    unfold scan at h
    split at h
    · obtain rfl := Option.some.inj h
      exact Nat.succ_pos _
    · obtain ⟨j, hj, rfl⟩ := Option.map_eq_some_iff.mp h
      exact Nat.succ_lt_succ (ih hj)

theorem scan_le (h : scan size target xs = some i) : before size xs i ≤ target := by
  induction xs generalizing target i with
  | nil => cases h
  | cons x xs ih =>
    unfold scan at h
    split at h
    · obtain rfl := Option.some.inj h
      exact Nat.zero_le _
    · obtain ⟨j, hj, rfl⟩ := Option.map_eq_some_iff.mp h
      have hr := ih hj
      rw [before_cons_succ]
      omega

theorem lt_of_scan (h : scan size target xs = some i) : target < before size xs (i + 1) := by
  induction xs generalizing target i with
  | nil => cases h
  | cons x xs ih =>
    unfold scan at h
    rw [before_cons_succ]
    split at h
    · next hlt =>
      obtain rfl := Option.some.inj h
      exact Nat.lt_add_right _ hlt
    · obtain ⟨j, hj, rfl⟩ := Option.map_eq_some_iff.mp h
      have hr := ih hj
      omega

theorem exists_scan {target : Nat} (h : target < before size xs xs.length) : ∃ i, scan size target xs = some i := by
  induction xs generalizing target with
  | nil => exact absurd h (Nat.not_lt_zero _)
  | cons x xs ih =>
    unfold scan
    split
    · exact ⟨0, rfl⟩
    · rw [List.length_cons, before_cons_succ] at h
      have hr : target - size x < before size xs xs.length := by omega
      obtain ⟨i, hi⟩ := ih hr
      exact ⟨i + 1, by rw [hi]; rfl⟩

/-! ## Links -/

variable (xs) in
/-- The next element that reaches up to `level`. -/
def nextAt (level i : Nat) : Option Nat :=
  ((xs.drop (i + 1)).findIdx? fun x => level ≤ height x).map (· + (i + 1))

variable (xs) in
/-- Where the elements end that the link of a level passes over. -/
def stop (level i : Nat) : Nat := (nextAt height xs level i).getD xs.length

variable {height}

theorem nextAt_spec {level i j : Nat} (h : nextAt height xs level i = some j) :
    i < j ∧ ∃ x, xs[j]? = some x ∧ level ≤ height x := by
  obtain ⟨k, hk, rfl⟩ := Option.map_eq_some_iff.mp h
  obtain ⟨hlt, hh, -⟩ := List.findIdx?_eq_some_iff_getElem.mp hk
  have hg : (xs.drop (i + 1))[k]? = some (xs.drop (i + 1))[k] := List.getElem?_eq_getElem hlt
  rw [List.getElem?_drop, Nat.add_comm] at hg
  exact ⟨by omega, _, hg, of_decide_eq_true hh⟩

theorem stop_of_some {level i j : Nat} (h : nextAt height xs level i = some j) : stop height xs level i = j := by
  rw [stop, h]
  rfl

theorem stop_of_none {level i : Nat} (h : nextAt height xs level i = none) : stop height xs level i = xs.length := by
  rw [stop, h]
  rfl

/-- An element that nothing after it reaches is linked to the end. -/
theorem stop_of_forall_lt {level i : Nat} (h : ∀ x ∈ xs.drop (i + 1), height x < level) :
    stop height xs level i = xs.length := by
  apply stop_of_none
  rw [nextAt, Option.map_eq_none_iff, List.findIdx?_eq_none_iff]
  exact fun x hx => decide_eq_false (Nat.not_le.mpr (h x hx))

theorem stop_zero {i : Nat} (hi : i < xs.length) : stop height xs 0 i = i + 1 := by
  unfold stop nextAt
  by_cases hl : i + 1 < xs.length
  · have hf : (xs.drop (i + 1)).findIdx? (fun x => 0 ≤ height x) = some 0 := by
      rw [List.drop_eq_getElem_cons hl, List.findIdx?_cons]
      exact if_pos (decide_eq_true (Nat.zero_le _))
    rw [hf]
    simp
  · rw [List.drop_eq_nil_of_le (by omega)]
    simp
    omega

end SkipLists
