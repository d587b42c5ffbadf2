import GnustepGui.Library.Positions

/-!
# Tables stored row by row

A table is a list of rows of the same length, and its entries are stored one row after the other. Inserting elements
one by one, each at its own place, puts a new row or a new column into the table.
-/

namespace Tables

variable {α β : Type*} {n k : Nat} {t : List (List α)}

/-- All rows have `n` entries. -/
def Rectangular (n : Nat) (t : List (List α)) : Prop := ∀ row ∈ t, row.length = n

theorem length_flatten (ht : Rectangular n t) : t.flatten.length = t.length * n := by
  induction t with
  | nil => simp
  | cons row t ih =>
    obtain ⟨hr, ht⟩ := List.forall_mem_cons.mp ht
    rw [List.flatten_cons, List.length_append, ih ht, hr, List.length_cons, Nat.succ_mul, Nat.add_comm]

theorem getElem?_flatten (ht : Rectangular n t) (r : Nat) {c : Nat} (hc : c < n) :
    t.flatten[r * n + c]? = (t[r]?).bind (·[c]?) := by
  induction t generalizing r with
  | nil => simp
  | cons row t ih =>
    obtain ⟨hr, ht⟩ := List.forall_mem_cons.mp ht
    rw [List.flatten_cons]
    cases r with
    | zero =>
      rw [Nat.zero_mul, Nat.zero_add, List.getElem?_append_left (by omega)]
      rfl
    | succ r =>
      rw [List.getElem?_append_right (by rw [hr, Nat.succ_mul]; omega), List.getElem?_cons_succ, ← ih ht, hr,
        Nat.succ_mul]
      congr 1
      omega

/-! ## Inserting one by one -/

/-- The elements from the `i`-th on, each put where `place` says. -/
def insertAll (place : Nat → Nat) : Nat → List α → List α → Option (List α)
  | _, [], l => some l
  | i, x :: xs, l => if place i ≤ l.length then insertAll place (i + 1) xs (l.insertIdx (place i) x) else none

theorem insertAll_row {pos : Nat} (xs post : List α) (pre : List α) (i : Nat) (hp : pre.length = pos + i) :
    insertAll (pos + ·) i xs (pre ++ post) = some (pre ++ xs ++ post) := by
  induction xs generalizing pre i with
  | nil => simp [insertAll]
  | cons x xs ih =>
    have hle : pos + i ≤ (pre ++ post).length := by
      rw [List.length_append]
      omega
    have hin : (pre ++ post).insertIdx (pos + i) x = pre ++ [x] ++ post := by
      rw [← hp, Positions.insertIdx_at]
      simp
    rw [insertAll, if_pos hle, hin, ih (pre ++ [x]) (i + 1) (by rw [List.length_append, hp]; rfl)]
    simp

/-- The elements are a new row. -/
theorem insertAll_newRow (ht : Rectangular n t) (hk : k ≤ t.length) (row : List α) :
    insertAll (k * n + ·) 0 row t.flatten = some (t.insertIdx k row).flatten := by
  have hs : t.flatten = (t.take k).flatten ++ (t.drop k).flatten := by
    rw [← List.flatten_append, List.take_append_drop]
  have hl : (t.take k).flatten.length = k * n := by
    rw [length_flatten fun row hr => ht row (List.mem_of_mem_take hr), List.length_take, Nat.min_eq_left hk]
  have hin : t.insertIdx k row = t.take k ++ row :: t.drop k := by
    have h := Positions.insertIdx_at (t.take k) (t.drop k) row
    rwa [List.take_append_drop, List.length_take, Nat.min_eq_left hk] at h
  rw [hs, insertAll_row row _ _ 0 (by rw [hl]; rfl), hin]
  simp

/-- The rows with one more entry each. -/
def insertColumn (k : Nat) (t : List (List α)) (xs : List α) : List (List α) :=
  List.zipWith (fun row x => row.insertIdx k x) t xs

theorem insertAll_column (hk : k ≤ n) (ht : Rectangular n t) (xs : List α) (hx : xs.length = t.length)
    (done : List α) (i : Nat) (hd : done.length = i * (n + 1)) :
    insertAll (k + · * (n + 1)) i xs (done ++ t.flatten) = some (done ++ (insertColumn k t xs).flatten) := by
  induction t generalizing xs done i with
  | nil =>
    obtain rfl := List.length_eq_zero_iff.mp hx
    rfl
  | cons row t ih =>
    obtain ⟨hr, ht⟩ := List.forall_mem_cons.mp ht
    cases xs with
    | nil => cases hx
    | cons x xs =>
      have hle : k + i * (n + 1) ≤ (done ++ (row :: t).flatten).length := by
        rw [List.length_append, List.flatten_cons, List.length_append]
        omega
      have hrw : row.insertIdx k x = row.take k ++ x :: row.drop k := by
        have h := Positions.insertIdx_at (row.take k) (row.drop k) x
        rwa [List.take_append_drop, List.length_take, Nat.min_eq_left (hr ▸ hk)] at h
      have hin : (done ++ (row :: t).flatten).insertIdx (k + i * (n + 1)) x =
          done ++ row.insertIdx k x ++ t.flatten := by
        have h := Positions.insertIdx_at (done ++ row.take k) (row.drop k ++ t.flatten) x
        rw [List.length_append, List.length_take, Nat.min_eq_left (hr ▸ hk), hd, Nat.add_comm] at h
        have hs : done ++ (row :: t).flatten = done ++ row.take k ++ (row.drop k ++ t.flatten) := by
          rw [List.flatten_cons, List.append_assoc, ← List.append_assoc (row.take k), List.take_append_drop]
        rw [hs, h, hrw]
        simp
      have hd' : (done ++ row.insertIdx k x).length = (i + 1) * (n + 1) := by
        rw [List.length_append, List.length_insertIdx_of_le_length (hr ▸ hk), hd, hr, Nat.succ_mul]
      rw [insertAll, if_pos hle, hin, ih ht xs (Nat.succ.inj hx) _ _ hd']
      simp [insertColumn]

/-- The elements are a new column. -/
theorem insertAll_newColumn (hk : k ≤ n) (ht : Rectangular n t) (xs : List α) (hx : xs.length = t.length) :
    insertAll (k + · * (n + 1)) 0 xs t.flatten = some (insertColumn k t xs).flatten := by
  have h := insertAll_column hk ht xs hx [] 0 (by simp)
  simpa using h

/-! ## Entries of a table that has been changed -/

/-- The entry of a row and a column. -/
def entry (t : List (List α)) (r c : Nat) : Option α := (t[r]?).bind (·[c]?)

/-- Where an element is once there is a new one at `k`. -/
def after (k i : Nat) : Nat := if i < k then i else i + 1

theorem getElem?_insertIdx_after {l : List α} (x : α) (i : Nat) : (l.insertIdx k x)[after k i]? = l[i]? := by
  unfold after
  split
  · next hlt => exact List.getElem?_insertIdx_of_lt hlt
  · next hle => exact List.getElem?_insertIdx_of_gt (by omega)

theorem getElem?_eraseIdx_after (l : List α) (i : Nat) : (l.eraseIdx k)[i]? = l[after k i]? := by
  rw [List.getElem?_eraseIdx, after]
  split <;> rfl

theorem entry_insertRow (row : List α) (r c : Nat) : entry (t.insertIdx k row) (after k r) c = entry t r c := by
  rw [entry, getElem?_insertIdx_after, entry]

theorem entry_eraseRow (t : List (List α)) (r c : Nat) : entry (t.eraseIdx k) r c = entry t (after k r) c := by
  rw [entry, getElem?_eraseIdx_after, entry]

theorem entry_moveRow {a b r : Nat} {row : List α} (hrow : t[a]? = some row) (hb : b < t.length) (hr : r < t.length)
    (c : Nat) : entry ((t.eraseIdx a).insertIdx b row) (Positions.moved a b r) c = entry t r c := by
  rw [entry, Positions.getElem?_move hrow hb hr, entry]

theorem entry_map (f : α → β) (t : List (List α)) (r c : Nat) : entry (t.map (·.map f)) r c = (entry t r c).map f := by
  rw [entry, entry, List.getElem?_map]
  cases t[r]? with
  | none => rfl
  | some row => exact List.getElem?_map

theorem getElem?_insertColumn (t : List (List α)) (xs : List α) (r : Nat) :
    (insertColumn k t xs)[r]? = (t[r]?).bind fun row => (xs[r]?).map fun x => row.insertIdx k x := by
  rw [insertColumn, List.getElem?_zipWith]
  cases t[r]? <;> cases xs[r]? <;> rfl

theorem map_insertColumn (f : α → β) (t : List (List α)) (xs : List α) :
    (insertColumn k t xs).map (·.map f) = insertColumn k (t.map (·.map f)) (xs.map f) := by
  simp [insertColumn, List.map_zipWith, List.zipWith_map, List.map_insertIdx]

theorem entry_insertColumn {xs : List α} (hx : xs.length = t.length) (r c : Nat) :
    entry (insertColumn k t xs) r (after k c) = entry t r c := by
  rw [entry, getElem?_insertColumn, entry]
  by_cases hr : r < t.length
  · rw [List.getElem?_eq_getElem hr, List.getElem?_eq_getElem (hx ▸ hr)]
    exact getElem?_insertIdx_after _ c
  · rw [List.getElem?_eq_none (by omega)]
    rfl

theorem entry_eraseColumn (t : List (List α)) (r c : Nat) :
    entry (t.map (·.eraseIdx k)) r c = entry t r (after k c) := by
  rw [entry, List.getElem?_map, entry]
  cases t[r]? with
  | none => rfl
  | some row => exact getElem?_eraseIdx_after row c

/-- A column of a table. -/
theorem map_some_column (ht : Rectangular n t) (hk : k < n) : (t.filterMap (·[k]?)).map some = t.map (·[k]?) := by
  induction t with
  | nil => rfl
  | cons row t ih =>
    obtain ⟨hr, ht⟩ := List.forall_mem_cons.mp ht
    rw [List.filterMap_cons, List.getElem?_eq_getElem (hr ▸ hk), List.map_cons, List.map_cons, ih ht,
      List.getElem?_eq_getElem (hr ▸ hk)]

theorem entry_moveColumn (ht : Rectangular n t) {xs : List α} {a b c : Nat} (hxs : xs.map some = t.map (·[a]?))
    (hb : b < n) (hc : c < n) (r : Nat) :
    entry (insertColumn b (t.map (·.eraseIdx a)) xs) r (Positions.moved a b c) = entry t r c := by
  rw [entry, getElem?_insertColumn, List.getElem?_map, entry]
  cases hr : t[r]? with
  | none => rfl
  | some row =>
    have hl : row.length = n := ht row (List.mem_of_getElem? hr)
    have hx : (xs[r]?).map some = some (row[a]?) := by rw [← List.getElem?_map, hxs, List.getElem?_map, hr]; rfl
    obtain ⟨x, hxr, hxa⟩ := Option.map_eq_some_iff.mp hx
    rw [hxr]
    exact Positions.getElem?_move hxa.symm (hl ▸ hb) (hl ▸ hc)

/-! ## Removing by a property -/

variable {p : α → Bool}

theorem filter_entry {l : List α} (h : ∀ c x, l[c]? = some x → (p x = true ↔ c = k)) :
    l.filter (fun x => !p x) = l.eraseIdx k ∧ l.filter p = (l[k]?).toList := by
  induction l generalizing k with
  | nil => exact ⟨rfl, rfl⟩
  | cons x l ih =>
    have hx := h 0 x rfl
    cases k with
    | zero =>
      have hn : ∀ y ∈ l, p y = false := fun y hy => by
        obtain ⟨c, hc⟩ := List.getElem?_of_mem hy
        exact eq_false_of_ne_true fun hy => absurd ((h (c + 1) y hc).mp hy) (Nat.succ_ne_zero c)
      constructor
      · rw [List.filter_cons_of_neg (by simp [hx.mpr rfl]), List.filter_eq_self.mpr fun y hy => by simp [hn y hy]]
        rfl
      · rw [List.filter_cons_of_pos (hx.mpr rfl), List.filter_eq_nil_iff.mpr fun y hy => by simp [hn y hy]]
        rfl
    | succ k =>
      have hpx : p x = false := eq_false_of_ne_true fun hp => absurd (hx.mp hp) (Nat.succ_ne_zero k).symm
      obtain ⟨he, hk⟩ := @ih k fun c y hy => (h (c + 1) y hy).trans Nat.succ_inj
      constructor
      · rw [List.filter_cons_of_pos (by simp [hpx]), he]
        rfl
      · rw [List.filter_cons_of_neg (by simp [hpx]), hk]
        rfl

theorem filter_column (h : ∀ row ∈ t, ∀ c x, row[c]? = some x → (p x = true ↔ c = k)) :
    t.flatten.filter (fun x => !p x) = (t.map (·.eraseIdx k)).flatten ∧ t.flatten.filter p = t.filterMap (·[k]?) := by
  induction t with
  | nil => exact ⟨rfl, rfl⟩
  | cons row t ih =>
    obtain ⟨hr, ht⟩ := List.forall_mem_cons.mp h
    obtain ⟨he, hk⟩ := ih ht
    rw [List.flatten_cons, List.filter_append, List.filter_append, he, hk, (filter_entry hr).1, (filter_entry hr).2]
    refine ⟨rfl, ?_⟩
    rw [List.filterMap_cons]
    cases row[k]? <;> rfl

theorem filter_row (h : ∀ r row, t[r]? = some row → ∀ x ∈ row, (p x = true ↔ r = k)) :
    t.flatten.filter (fun x => !p x) = (t.eraseIdx k).flatten ∧ t.flatten.filter p = (t[k]?).getD [] := by
  induction t generalizing k with
  | nil => exact ⟨rfl, rfl⟩
  | cons row t ih =>
    have hrow := h 0 row rfl
    rw [List.flatten_cons, List.filter_append, List.filter_append]
    cases k with
    | zero =>
      have hn : ∀ x ∈ t.flatten, p x = false := fun x hx => by
        obtain ⟨row', hrow', hx⟩ := List.mem_flatten.mp hx
        obtain ⟨r, hr⟩ := List.getElem?_of_mem hrow'
        exact eq_false_of_ne_true fun hp => absurd ((h (r + 1) row' hr x hx).mp hp) (Nat.succ_ne_zero r)
      constructor
      · rw [List.filter_eq_nil_iff.mpr fun x hx => by simp [(hrow x hx).mpr rfl],
          List.filter_eq_self.mpr fun x hx => by simp [hn x hx]]
        rfl
      · rw [List.filter_eq_self.mpr fun x hx => (hrow x hx).mpr rfl,
          List.filter_eq_nil_iff.mpr fun x hx => by simp [hn x hx], List.append_nil]
        rfl
    | succ k =>
      have hn : ∀ x ∈ row, p x = false := fun x hx =>
        eq_false_of_ne_true fun hp => absurd ((hrow x hx).mp hp) (Nat.succ_ne_zero k).symm
      obtain ⟨he, hk⟩ := @ih k fun r row' hr x hx => (h (r + 1) row' hr x hx).trans Nat.succ_inj
      constructor
      · rw [List.filter_eq_self.mpr fun x hx => by simp [hn x hx], he]
        rfl
      · rw [List.filter_eq_nil_iff.mpr fun x hx => by simp [hn x hx], hk]
        rfl

end Tables
