import Mathlib.Data.List.InsertIdx
import Mathlib.Data.List.Nodup

/-!
# Positions in a list

Operations at a position of a list whose two sides are known, where moving one element takes the
others (`getElem?_move`), the position of an element (`idxOf?_eq_some`), and reinserting an element
next to another one (`insertBefore`, `insertAfter`): removing at one position and inserting at
another, with the second corrected for the removal, is taking the element out and putting it back
next to the other.
-/

namespace Positions

variable {α : Type*}

/-! ## Between two sides -/

theorem getElem?_at (pre : List α) (x : α) (post : List α) :
    (pre ++ x :: post)[pre.length]? = some x := by simp

theorem modify_at (pre : List α) (x : α) (post : List α) (g : α → α) :
    (pre ++ x :: post).modify pre.length g = pre ++ g x :: post := by
  induction pre with
  | nil => rfl
  | cons a pre ih => simpa using ih

theorem set_at (pre : List α) (x y : α) (post : List α) :
    (pre ++ x :: post).set pre.length y = pre ++ y :: post := by simp

theorem insertIdx_at (pre post : List α) (x : α) : (pre ++ post).insertIdx pre.length x = pre ++ x :: post := by
  induction pre with
  | nil => simp
  | cons a pre ih => simpa using ih

theorem insertIdx_after (pre : List α) (x y : α) (post : List α) :
    (pre ++ x :: post).insertIdx (pre.length + 1) y = pre ++ x :: y :: post := by
  induction pre with
  | nil => rfl
  | cons a pre ih => simpa using ih

theorem eraseIdx_at (pre : List α) (x : α) (post : List α) : (pre ++ x :: post).eraseIdx pre.length = pre ++ post := by
  induction pre with
  | nil => rfl
  | cons a pre ih => simpa using ih

/-! ## Moving an element -/

/-- Where the element at `i` stands once the one at `a` has been taken out and put back at `b`. -/
def moved (a b i : Nat) : Nat :=
  if i = a then b else if a < i ∧ i ≤ b then i - 1 else if b ≤ i ∧ i < a then i + 1 else i

theorem moved_lt {a b i n : Nat} (ha : a < n) (hb : b < n) (hi : i < n) : moved a b i < n := by
  unfold moved
  split_ifs <;> omega

theorem moved_moved (a b i : Nat) : moved b a (moved a b i) = i := by
  unfold moved
  split_ifs <;> omega

variable {l : List α}

theorem length_move {a b : Nat} {x : α} (ha : a < l.length) (hb : b < l.length) :
    ((l.eraseIdx a).insertIdx b x).length = l.length := by
  rw [List.length_insertIdx, List.length_eraseIdx_of_lt ha]
  split <;> omega

theorem getElem?_move {a b i : Nat} {x : α} (hx : l[a]? = some x) (hb : b < l.length)
    (hi : i < l.length) : ((l.eraseIdx a).insertIdx b x)[moved a b i]? = l[i]? := by
  have ha : a < l.length := (List.getElem?_eq_some_iff.1 hx).1
  rw [List.getElem?_insertIdx, List.length_eraseIdx_of_lt ha]
  by_cases hia : i = a
  · subst hia
    have hle : b ≤ l.length - 1 := by omega
    simp [moved, hle, hx]
  · have hne : moved a b i ≠ b := by
      unfold moved
      split_ifs <;> omega
    simp only [hne, if_false, List.getElem?_eraseIdx]
    unfold moved
    split_ifs <;> first | rfl | omega | (congr 1; omega)

/-! ## The position of an element -/

variable [DecidableEq α]

theorem idxOf?_eq_some {x : α} {i : Nat} (h : l.idxOf? x = some i) :
    ∃ pre post, l = pre ++ x :: post ∧ i = pre.length ∧ x ∉ pre := by
  induction l generalizing i with
  | nil => simp at h
  | cons a l ih =>
    rw [List.idxOf?_cons] at h
    by_cases ha : a = x
    · subst ha
      simp only [beq_self_eq_true, if_true, Option.some.injEq] at h
      exact ⟨[], l, rfl, h.symm, by simp⟩
    · simp only [beq_iff_eq, ha, if_false, Option.map_eq_some_iff] at h
      obtain ⟨j, hj, rfl⟩ := h
      obtain ⟨pre, post, rfl, rfl, hp⟩ := ih hj
      refine ⟨a :: pre, post, rfl, rfl, ?_⟩
      rw [List.mem_cons]
      rintro (h | h)
      · exact ha h.symm
      · exact hp h

/-! ## Next to an element -/

/-- Put `x` right before the first `y`. -/
def insertBefore (x y : α) : List α → List α
  | [] => []
  | a :: l => if a = y then x :: a :: l else a :: insertBefore x y l

/-- Put `x` right after the first `y`. -/
def insertAfter (x y : α) : List α → List α
  | [] => []
  | a :: l => if a = y then a :: x :: l else a :: insertAfter x y l

variable {x y : α}

theorem insertBefore_at {pre post : List α} (h : y ∉ pre) :
    insertBefore x y (pre ++ y :: post) = pre ++ x :: y :: post := by
  induction pre with
  | nil => simp [insertBefore]
  | cons a pre ih =>
    rw [List.mem_cons, not_or] at h
    simp only [List.cons_append, insertBefore, Ne.symm h.1, if_false, ih h.2]

theorem insertAfter_at {pre post : List α} (h : y ∉ pre) :
    insertAfter x y (pre ++ y :: post) = pre ++ y :: x :: post := by
  induction pre with
  | nil => simp [insertAfter]
  | cons a pre ih =>
    rw [List.mem_cons, not_or] at h
    simp only [List.cons_append, insertAfter, Ne.symm h.1, if_false, ih h.2]

/-- Two different elements of a list: what is left of it without the first of them, and where the
other then is. -/
theorem eraseIdx_other {i j : Nat} (hx : l.idxOf? x = some i)
    (hy : l.idxOf? y = some j) (hne : x ≠ y) :
    ∃ pre post, l.eraseIdx i = pre ++ y :: post ∧ l.erase x = pre ++ y :: post ∧ y ∉ pre ∧
      (if i < j then j - 1 else j) = pre.length := by
  obtain ⟨a, b, rfl, rfl, ha⟩ := idxOf?_eq_some hx
  obtain ⟨c, d, he, rfl, hc⟩ := idxOf?_eq_some hy
  rw [eraseIdx_at, List.erase_append_right _ ha, List.erase_cons_head]
  rcases List.append_eq_append_iff.mp he with ⟨t, rfl, hb⟩ | ⟨t, rfl, hd⟩
  · -- `y` is behind `x`
    cases t with
    | nil =>
      simp only [List.nil_append, List.cons.injEq] at hb
      exact absurd hb.1 hne
    | cons z t =>
      obtain ⟨rfl, rfl⟩ := List.cons.inj hb
      refine ⟨a ++ t, d, by simp, by simp, ?_, ?_⟩
      · simp only [List.mem_append, List.mem_cons, not_or] at hc ⊢
        exact ⟨hc.1, hc.2.2⟩
      · simp only [List.length_append, List.length_cons]
        split <;> omega
  · -- `y` is before `x`
    cases t with
    | nil =>
      simp only [List.nil_append, List.cons.injEq] at hd
      exact absurd hd.1.symm hne
    | cons z t =>
      obtain ⟨rfl, rfl⟩ := List.cons.inj hd
      refine ⟨c, t ++ b, by simp, by simp, hc, ?_⟩
      rw [if_neg]
      simp only [List.length_append, List.length_cons]
      omega

theorem move_before {i j : Nat} (hx : l.idxOf? x = some i)
    (hy : l.idxOf? y = some j) (hne : x ≠ y) :
    (l.eraseIdx i).insertIdx (if i < j then j - 1 else j) x = insertBefore x y (l.erase x) := by
  obtain ⟨pre, post, h1, h2, h3, h4⟩ := eraseIdx_other hx hy hne
  rw [h1, h2, h4, insertBefore_at h3, insertIdx_at]

theorem move_after {i j : Nat} (hx : l.idxOf? x = some i)
    (hy : l.idxOf? y = some j) (hne : x ≠ y) :
    (l.eraseIdx i).insertIdx ((if i < j then j - 1 else j) + 1) x = insertAfter x y (l.erase x) := by
  obtain ⟨pre, post, h1, h2, h3, h4⟩ := eraseIdx_other hx hy hne
  rw [h1, h2, h4, insertAfter_at h3, insertIdx_after]

theorem move_self {x : α} {i : Nat} (hx : l.idxOf? x = some i) : (l.eraseIdx i).insertIdx i x = l := by
  obtain ⟨pre, post, rfl, rfl, -⟩ := idxOf?_eq_some hx
  rw [eraseIdx_at, insertIdx_at]

end Positions
