import Mathlib.Data.List.Rotate
import Mathlib.Algebra.BigOperators.Group.List.Basic
import Mathlib.Tactic.Abel

/-!
# Cycles of a list

The pairs of neighbours of a list that is read around, from the last entry on to the first one. Sums over
them do not depend on where the list begins (`sum_pairs_of_isRotated`), and sums of differences are zero
(`sum_differences`).
-/

namespace Cycles

variable {α G : Type*}

def pairs (l : List α) : List (α × α) := l.zip (l.rotate 1)

/-- The sum along a list from `last` on, and back to `start`. -/
def along [Add G] (weight : α → α → G) (start last : α) : List α → G
  | [] => weight last start
  | a :: l => weight last a + along weight start a l

theorem pairs_cons (a : α) (l : List α) : pairs (a :: l) = (a :: l).zip (l ++ [a]) := by
  rw [pairs, List.rotate_cons_succ, List.rotate_zero]

theorem pairs_rotate (l : List α) (n : Nat) : pairs (l.rotate n) = (pairs l).rotate n := by
  have hl : l.length = (l.rotate 1).length := (List.length_rotate l 1).symm
  unfold pairs
  rw [List.rotate_rotate, Nat.add_comm n 1, ← List.rotate_rotate]
  exact (List.zipWith_rotate_distrib Prod.mk l (l.rotate 1) n hl).symm

section Sums

variable [AddCommGroup G] (weight : α → α → G)

theorem sum_zip_eq_along (start last : α) (l : List α) :
    (((last :: l).zip (l ++ [start])).map fun e => weight e.1 e.2).sum = along weight start last l := by
  induction l generalizing last with
  | nil => simp [along]
  | cons a l ih =>
    rw [List.cons_append, List.zip_cons_cons, List.map_cons, List.sum_cons, ih]
    rfl

theorem sum_pairs_cons (a : α) (l : List α) :
    ((pairs (a :: l)).map fun e => weight e.1 e.2).sum = along weight a a l := by
  rw [pairs_cons, sum_zip_eq_along]

theorem sum_pairs_of_isRotated {l l' : List α} (h : l ~r l') :
    ((pairs l').map fun e => weight e.1 e.2).sum = ((pairs l).map fun e => weight e.1 e.2).sum := by
  obtain ⟨n, rfl⟩ := h
  rw [pairs_rotate]
  exact ((List.rotate_perm _ n).map _).sum_eq

theorem along_differences (f : α → G) (start last : α) (l : List α) :
    along (fun a b => f b - f a) start last l = f start - f last := by
  induction l generalizing last with
  | nil => rfl
  | cons a l ih =>
    rw [along, ih]
    abel

theorem sum_differences (f : α → G) (l : List α) : ((pairs l).map fun e => f e.2 - f e.1).sum = 0 := by
  cases l with
  | nil => rfl
  | cons a l => rw [sum_pairs_cons fun a b => f b - f a, along_differences, sub_self]

/-- Weights that differ by differences have the same sums. -/
theorem sum_pairs_congr (weight' : α → α → G) (f : α → G) {l : List α}
    (h : ∀ e ∈ pairs l, weight e.1 e.2 = weight' e.1 e.2 + (f e.2 - f e.1)) :
    ((pairs l).map fun e => weight e.1 e.2).sum = ((pairs l).map fun e => weight' e.1 e.2).sum := by
  rw [List.map_congr_left h, List.sum_map_add, sum_differences, add_zero]

end Sums

theorem mem_of_mem_pairs {l : List α} {e : α × α} (he : e ∈ pairs l) : e.1 ∈ l ∧ e.2 ∈ l := by
  obtain ⟨hf, hs⟩ := List.of_mem_zip he
  exact ⟨hf, List.mem_rotate.mp hs⟩

end Cycles
