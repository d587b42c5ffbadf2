import Mathlib.Data.List.Basic

/-!
# Maps on the natural numbers stored as runs

A list of runs `(start, value)` denotes the map that takes `k` to the value of the last run whose
start is at most `k` (`valueAt`). Appending, shifting and cutting such lists act on the map in the
expected way, whether or not the starts are sorted.
-/

namespace RunMap

variable {β : Type}

def valueAt (runs : List (ℕ × β)) (k : ℕ) : Option β :=
  ((runs.filter fun r => decide (r.1 ≤ k)).getLast?).map Prod.snd

theorem valueAt_append (a b : List (ℕ × β)) (k : ℕ) : valueAt (a ++ b) k = (valueAt b k).or (valueAt a k) := by
  unfold valueAt
  rw [List.filter_append, List.getLast?_append]
  cases (b.filter fun r => decide (r.1 ≤ k)).getLast? <;> simp

theorem valueAt_singleton (l : ℕ) (x : β) (k : ℕ) :
    valueAt [(l, x)] k = if l ≤ k then some x else none := by
  unfold valueAt
  by_cases h : l ≤ k <;> simp [h]

theorem valueAt_cons (l : ℕ) (x : β) (runs : List (ℕ × β)) (k : ℕ) :
    valueAt ((l, x) :: runs) k = (valueAt runs k).or (if l ≤ k then some x else none) := by
  rw [← List.singleton_append, valueAt_append, valueAt_singleton]

theorem valueAt_eq_none {runs : List (ℕ × β)} {k : ℕ} (h : ∀ r ∈ runs, k < r.1) : valueAt runs k = none := by
  unfold valueAt
  have : runs.filter (fun r => decide (r.1 ≤ k)) = [] := by
    rw [List.filter_eq_nil_iff]
    intro r hr
    have := h r hr
    simp only [decide_eq_true_eq]
    omega
  rw [this]
  rfl

theorem valueAt_isSome {runs : List (ℕ × β)} {k : ℕ} {r : ℕ × β} (hr : r ∈ runs) (hk : r.1 ≤ k) :
    (valueAt runs k).isSome := by
  unfold valueAt
  rw [Option.isSome_map, Option.isSome_iff_ne_none, Ne, List.getLast?_eq_none_iff, List.filter_eq_nil_iff]
  intro h
  exact h r hr (decide_eq_true hk)

theorem valueAt_map_start (runs : List (ℕ × β)) (g : ℕ → ℕ) {j k : ℕ} (h : ∀ r ∈ runs, g r.1 ≤ j ↔ r.1 ≤ k) :
    valueAt (runs.map fun r => (g r.1, r.2)) j = valueAt runs k := by
  unfold valueAt
  have hf : runs.filter ((fun r => decide (r.1 ≤ j)) ∘ fun r => (g r.1, r.2)) =
      runs.filter fun r => decide (r.1 ≤ k) := by
    apply List.filter_congr
    intro r hr
    simpa using h r hr
  rw [List.filter_map, hf, List.getLast?_map, Option.map_map]
  rfl

end RunMap
