import Mathlib.Data.Option.Basic

/-!
# Moves inside of an array

An array is rearranged in place by moves that are made one after the other. Where no cell is written twice and none is
written before a later move reads it, they do what they would do all at once (`run_eq`).
-/

namespace InPlace

variable {α : Type*} {n : Nat}

/-- A cell is written with another one, or emptied. -/
structure Move where
  dest : Nat
  source : Option Nat
  deriving DecidableEq, Repr

/-- What a move writes. -/
def Move.value (m : Move) (empty : α) (xs : Vector α n) : Option α :=
  match m.source with
  | none => some empty
  | some k => xs[k]?

/-- Nothing where it reads or writes outside of the array. -/
def step (empty : α) (xs : Vector α n) (m : Move) : Option (Vector α n) :=
  match m.value empty xs with
  | none => none
  | some v => if h : m.dest < n then some (xs.set m.dest v) else none

def run (empty : α) (xs : Vector α n) (moves : List Move) : Option (Vector α n) := moves.foldlM (step empty) xs

/-- The later one neither writes nor reads what the first has written. -/
def Apart (first later : Move) : Prop := later.dest ≠ first.dest ∧ later.source ≠ some first.dest

def Move.Fits (n : Nat) (m : Move) : Prop := m.dest < n ∧ ∀ k ∈ m.source, k < n

variable {empty : α} {xs : Vector α n}

theorem step_eq (empty : α) (xs : Vector α n) {m : Move} (hf : m.Fits n) :
    ∃ ys, step empty xs m = some ys ∧ ys[m.dest]? = m.value empty xs ∧ ∀ k ≠ m.dest, ys[k]? = xs[k]? := by
  obtain ⟨hd, hs⟩ := hf
  have hval : ∃ v, m.value empty xs = some v := by
    unfold Move.value
    cases hsrc : m.source with
    | none => exact ⟨empty, rfl⟩
    | some k => exact ⟨_, Vector.getElem?_eq_getElem (hs k hsrc)⟩
  obtain ⟨v, hv⟩ := hval
  refine ⟨xs.set m.dest v, ?_, ?_, fun k hk => ?_⟩
  · rw [step, hv]
    exact dif_pos hd
  · rw [Vector.getElem?_set_self, hv]
  · rw [Vector.getElem?_set_ne _ (Ne.symm hk)]

theorem value_congr {ys : Vector α n} {m : Move} (h : ∀ k ∈ m.source, ys[k]? = xs[k]?) :
    m.value empty ys = m.value empty xs := by
  unfold Move.value
  cases hs : m.source with
  | none => rfl
  | some k => exact h k hs

/-- Each move writes what there was before all of them. -/
theorem run_eq (empty : α) (xs : Vector α n) {moves : List Move} (ha : moves.Pairwise Apart)
    (hf : ∀ m ∈ moves, m.Fits n) : ∃ ys, run empty xs moves = some ys ∧ (∀ m ∈ moves, ys[m.dest]? = m.value empty xs) ∧
      ∀ k, (∀ m ∈ moves, k ≠ m.dest) → ys[k]? = xs[k]? := by
  induction moves generalizing xs with
  | nil =>
    refine ⟨xs, rfl, ?_, fun k _ => rfl⟩
    intro m hm
    exact absurd hm List.not_mem_nil
  | cons m moves ih =>
    obtain ⟨hm, ha⟩ := List.pairwise_cons.mp ha
    obtain ⟨xs', hs, hsl, hfr⟩ := step_eq empty xs (hf m List.mem_cons_self)
    obtain ⟨ys, hrun, hw, hr⟩ := ih xs' ha fun m' hm' => hf m' (List.mem_cons_of_mem _ hm')
    refine ⟨ys, ?_, ?_, ?_⟩
    · rw [run, List.foldlM_cons, hs]
      exact hrun
    · intro m' hm'
      rcases List.mem_cons.mp hm' with rfl | hm'
      · rw [hr m'.dest fun later hlt => (hm later hlt).1.symm, hsl]
      · rw [hw m' hm']
        refine value_congr fun k hk => hfr k ?_
        rintro rfl
        exact (hm m' hm').2 hk
    · intro k hk
      rw [hr k fun later hlt => hk later (List.mem_cons_of_mem _ hlt)]
      exact hfr k (hk m List.mem_cons_self)

end InPlace
