import Mathlib

/-!
# Searching a list for the least key

`argMin p key l` walks a list once and keeps the first element with the least key among those that
satisfy `p`. A search written as a fold with a mutable minimum is this function.
-/

namespace ArgMin

variable {α K : Type*} [LinearOrder K] (p : α → Prop) [DecidablePred p] (key : α → K)

/-- One turn: a smaller key replaces the best one so far, an equal key does not. -/
def step (best : Option (α × K)) (a : α) : Option (α × K) :=
  if p a then if best.elim true fun b => key a < b.2 then some (a, key a) else best else best

def argMin (l : List α) : Option (α × K) := l.foldl (step p key) none

variable {p key}

variable (p key) in
theorem foldl_step (l : List α) : ∀ best : Option (α × K),
    match l.foldl (step p key) best with
    | some (a, k) => (best = some (a, k) ∨ (a ∈ l ∧ p a ∧ k = key a)) ∧
        (∀ b ∈ l, p b → k ≤ key b) ∧ ∀ c, best = some c → k ≤ c.2
    | none => best = none ∧ ∀ b ∈ l, ¬ p b := by
  induction l with
  | nil =>
    intro best
    cases best with
    | none => simp
    | some c => simp
  | cons x l ih =>
    intro best
    have h := ih (step p key best x)
    rw [List.foldl_cons]
    -- what the step kept: the candidate before it, or the new element
    have hs : (step p key best x = best ∧ (p x → ∃ c, best = some c ∧ c.2 ≤ key x)) ∨
        (step p key best x = some (x, key x) ∧ p x ∧ ∀ c, best = some c → key x ≤ c.2) := by
      unfold step
      by_cases hp : p x
      · rw [if_pos hp]
        cases best with
        | none => simp [hp]
        | some c =>
          by_cases hlt : key x < c.2
          · simp [hlt, hp, le_of_lt hlt]
          · simp [hlt, not_lt.mp hlt]
      · simp [hp]
    cases hres : l.foldl (step p key) (step p key best x) with
    | none =>
      rw [hres] at h
      simp only at h ⊢
      rcases hs with ⟨he, hx⟩ | ⟨he, -, -⟩
      · rw [he] at h
        refine ⟨h.1, fun b hb => ?_⟩
        rcases List.mem_cons.mp hb with rfl | hb
        · intro hp
          obtain ⟨c, hc, -⟩ := hx hp
          rw [h.1] at hc
          simp at hc
        · exact h.2 b hb
      · rw [he] at h
        simp at h
    | some best' =>
      obtain ⟨a, k⟩ := best'
      rw [hres] at h
      simp only at h ⊢
      obtain ⟨h1, h2, h3⟩ := h
      rcases hs with ⟨he, hx⟩ | ⟨he, hp, hx⟩
      · rw [he] at h1 h3
        refine ⟨h1.imp id fun ⟨hm, hr⟩ => ⟨List.mem_cons_of_mem _ hm, hr⟩, fun b hb hpb => ?_, h3⟩
        rcases List.mem_cons.mp hb with rfl | hb
        · obtain ⟨c, hc, hle⟩ := hx hpb
          exact le_trans (h3 c hc) hle
        · exact h2 b hb hpb
      · rw [he] at h1 h3
        have hk : k ≤ key x := h3 (x, key x) rfl
        refine ⟨Or.inr ?_, fun b hb hpb => ?_, fun c hc => le_trans hk (hx c hc)⟩
        · rcases h1 with h1 | ⟨hm, hr⟩
          · have h1 := Option.some.inj h1
            obtain ⟨rfl, rfl⟩ := Prod.mk.inj h1
            exact ⟨List.mem_cons_self, hp, rfl⟩
          · exact ⟨List.mem_cons_of_mem _ hm, hr⟩
        · rcases List.mem_cons.mp hb with rfl | hb
          · exact hk
          · exact h2 b hb hpb

theorem argMin_some {l : List α} {a : α} {k : K} (h : argMin p key l = some (a, k)) :
    a ∈ l ∧ p a ∧ k = key a ∧ ∀ b ∈ l, p b → key a ≤ key b := by
  have hf := foldl_step p key l none
  unfold argMin at h
  rw [h] at hf
  simp only at hf
  obtain ⟨h1, h2, -⟩ := hf
  rcases h1 with h1 | ⟨hm, hp, rfl⟩
  · simp at h1
  · exact ⟨hm, hp, rfl, h2⟩

theorem argMin_none {l : List α} (h : argMin p key l = none) : ∀ b ∈ l, ¬ p b := by
  have hf := foldl_step p key l none
  unfold argMin at h
  rw [h] at hf
  exact hf.2

end ArgMin
