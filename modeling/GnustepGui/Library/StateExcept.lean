import Mathlib.Tactic.Common

/-!
# Programs with state and exceptions

Rules for running a program of `EStateM`, whose exceptions keep the state reached: one for a bind
whose first part returned, one for a bind whose first part raised, and their converse
(`bind_eq_ok`).
-/

namespace StateExcept

variable {ε σ α β : Type} {s s' : σ}

variable {x : EStateM ε σ α} {k : α → EStateM ε σ β}

theorem bind_ok {a : α} (h : x s = .ok a s') : (x >>= k) s = k a s' := by
  show EStateM.bind x k s = _
  unfold EStateM.bind
  rw [h]

theorem bind_error {e : ε} (h : x s = .error e s') : (x >>= k) s = .error e s' := by
  show EStateM.bind x k s = _
  unfold EStateM.bind
  rw [h]

theorem get_bind (k : σ → EStateM ε σ β) : ((get : EStateM ε σ σ) >>= k) s = k s s := rfl

theorem modify_bind (g : σ → σ) (k : Unit → EStateM ε σ β) :
    ((modify g : EStateM ε σ Unit) >>= k) s = k () (g s) := rfl

theorem pure_run (a : α) : (pure a : EStateM ε σ α) s = .ok a s := rfl

theorem modify_run (g : σ → σ) : (modify g : EStateM ε σ Unit) s = .ok () (g s) := rfl

theorem bind_eq_ok {b : β} (h : (x >>= k) s = .ok b s') : ∃ a s1, x s = .ok a s1 ∧ k a s1 = .ok b s' := by
  cases hx : x s with
  | ok a s1 =>
    rw [bind_ok hx] at h
    exact ⟨a, s1, rfl, h⟩
  | error e s1 =>
    rw [bind_error hx] at h
    cases h

theorem bind_eq_ok_iff {b : β} : (x >>= k) s = .ok b s' ↔ ∃ a s1, x s = .ok a s1 ∧ k a s1 = .ok b s' := by
  constructor
  · exact bind_eq_ok
  · rintro ⟨a, s1, hx, hk⟩
    rw [bind_ok hx, hk]

theorem pure_eq_ok_iff {a b : α} : (pure a : EStateM ε σ α) s = .ok b s' ↔ b = a ∧ s' = s := by
  rw [pure_run]
  constructor
  · intro h
    cases h
    exact ⟨rfl, rfl⟩
  · rintro ⟨rfl, rfl⟩
    rfl

theorem throw_ne_ok {e : ε} {a : α} : (throw e : EStateM ε σ α) s ≠ .ok a s' := by
  intro h
  cases h

/-! ## Results -/

/-- The state a program ended in, returned or raised. -/
def stateOf : EStateM.Result ε σ α → σ
  | .ok _ s => s
  | .error _ s => s

def returned : EStateM.Result ε σ α → Bool
  | .ok _ _ => true
  | .error _ _ => false

theorem eq_ok_of_returned {r : EStateM.Result ε σ Unit} (h : returned r = true) : r = .ok () (stateOf r) := by
  cases r with
  | ok u s => rfl
  | error e s => cases h

theorem stateOf_of_ok {r : EStateM.Result ε σ α} {a : α} (h : r = .ok a s) : s = stateOf r := by
  rw [h]
  rfl

/-! ## Exceptions -/

/-- From the state `s` the program raises exceptions that satisfy `allowed` alone. -/
def RaisesOnly (allowed : ε → Prop) (x : EStateM ε σ α) (s : σ) : Prop :=
  ∀ e s', x s = .error e s' → allowed e

variable {allowed : ε → Prop}

theorem RaisesOnly.bind (hx : RaisesOnly allowed x s)
    (hk : ∀ a s', x s = .ok a s' → RaisesOnly allowed (k a) s') : RaisesOnly allowed (x >>= k) s := by
  intro e s' h
  cases hx' : x s with
  | ok a s₁ =>
    rw [bind_ok hx'] at h
    exact hk a s₁ hx' e s' h
  | error e' s₁ =>
    rw [bind_error hx'] at h
    cases h
    exact hx _ _ hx'

theorem RaisesOnly.pure (a : α) : RaisesOnly allowed (Pure.pure a : EStateM ε σ α) s := nofun

theorem RaisesOnly.throw {e : ε} (h : allowed e) : RaisesOnly allowed (MonadExcept.throw e : EStateM ε σ α) s := by
  intro e' s' he
  cases he
  exact h

theorem RaisesOnly.get : RaisesOnly allowed (MonadState.get : EStateM ε σ σ) s := nofun

theorem RaisesOnly.modify (g : σ → σ) : RaisesOnly allowed (modify g : EStateM ε σ Unit) s := nofun

end StateExcept
