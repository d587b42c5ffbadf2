import Mathlib.Order.Basic

/-!
# Runs of calls that may raise

A call gives the next state, or nothing where it raises. Conditions on the single calls of a run are compared along
the whole run (`each_iff`).
-/

namespace CallRuns

variable {S C : Type*} (perform : S → C → Option S)

/-- Every call of the run is made on a state with which it is in this relation. -/
def Each (P : S → C → Prop) : S → List C → Prop
  | _, [] => True
  | state, call :: calls => P state call ∧ ∀ state' ∈ perform state call, Each P state' calls

variable {perform} {Inv : S → Prop} {Valid P Q : S → C → Prop}

/-- Two conditions that come to the same on states with an invariant, which one of them keeps. -/
theorem each_iff (hi : ∀ state call, Inv state → Valid state call → (P state call ↔ Q state call))
    (hk : ∀ state call, P state call → ∀ state' ∈ perform state call, Inv state') {start : S} (hs : Inv start)
    {calls : List C} (hv : Each perform Valid start calls) :
    Each perform P start calls ↔ Each perform Q start calls := by
  induction calls generalizing start with
  | nil => exact Iff.rfl
  | cons call calls ih =>
    obtain ⟨hcl, hc⟩ := hv
    have hf := hi start call hs hcl
    constructor
    · rintro ⟨hp, hr⟩
      refine ⟨hf.mp hp, fun state' hstate' => ?_⟩
      exact (ih (hk start call hp state' hstate') (hc state' hstate')).mp (hr state' hstate')
    · rintro ⟨hq, hr⟩
      have hp := hf.mpr hq
      refine ⟨hp, fun state' hstate' => ?_⟩
      exact (ih (hk start call hp state' hstate') (hc state' hstate')).mpr (hr state' hstate')

end CallRuns
