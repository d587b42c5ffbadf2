import GnustepGui.Library.Dictionary

/-!
# Feasible dictionaries

Some variables are `slack` (to be non-negative), some `dummy` (to be zero), and the rows of the
`objective` variables are to be minimised. `Tidy S D` is the state the simplex method keeps: rows of
restricted and of objective variables mention restricted variables only, a slack row has a
non-negative constant, a dummy row is a combination of dummies. A pivot by the ratio test keeps it
(`Tidy.pivot`), and a minimised objective row has the least value in its constant (`const_le`).
-/

namespace Simplex

open Form Dictionary

/-- The roles of the variables; one in no role may take any value. -/
structure Signs (V : Type*) where
  slack : V → Prop
  dummy : V → Prop
  objective : V → Prop
  slack_not_dummy : ∀ v, slack v → ¬ dummy v
  objective_free : ∀ v, objective v → ¬ slack v ∧ ¬ dummy v

namespace Signs

variable {V K : Type*} (S : Signs V)

def Restricted (v : V) : Prop := S.slack v ∨ S.dummy v

/-- The rows that mention restricted variables only. -/
def Closed (v : V) : Prop := S.Restricted v ∨ S.objective v

def Feasible [Field K] [LinearOrder K] (σ : V → K) : Prop :=
  (∀ v, S.slack v → 0 ≤ σ v) ∧ ∀ v, S.dummy v → σ v = 0

end Signs

variable {V K : Type*} [Field K] [LinearOrder K] [IsStrictOrderedRing K] {S : Signs V}
  {D : Dictionary V K} {σ : V → K} {f g : Form V K} {v : V}

structure Tidy (S : Signs V) (D : Dictionary V K) : Prop where
  canonical : D.Canonical
  closed : ∀ r f, D r = some f → S.Closed r → ∀ v, f.2 v ≠ 0 → S.Restricted v
  slackRow : ∀ r f, D r = some f → S.slack r → 0 ≤ f.1
  dummyRow : ∀ r f, D r = some f → S.dummy r → f.1 = 0 ∧ ∀ v, f.2 v ≠ 0 → S.dummy v

omit [IsStrictOrderedRing K] in
theorem Tidy.feasible_basic (h : Tidy S D) : S.Feasible D.basic := by
  refine ⟨fun v hv => ?_, fun v hv => ?_⟩
  · cases hD : D v with
    | none => rw [basic_nonbasic hD]
    | some f => rw [basic_row hD]; exact h.slackRow v f hD hv
  · cases hD : D v with
    | none => exact basic_nonbasic hD
    | some f => rw [basic_row hD]; exact (h.dummyRow v f hD hv).1

/-- An objective row without negative coefficients is minimal at its constant. -/
theorem const_le (hr : ∀ v, f.2 v ≠ 0 → S.Restricted v) (hp : ∀ v, S.slack v → 0 ≤ f.2 v)
    (hσ : S.Feasible σ) : f.1 ≤ eval σ f := by
  rw [eval_eq, le_add_iff_nonneg_right]
  refine Finset.sum_nonneg fun v hv => ?_
  rcases hr v (Finsupp.mem_support_iff.mp hv) with hs | hd
  · exact mul_nonneg (hp v hs) (hσ.1 v hs)
  · simp [hσ.2 v hd]

omit [IsStrictOrderedRing K] in
theorem Tidy.clear (h : Tidy S D) (v : V) : Tidy S (D.clear v) := by
  refine ⟨h.canonical.clear v, fun r g hr hc w hw => ?_, fun r g hr hs => ?_, fun r g hr hd => ?_⟩
  · obtain ⟨f, hf, rfl⟩ := clear_eq_some hr
    exact h.closed r f hf hc w (erase_coeff_ne_zero hw).2
  · obtain ⟨f, hf, rfl⟩ := clear_eq_some hr
    exact h.slackRow r f hf hs
  · obtain ⟨f, hf, rfl⟩ := clear_eq_some hr
    obtain ⟨h0, ht⟩ := h.dummyRow r f hf hd
    exact ⟨h0, fun w hw => ht w (erase_coeff_ne_zero hw).2⟩

variable [DecidableEq V]

section

omit [IsStrictOrderedRing K]

theorem Tidy.erase (h : Tidy S D) (r : V) : Tidy S (D.erase r) where
  canonical := h.canonical.erase r
  closed w f hw := h.closed w f (erase_eq_some hw).2
  slackRow w f hw := h.slackRow w f (erase_eq_some hw).2
  dummyRow w f hw := h.dummyRow w f (erase_eq_some hw).2

theorem Tidy.of_erase (h : Tidy S (D.erase v)) (hD : D.Canonical) (hv : D v = some f)
    (hc : S.Closed v → ∀ w, f.2 w ≠ 0 → S.Restricted w) (hs : S.slack v → 0 ≤ f.1)
    (hd : S.dummy v → f.1 = 0 ∧ ∀ w, f.2 w ≠ 0 → S.dummy w) : Tidy S D := by
  have hrow : ∀ r g, D r = some g → (r = v ∧ g = f) ∨ D.erase v r = some g := by
    intro r g hr
    by_cases hrv : r = v
    · subst hrv
      rw [hv] at hr
      exact Or.inl ⟨rfl, (Option.some.inj hr).symm⟩
    · exact Or.inr (by rwa [erase_ne hrv])
  refine ⟨hD, fun r g hr => ?_, fun r g hr => ?_, fun r g hr => ?_⟩
  · rcases hrow r g hr with ⟨rfl, rfl⟩ | hr'
    · exact hc
    · exact h.closed r g hr'
  · rcases hrow r g hr with ⟨rfl, rfl⟩ | hr'
    · exact hs
    · exact h.slackRow r g hr'
  · rcases hrow r g hr with ⟨rfl, rfl⟩ | hr'
    · exact hd
    · exact h.dummyRow r g hr'

/-! ## Adding a row -/

theorem Tidy.addRow (h : Tidy S D) (hv : D v = none) (hf : ∀ w, f.2 w ≠ 0 → D w = none)
    (hsl : f.2 v = 0) (hu : ∀ r g, D r = some g → S.Restricted r → g.2 v = 0)
    (hobj : (∀ w, f.2 w ≠ 0 → S.Restricted w) ∨ ∀ r g, D r = some g → S.objective r → g.2 v = 0)
    (hclo : S.Closed v → ∀ w, f.2 w ≠ 0 → S.Restricted w) (hsk : S.slack v → 0 ≤ f.1)
    (hdum : S.dummy v → f.1 = 0 ∧ ∀ w, f.2 w ≠ 0 → S.dummy w) : Tidy S (D.addRow v f) := by
  have hrow : ∀ r g, D.addRow v f r = some g → S.Restricted r → (r = v ∧ g = f) ∨ D r = some g := by
    intro r g hr hres
    rcases addRow_eq_some hr with h1 | ⟨-, g', hg', rfl⟩
    · exact Or.inl h1
    · rw [substitute_of_coeff_eq_zero f (hu r g' hg' hres)]
      exact Or.inr hg'
  refine ⟨h.canonical.addRow hv hf hsl, fun r g hr hc w hw => ?_, fun r g hr hs => ?_, fun r g hr hd => ?_⟩
  · rcases addRow_eq_some hr with ⟨rfl, rfl⟩ | ⟨hrv, g', hg', rfl⟩
    · exact hclo hc w hw
    · obtain ⟨-, h1 | ⟨h1, h2⟩⟩ := substitute_coeff_ne_zero hsl hw
      · exact h.closed r g' hg' hc w h1
      · rcases hobj with hobj | hobj
        · exact hobj w h2
        · rcases hc with hres | ho
          · exact absurd (hu r g' hg' hres) h1
          · exact absurd (hobj r g' hg' ho) h1
  · rcases hrow r g hr (Or.inl hs) with ⟨rfl, rfl⟩ | hg
    · exact hsk hs
    · exact h.slackRow r g hg hs
  · rcases hrow r g hr (Or.inr hd) with ⟨rfl, rfl⟩ | hg
    · exact hdum hd
    · exact h.dummyRow r g hg hd

end

/-! ## Pivoting -/

section Pivot

variable {entry exit : V}

omit [IsStrictOrderedRing K] in
theorem Tidy.pivot_erase (h : Tidy S D) (hp : CanPivot D entry exit f) (hexit : S.Restricted exit)
    (hcon : ∀ r g, D r = some g → S.slack r → r ≠ exit → 0 ≤ g.1 + g.2 entry * (-f.1 / f.2 entry))
    (hdum : S.dummy exit ∨ ∀ r g, D r = some g → S.dummy r → g.2 entry = 0) :
    Tidy S ((D.pivot entry exit f).erase entry) := by
  have hsol : ∀ w, (solveFor exit entry f).2 w ≠ 0 → S.Restricted w := by
    intro w hw
    rcases solveFor_coeff_ne_zero hp.coeff hp.exit_ne_entry hw with rfl | ⟨-, hw⟩
    · exact hexit
    · exact h.closed exit f hp.row (Or.inl hexit) w hw
  have hsl := solveFor_coeff_self hp.coeff hp.exit_ne_entry
  have hrow : ∀ r g, (D.pivot entry exit f).erase entry r = some g → r ≠ exit ∧
      ∃ g', D r = some g' ∧ g = substitute entry (solveFor exit entry f) g' := by
    intro r g hr
    obtain ⟨hne, hr'⟩ := erase_eq_some hr
    rcases pivot_row hr' with ⟨he, -⟩ | ⟨-, hx, hg⟩
    · exact absurd he hne
    · exact ⟨hx, hg⟩
  refine ⟨hp.canonical_pivot.erase entry, fun r g hr hc w hw => ?_, fun r g hr hs => ?_, fun r g hr hd => ?_⟩
  · obtain ⟨-, g', hg', rfl⟩ := hrow r g hr
    obtain ⟨-, h1 | ⟨-, h1⟩⟩ := substitute_coeff_ne_zero hsl hw
    · exact h.closed r g' hg' hc w h1
    · exact hsol w h1
  · obtain ⟨hx, g', hg', rfl⟩ := hrow r g hr
    rw [substitute_const, solveFor_const]
    exact hcon r g' hg' hs hx
  · obtain ⟨-, g', hg', rfl⟩ := hrow r g hr
    obtain ⟨h0, ht⟩ := h.dummyRow r g' hg' hd
    rcases hdum with hxd | hu
    · obtain ⟨hf0, hft⟩ := h.dummyRow exit f hp.row hxd
      refine ⟨by rw [substitute_const, solveFor_const, h0, hf0]; simp, fun w hw => ?_⟩
      obtain ⟨-, h1 | ⟨-, h1⟩⟩ := substitute_coeff_ne_zero hsl hw
      · exact ht w h1
      · rcases solveFor_coeff_ne_zero hp.coeff hp.exit_ne_entry h1 with rfl | ⟨-, h1⟩
        · exact hxd
        · exact hft w h1
    · rw [substitute_of_coeff_eq_zero _ (hu r g' hg' hd)]
      exact ⟨h0, ht⟩

omit [IsStrictOrderedRing K] in
theorem Tidy.pivot (h : Tidy S D) (hp : CanPivot D entry exit f) (he : S.slack entry)
    (hexit : S.slack exit) (hle : 0 ≤ -f.1 / f.2 entry) (hc : ∀ r g, D r = some g → S.slack r → r ≠ exit →
      0 ≤ g.1 + g.2 entry * (-f.1 / f.2 entry)) : Tidy S (D.pivot entry exit f) := by
  have hn : ∀ r g, D r = some g → S.dummy r → g.2 entry = 0 := by
    intro r g hr hd
    by_contra hne
    exact S.slack_not_dummy entry he ((h.dummyRow r g hr hd).2 entry hne)
  refine (h.pivot_erase hp (Or.inl hexit) hc (Or.inr hn)).of_erase hp.canonical_pivot
    pivot_entry (fun _ w hw => ?_) (fun _ => by rwa [solveFor_const])
    (fun hd => absurd hd (S.slack_not_dummy entry he))
  rcases solveFor_coeff_ne_zero hp.coeff hp.exit_ne_entry hw with rfl | ⟨-, hw⟩
  · exact Or.inl hexit
  · exact h.closed exit f hp.row (Or.inl (Or.inl hexit)) w hw

theorem ratio_test {c a c' a' : K} (hc : 0 ≤ c')
    (hr : a' < 0 → -c / a ≤ -c' / a') (hle : 0 ≤ -c / a) : 0 ≤ c' + a' * (-c / a) := by
  rcases lt_or_ge a' 0 with ha' | ha'
  · have h1 := mul_le_mul_of_nonpos_left (hr ha') ha'.le
    have h2 : a' * (-c' / a') = -c' := mul_div_cancel₀ _ ha'.ne
    linarith
  · have := mul_nonneg ha' hle
    linarith

omit [IsStrictOrderedRing K] in
theorem Tidy.pivot_free (h : Tidy S D) (hp : CanPivot D entry exit f)
    (hu : ∀ r g, D r = some g → S.Closed r → g.2 entry = 0) : Tidy S ((D.pivot entry exit f).erase entry) := by
  have hrow : ∀ r g, (D.pivot entry exit f).erase entry r = some g → S.Closed r → D r = some g := by
    intro r g hr hc
    obtain ⟨hne, hr'⟩ := erase_eq_some hr
    rcases pivot_row hr' with ⟨he, -⟩ | ⟨-, hx, g', hg', rfl⟩
    · exact absurd he hne
    · rwa [substitute_of_coeff_eq_zero _ (hu r g' hg' hc)]
  refine ⟨hp.canonical_pivot.erase entry, fun r g hr hc => h.closed r g (hrow r g hr hc) hc,
    fun r g hr hs => h.slackRow r g (hrow r g hr (Or.inl (Or.inl hs))) hs,
    fun r g hr hd => h.dummyRow r g (hrow r g hr (Or.inl (Or.inr hd))) hd⟩

end Pivot

end Simplex
