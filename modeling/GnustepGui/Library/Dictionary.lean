import GnustepGui.Library.AffineForm

/-!
# Dictionaries of the simplex method

A dictionary gives some variables, the basic ones, a form; it is canonical when the forms mention no basic variable.
`Solution D σ` says that `σ` satisfies every row.
-/

namespace Simplex

open Form

variable {V K : Type*} [Field K]

abbrev Dictionary (V K : Type*) [Field K] := V → Option (Form V K)

namespace Dictionary

/-- The forms mention no basic variable. -/
def Canonical (D : Dictionary V K) : Prop :=
  ∀ r f, D r = some f → ∀ v, f.2 v ≠ 0 → D v = none

def Solution (D : Dictionary V K) (σ : V → K) : Prop := ∀ r f, D r = some f → σ r = eval σ f

/-- The variable is basic or occurs in a form. -/
def Mentions (D : Dictionary V K) (v : V) : Prop :=
  (∃ f, D v = some f) ∨ ∃ r f, D r = some f ∧ f.2 v ≠ 0

variable {D : Dictionary V K} {σ τ : V → K} {r v : V} {f g : Form V K}

/-- The solution with given values of the variables that are not basic. -/
noncomputable def extend (D : Dictionary V K) (τ : V → K) : V → K :=
  fun v => (D v).elim (τ v) fun f => eval τ f

theorem extend_nonbasic (h : D v = none) : D.extend τ v = τ v := by
  unfold extend
  rw [h]
  rfl

theorem extend_basic (h : D v = some f) : D.extend τ v = eval τ f := by
  unfold extend
  rw [h]
  rfl

theorem Canonical.solution_extend (hD : D.Canonical) (τ : V → K) : D.Solution (D.extend τ) := by
  intro r f hr
  rw [extend_basic hr]
  exact eval_congr fun v hv => (extend_nonbasic (hD r f hr v hv)).symm

/-- Two solutions that agree where the variables are free are equal. -/
theorem Canonical.solution_unique (hD : D.Canonical) (hσ : D.Solution σ) (hτ : D.Solution τ)
    (h : ∀ v, D v = none → σ v = τ v) : σ = τ := by
  funext v
  cases hv : D v with
  | none => exact h v hv
  | some f =>
    rw [hσ v f hv, hτ v f hv]
    exact eval_congr fun w hw => h w (hD v f hv w hw)

/-- The basic solution: free variables are 0. -/
noncomputable def basic (D : Dictionary V K) : V → K := D.extend fun _ => 0

theorem basic_row (h : D r = some f) : D.basic r = f.1 := by
  unfold basic
  rw [extend_basic h]
  exact eval_eq_const fun _ _ => rfl

theorem basic_nonbasic (h : D v = none) : D.basic v = 0 := extend_nonbasic h

theorem Canonical.solution_basic (hD : D.Canonical) : D.Solution D.basic := hD.solution_extend _

/-! ## Dropping a variable from every form -/

noncomputable def clear (D : Dictionary V K) (v : V) : Dictionary V K :=
  fun r => (D r).map fun f => (f.1, f.2.erase v)

theorem clear_eq_some {r : V} (h : D.clear v r = some g) : ∃ f, D r = some f ∧ g = (f.1, f.2.erase v) := by
  obtain ⟨f, h1, h2⟩ := Option.map_eq_some_iff.mp h
  exact ⟨f, h1, h2.symm⟩

theorem erase_coeff_ne_zero {w : V} (h : (f.2.erase v) w ≠ 0) : w ≠ v ∧ f.2 w ≠ 0 := by
  have hne : w ≠ v := by
    rintro rfl
    simp at h
  exact ⟨hne, by rwa [Finsupp.erase_ne hne] at h⟩

theorem eval_erase_of_zero (h : σ v = 0) (f : Form V K) : eval σ (f.1, f.2.erase v) = eval σ f := by
  have hs : f = (f.1, f.2.erase v) + f.2 v • term v := by
    refine Prod.ext (by simp [term]) ?_
    rw [Prod.snd_add, Prod.smul_snd, term, Finsupp.smul_single, smul_eq_mul, mul_one, Finsupp.erase_add_single]
  conv_rhs => rw [hs]
  rw [map_add, map_smul, eval_term, h, smul_zero, add_zero]

theorem solution_clear (h : σ v = 0) : (D.clear v).Solution σ ↔ D.Solution σ := by
  constructor
  · intro hs r f hr
    have := hs r (f.1, f.2.erase v) (by unfold clear; rw [hr]; rfl)
    rwa [eval_erase_of_zero h] at this
  · intro hs r g hr
    obtain ⟨f, hf, rfl⟩ := clear_eq_some hr
    rw [eval_erase_of_zero h]
    exact hs r f hf

theorem clear_eq_none {r : V} : D.clear v r = none ↔ D r = none := Option.map_eq_none_iff

theorem Canonical.clear (hD : D.Canonical) (v : V) : (D.clear v).Canonical := by
  intro r g hr w hw
  obtain ⟨f, hf, rfl⟩ := clear_eq_some hr
  rw [clear_eq_none]
  exact hD r f hf w (erase_coeff_ne_zero hw).2

theorem mentions_clear {w : V} (h : (D.clear v).Mentions w) : D.Mentions w := by
  rcases h with ⟨g, hg⟩ | ⟨r, g, hr, hw⟩
  · obtain ⟨f, hf, -⟩ := clear_eq_some hg
    exact Or.inl ⟨f, hf⟩
  · obtain ⟨f, hf, rfl⟩ := clear_eq_some hr
    exact Or.inr ⟨r, f, hf, (erase_coeff_ne_zero hw).2⟩

section Update

variable [DecidableEq V]

/-- A variable that can be changed freely in every solution occurs nowhere. -/
theorem Canonical.occurs_nowhere (hD : D.Canonical)
    (h : ∀ σ t, D.Solution σ → D.Solution (Function.update σ v t)) : ¬ D.Mentions v := by
  have hs := hD.solution_basic
  have hup := h D.basic (D.basic v + 1) hs
  rintro (⟨f, hf⟩ | ⟨r, f, hr, hne⟩)
  · have h1 := hup v f hf
    have hc : f.2 v = 0 := by
      by_contra hne
      rw [hD v f hf v hne] at hf
      simp at hf
    rw [Function.update_self, eval_update, hc, zero_mul, add_zero, ← hs v f hf] at h1
    exact one_ne_zero (by linear_combination h1)
  · have hrv : r ≠ v := by
      rintro rfl
      rw [hD r f hr r hne] at hr
      simp at hr
    have h1 := hup r f hr
    rw [Function.update_of_ne hrv, eval_update, hs r f hr] at h1
    exact hne (by linear_combination -h1)

/-! ## Erasing a row -/

def erase (D : Dictionary V K) (r : V) : Dictionary V K := Function.update D r none

@[simp] theorem erase_self (D : Dictionary V K) (r : V) : D.erase r r = none := by
  simp [erase]

theorem erase_ne {w : V} (h : w ≠ r) : D.erase r w = D w := by
  simp [erase, h]

theorem erase_eq_some (h : D.erase r v = some f) : v ≠ r ∧ D v = some f := by
  have hne : v ≠ r := by
    rintro rfl
    simp at h
  exact ⟨hne, by rwa [erase_ne hne] at h⟩

theorem Canonical.erase (hD : D.Canonical) (r : V) : (D.erase r).Canonical := by
  intro w f hw v hv
  obtain ⟨-, hw'⟩ := erase_eq_some hw
  by_cases hvr : v = r
  · rw [hvr, erase_self]
  · rw [erase_ne hvr]
    exact hD w f hw' v hv

theorem solution_erase (hr : D r = some f) : D.Solution σ ↔ (D.erase r).Solution σ ∧ σ r = eval σ f := by
  constructor
  · intro h
    exact ⟨fun w g hw => h w g (erase_eq_some hw).2, h r f hr⟩
  · rintro ⟨h, he⟩ w g hw
    by_cases hwr : w = r
    · subst hwr
      rw [hr] at hw
      obtain rfl := Option.some.inj hw
      exact he
    · exact h w g (by rwa [erase_ne hwr])

theorem Canonical.solution_erase_iff (hD : D.Canonical) (hr : D r = some f) :
    (D.erase r).Solution σ ↔ ∃ t, D.Solution (Function.update σ r t) := by
  have hrs : ∀ t, (D.erase r).Solution (Function.update σ r t) ↔ (D.erase r).Solution σ := by
    intro t
    refine forall_congr' fun w => forall_congr' fun g => forall_congr' fun hw => ?_
    obtain ⟨hne, hw'⟩ := erase_eq_some hw
    have hcf : g.2 r = 0 := by
      by_contra hc
      rw [hD w g hw' r hc] at hr
      simp at hr
    rw [Function.update_of_ne hne, eval_update, hcf, zero_mul, add_zero]
  have hs : f.2 r = 0 := by
    by_contra hc
    rw [hD r f hr r hc] at hr
    simp at hr
  constructor
  · intro h
    refine ⟨eval σ f, (solution_erase hr).mpr ⟨(hrs _).mpr h, ?_⟩⟩
    rw [Function.update_self, eval_update, hs, zero_mul, add_zero]
  · rintro ⟨t, ht⟩
    exact (hrs t).mp ((solution_erase hr).mp ht).1

/-! ## Adding a row -/

/-- Make `v` basic with the form `f`, and replace it in the other rows. -/
noncomputable def addRow (D : Dictionary V K) (v : V) (f : Form V K) : Dictionary V K :=
  fun r => if r = v then some f else (D r).map (substitute v f)

@[simp] theorem addRow_self (D : Dictionary V K) (v : V) (f : Form V K) : D.addRow v f v = some f := by
  simp [addRow]

theorem addRow_ne (h : r ≠ v) : D.addRow v f r = (D r).map (substitute v f) := by
  simp [addRow, h]

theorem addRow_eq_none {w : V} (h : w ≠ v) : D.addRow v f w = none ↔ D w = none := by
  rw [addRow_ne h, Option.map_eq_none_iff]

theorem addRow_eq_some (h : D.addRow v f r = some g) :
    (r = v ∧ g = f) ∨ (r ≠ v ∧ ∃ g', D r = some g' ∧ g = substitute v f g') := by
  by_cases hr : r = v
  · subst hr
    rw [addRow_self] at h
    exact Or.inl ⟨rfl, (Option.some.inj h).symm⟩
  · rw [addRow_ne hr, Option.map_eq_some_iff] at h
    obtain ⟨g', h1, h2⟩ := h
    exact Or.inr ⟨hr, g', h1, h2.symm⟩

theorem solution_addRow (hv : D v = none) : (D.addRow v f).Solution σ ↔ D.Solution σ ∧ σ v = eval σ f := by
  constructor
  · intro h
    have he := h v f (addRow_self _ _ _)
    refine ⟨fun r g hr => ?_, he⟩
    have hrv : r ≠ v := by
      rintro rfl
      rw [hv] at hr
      simp at hr
    have := h r (substitute v f g) (by rw [addRow_ne hrv, hr]; rfl)
    rwa [eval_substitute he] at this
  · rintro ⟨h, he⟩ r g hr
    rcases addRow_eq_some hr with ⟨rfl, rfl⟩ | ⟨-, g', hr', rfl⟩
    · exact he
    · rw [eval_substitute he]
      exact h r g' hr'

theorem Canonical.addRow (hD : D.Canonical) (hv : D v = none) (hf : ∀ w, f.2 w ≠ 0 → D w = none)
    (hs : f.2 v = 0) : (D.addRow v f).Canonical := by
  have hne : ∀ w, f.2 w ≠ 0 → (D.addRow v f) w = none := by
    intro w hw
    have hwv : w ≠ v := by
      rintro rfl
      exact hw hs
    rw [addRow_eq_none hwv]
    exact hf w hw
  intro r g hr w hw
  rcases addRow_eq_some hr with ⟨rfl, rfl⟩ | ⟨-, g', hr', rfl⟩
  · exact hne w hw
  · obtain ⟨hwv, h | ⟨-, h⟩⟩ := substitute_coeff_ne_zero hs hw
    · rw [addRow_eq_none hwv]
      exact hD r g' hr' w h
    · exact hne w h

theorem mentions_addRow (hs : f.2 v = 0) {w : V} (h : (D.addRow v f).Mentions w) :
    w = v ∨ D.Mentions w ∨ f.2 w ≠ 0 := by
  rcases h with ⟨g, hg⟩ | ⟨r, g, hr, hw⟩
  · rcases addRow_eq_some hg with ⟨h, -⟩ | ⟨-, g', h, -⟩
    · exact Or.inl h
    · exact Or.inr (Or.inl (Or.inl ⟨g', h⟩))
  · rcases addRow_eq_some hr with ⟨-, rfl⟩ | ⟨-, g', h, rfl⟩
    · exact Or.inr (Or.inr hw)
    · obtain ⟨-, h1 | ⟨-, h1⟩⟩ := substitute_coeff_ne_zero hs hw
      · exact Or.inr (Or.inl (Or.inr ⟨r, g', h, h1⟩))
      · exact Or.inr (Or.inr h1)

/-! ## Pivoting -/

/-- The row of `exit` is solved for `entry`, which replaces it in the basis. -/
noncomputable def pivot (D : Dictionary V K) (entry exit : V) (f : Form V K) : Dictionary V K :=
  (D.erase exit).addRow entry (solveFor exit entry f)

section Pivot

variable {entry exit : V}

theorem pivot_entry : D.pivot entry exit f entry = some (solveFor exit entry f) := addRow_self _ _ _

theorem pivot_other (hne : r ≠ entry) (hx : r ≠ exit) :
    D.pivot entry exit f r = (D r).map (substitute entry (solveFor exit entry f)) := by
  unfold pivot
  rw [addRow_ne hne, erase_ne hx]

/-- The rows after a pivot, and where each comes from. -/
theorem pivot_row (hr : D.pivot entry exit f r = some g) : (r = entry ∧ g = solveFor exit entry f) ∨
      (r ≠ entry ∧ r ≠ exit ∧ ∃ g', D r = some g' ∧ g = substitute entry (solveFor exit entry f) g') := by
  rcases addRow_eq_some hr with h1 | ⟨hne, g', hg', rfl⟩
  · exact Or.inl h1
  · obtain ⟨hx, hg'⟩ := erase_eq_some hg'
    exact Or.inr ⟨hne, hx, g', hg', rfl⟩

/-- What a pivot needs: the row of `exit` mentions `entry`. -/
structure CanPivot (D : Dictionary V K) (entry exit : V) (f : Form V K) : Prop where
  canonical : D.Canonical
  row : D exit = some f
  coeff : f.2 entry ≠ 0

namespace CanPivot

variable (h : CanPivot D entry exit f)

include h

section

omit [DecidableEq V]

theorem entry_nonbasic : D entry = none := h.canonical exit f h.row entry h.coeff

theorem exit_ne_entry : exit ≠ entry := by
  rintro he
  have := h.entry_nonbasic
  rw [← he, h.row] at this
  simp at this

theorem coeff_exit : f.2 exit = 0 := by
  by_contra hc
  have := h.canonical exit f h.row exit hc
  rw [h.row] at this
  simp at this

end

theorem entry_nonbasic_erase : D.erase exit entry = none := by
  rw [erase_ne h.exit_ne_entry.symm]
  exact h.entry_nonbasic

theorem solution_iff : (D.pivot entry exit f).Solution σ ↔ D.Solution σ := by
  unfold pivot
  rw [solution_addRow h.entry_nonbasic_erase, eval_solveFor h.coeff, ← solution_erase h.row]

theorem canonical_pivot : (D.pivot entry exit f).Canonical := by
  refine (h.canonical.erase exit).addRow h.entry_nonbasic_erase ?_ (solveFor_coeff_self h.coeff h.exit_ne_entry)
  intro w hw
  rcases solveFor_coeff_ne_zero h.coeff h.exit_ne_entry hw with rfl | ⟨-, hw⟩
  · exact erase_self _ _
  · by_cases hwe : w = exit
    · rw [hwe, erase_self]
    · rw [erase_ne hwe]
      exact h.canonical exit f h.row w hw

theorem pivot_exit : D.pivot entry exit f exit = none := by
  unfold pivot
  rw [addRow_eq_none h.exit_ne_entry, erase_self]

theorem mentions_pivot {w : V} (hw : (D.pivot entry exit f).Mentions w) : D.Mentions w := by
  rcases mentions_addRow (solveFor_coeff_self h.coeff h.exit_ne_entry) hw with rfl | hm | hm
  · exact Or.inr ⟨exit, f, h.row, h.coeff⟩
  · rcases hm with ⟨g, hg⟩ | ⟨r, g, hg, hne⟩
    · exact Or.inl ⟨g, (erase_eq_some hg).2⟩
    · exact Or.inr ⟨r, g, (erase_eq_some hg).2, hne⟩
  · rcases solveFor_coeff_ne_zero h.coeff h.exit_ne_entry hm with rfl | ⟨-, hm⟩
    · exact Or.inl ⟨f, h.row⟩
    · exact Or.inr ⟨exit, f, h.row, hm⟩

end CanPivot

end Pivot

end Update

end Dictionary

end Simplex
