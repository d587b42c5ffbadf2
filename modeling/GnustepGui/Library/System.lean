import GnustepGui.Library.Dictionary

/-!
# Linear systems in a dictionary

A system is a list of equations `f = 0` and a form that the objective variable `z` equals.
`Represents D z S`: the dictionary has the solutions of the system. A row added with an equation adds
the equation (`Represents.addRow`), a change of the objective row changes the objective
(`Represents.addToObjective`), and erasing the row of a variable that one equation has for itself
takes that equation out (`Represents.eraseMarker`).
-/

namespace Simplex

open Form Dictionary

variable {V K : Type*} [Field K]

structure System (V K : Type*) [Field K] where
  equations : List (Form V K)
  objective : Form V K

namespace System

def Holds (S : System V K) (z : V) (σ : V → K) : Prop :=
  (∀ f ∈ S.equations, eval σ f = 0) ∧ σ z = eval σ S.objective

def Mentions (S : System V K) (v : V) : Prop :=
  (∃ f ∈ S.equations, f.2 v ≠ 0) ∨ S.objective.2 v ≠ 0

end System

structure Represents (D : Dictionary V K) (z : V) (S : System V K) : Prop where
  canonical : D.Canonical
  row : ∃ f, D z = some f
  solution : ∀ σ, D.Solution σ ↔ S.Holds z σ
  apart : ¬ S.Mentions z

variable {D D' : Dictionary V K} {z v : V} {S S' : System V K} {f g : Form V K} {σ τ : V → K}

theorem Represents.of_solution (h : Represents D z S) (hc : D'.Canonical) (hr : ∃ f, D' z = some f)
    (hs : ∀ σ, D'.Solution σ ↔ D.Solution σ) : Represents D' z S :=
  ⟨hc, hr, fun σ => (hs σ).trans (h.solution σ), h.apart⟩

variable [DecidableEq V]

theorem eval_update_of_zero (h : f.2 v = 0) (σ : V → K) (t : K) : eval (Function.update σ v t) f = eval σ f := by
  rw [eval_update, h, zero_mul, add_zero]

omit [Field K] in
theorem update_eq_some {α : Type*} {D : V → Option α} {r : V} {f g : α}
    (h : Function.update D v (some f) r = some g) : (r = v ∧ g = f) ∨ (r ≠ v ∧ D r = some g) := by
  by_cases hr : r = v
  · subst hr
    rw [Function.update_self] at h
    exact Or.inl ⟨rfl, (Option.some.inj h).symm⟩
  · rw [Function.update_of_ne hr] at h
    exact Or.inr ⟨hr, h⟩

theorem System.holds_update (hv : ¬ S.Mentions v) (hz : v ≠ z) (t : K) :
    S.Holds z (Function.update σ v t) ↔ S.Holds z σ := by
  unfold System.Mentions at hv
  push Not at hv
  unfold System.Holds
  rw [Function.update_of_ne hz.symm, eval_update_of_zero hv.2]
  refine and_congr_left fun _ => forall_congr' fun f => forall_congr' fun hf => ?_
  rw [eval_update_of_zero (hv.1 f hf)]

theorem Dictionary.solution_update (hv : ¬ D.Mentions v) (t : K) :
    D.Solution (Function.update σ v t) ↔ D.Solution σ := by
  refine forall_congr' fun r => forall_congr' fun f => forall_congr' fun hr => ?_
  have hrv : r ≠ v := by
    rintro rfl
    exact hv (Or.inl ⟨f, hr⟩)
  have hc : f.2 v = 0 := by
    by_contra hne
    exact hv (Or.inr ⟨r, f, hr, hne⟩)
  rw [Function.update_of_ne hrv, eval_update_of_zero hc]

theorem Dictionary.Canonical.form_unique (hD : D.Canonical) (hf : ∀ w, f.2 w ≠ 0 → D w = none)
    (hg : ∀ w, g.2 w ≠ 0 → D w = none) (h : ∀ σ, D.Solution σ → eval σ f = eval σ g) : f = g := by
  have hfr : ∀ (τ : V → K) {k : Form V K}, (∀ w, k.2 w ≠ 0 → D w = none) → eval (D.extend τ) k = eval τ k :=
    fun τ k hk => eval_congr fun w hw => extend_nonbasic (hk w hw)
  have ha : ∀ τ, eval τ f = eval τ g := by
    intro τ
    rw [← hfr τ hf, ← hfr τ hg]
    exact h _ (hD.solution_extend τ)
  have hc : f.1 = g.1 := by
    have := ha fun _ => 0
    rwa [eval_eq_const fun _ _ => rfl, eval_eq_const fun _ _ => rfl] at this
  refine Prod.ext hc (Finsupp.ext fun w => ?_)
  have hw := ha (Function.update (fun _ => 0) w 1)
  rw [eval_update, eval_update, eval_eq_const fun _ _ => rfl, eval_eq_const fun _ _ => rfl,
    hc] at hw
  linear_combination hw

omit [DecidableEq V] in
theorem Dictionary.clear_eq_self (h : ∀ r f, D r = some f → f.2 v = 0) : D.clear v = D := by
  funext r
  unfold Dictionary.clear
  cases hr : D r with
  | none => rfl
  | some f =>
    rw [Option.map_some, Finsupp.erase_of_notMem_support]
    rw [Finsupp.notMem_support_iff]
    exact h r f hr

theorem Dictionary.mentions_erase {r w : V} (h : (D.erase r).Mentions w) : D.Mentions w := by
  rcases h with ⟨f, hf⟩ | ⟨x, f, hx, hne⟩
  · exact Or.inl ⟨f, (erase_eq_some hf).2⟩
  · exact Or.inr ⟨x, f, (erase_eq_some hx).2, hne⟩

namespace Represents

variable (h : Represents D z S)

include h

omit [DecidableEq V] in
theorem not_mentioned_objective {r : V} (hr : D r = some f) : f.2 z = 0 := by
  obtain ⟨k, hk⟩ := h.row
  by_contra hne
  rw [h.canonical r f hr z hne] at hk
  cases hk

theorem solution_updateObjective (hrow : D z = some f) (g : Form V K) (hg : g.2 z = 0) :
    Dictionary.Solution (Function.update D z (some g)) σ ↔
      D.Solution (Function.update σ z (σ z - eval σ g + eval σ f)) := by
  constructor
  · intro hs r k hr
    have hk := h.not_mentioned_objective hr
    rw [eval_update_of_zero hk]
    by_cases hrz : r = z
    · subst hrz
      rw [hrow] at hr
      obtain rfl := Option.some.inj hr
      have := hs r g (Function.update_self ..)
      rw [Function.update_self, this, sub_self, zero_add]
    · rw [Function.update_of_ne hrz]
      exact hs r k (by rwa [Function.update_of_ne hrz])
  · intro hs r k hr
    by_cases hrz : r = z
    · subst hrz
      rw [Function.update_self] at hr
      obtain rfl := Option.some.inj hr
      have := hs r f hrow
      rw [Function.update_self, eval_update_of_zero (h.not_mentioned_objective hrow)] at this
      linear_combination this
    · rw [Function.update_of_ne hrz] at hr
      have := hs r k hr
      rwa [Function.update_of_ne hrz, eval_update_of_zero (h.not_mentioned_objective hr)] at this

omit [DecidableEq V] in
theorem congr (hS : ∀ σ, S'.Holds z σ ↔ S.Holds z σ) (hz : ¬ S'.Mentions z) : Represents D z S' :=
  ⟨h.canonical, h.row, fun σ => (h.solution σ).trans (hS σ).symm, hz⟩

theorem not_mentions (hv : ¬ S.Mentions v) (hz : v ≠ z) : ¬ D.Mentions v := by
  refine h.canonical.occurs_nowhere fun σ t hσ => ?_
  rw [h.solution] at hσ ⊢
  exact (System.holds_update hv hz t).mpr hσ

/-! ## Operations -/

theorem addRow (hv : D v = none) (hf : ∀ w, f.2 w ≠ 0 → D w = none) (hsl : f.2 v = 0)
    (hg : ∀ σ, D.Solution σ → (σ v = eval σ f ↔ eval σ g = 0)) (hgz : g.2 z = 0) :
    Represents (D.addRow v f) z ⟨g :: S.equations, S.objective⟩ := by
  have hz : z ≠ v := by
    rintro rfl
    obtain ⟨k, hk⟩ := h.row
    rw [hv] at hk
    cases hk
  refine ⟨h.canonical.addRow hv hf hsl, ?_, fun σ => ?_, ?_⟩
  · obtain ⟨k, hk⟩ := h.row
    exact ⟨substitute v f k, by rw [addRow_ne hz, hk]; rfl⟩
  · rw [solution_addRow hv]
    constructor
    · rintro ⟨hs, he⟩
      obtain ⟨heqs, ho⟩ := (h.solution σ).mp hs
      exact ⟨List.forall_mem_cons.mpr ⟨(hg σ hs).mp he, heqs⟩, ho⟩
    · rintro ⟨heqs, ho⟩
      obtain ⟨he, heqs⟩ := List.forall_mem_cons.mp heqs
      have hs := (h.solution σ).mpr ⟨heqs, ho⟩
      exact ⟨hs, (hg σ hs).mpr he⟩
  · rintro (⟨k, hk, hkz⟩ | ho)
    · rcases List.mem_cons.mp hk with rfl | hk
      · exact hkz hgz
      · exact h.apart (Or.inl ⟨k, hk, hkz⟩)
    · exact h.apart (Or.inr ho)

theorem addToObjective (hrow : D z = some f) {k : Form V K} (hk : ∀ w, k.2 w ≠ 0 → D w = none)
    (hev : ∀ σ, D.Solution σ → eval σ k = eval σ g) (hg : g.2 z = 0) :
    Represents (Function.update D z (some (f + k))) z ⟨S.equations, S.objective + g⟩ := by
  have hkz : k.2 z = 0 := by
    by_contra hne
    rw [hk z hne] at hrow
    cases hrow
  have hfz := h.not_mentioned_objective hrow
  have hn : ∀ w, D w = none → Function.update D z (some (f + k)) w = none := by
    intro w hw
    rw [Function.update_of_ne]
    · exact hw
    · rintro rfl
      rw [hrow] at hw
      cases hw
  refine ⟨fun r e hr w hw => ?_, ⟨f + k, Function.update_self ..⟩, fun σ => ?_, ?_⟩
  · rcases update_eq_some hr with ⟨rfl, rfl⟩ | ⟨-, hr⟩
    · by_cases hfw : f.2 w = 0
      · refine hn w (hk w ?_)
        rwa [Prod.snd_add, Finsupp.add_apply, hfw, zero_add] at hw
      · exact hn w (h.canonical r f hrow w hfw)
    · exact hn w (h.canonical r e hr w hw)
  · have hf : (f + k).2 z = 0 := by rw [Prod.snd_add, Finsupp.add_apply, hfz, hkz, add_zero]
    rw [h.solution_updateObjective hrow _ hf]
    have hob : S.objective.2 z = 0 := by
      by_contra hne
      exact h.apart (Or.inr hne)
    have hk' : D.Solution (Function.update σ z (σ z - eval σ (f + k) + eval σ f)) → eval σ k = eval σ g := by
      intro hs
      have := hev _ hs
      rwa [eval_update_of_zero hkz, eval_update_of_zero hg] at this
    have hred : S.Holds z (Function.update σ z (σ z - eval σ (f + k) + eval σ f)) ↔
        (∀ e ∈ S.equations, eval σ e = 0) ∧ σ z - eval σ k = eval σ S.objective := by
      unfold System.Holds
      rw [Function.update_self, eval_update_of_zero hob, map_add]
      refine and_congr (forall_congr' fun e => forall_congr' fun he => ?_) ?_
      · rw [eval_update_of_zero]
        by_contra hne
        exact h.apart (Or.inl ⟨e, he, hne⟩)
      · rw [show σ z - (eval σ f + eval σ k) + eval σ f = σ z - eval σ k by ring]
    constructor
    · intro hs
      obtain ⟨heqs, ho⟩ := hred.mp ((h.solution _).mp hs)
      refine ⟨heqs, ?_⟩
      rw [map_add, ← ho, ← hk' hs]
      ring
    · rintro ⟨heqs, ho⟩
      simp only [map_add] at ho
      -- the other rows hold, whatever the value of `z`
      have hs' := (h.solution (Function.update σ z (eval σ S.objective))).mpr ⟨fun e he => by
        rw [eval_update_of_zero, heqs e he]
        by_contra hne
        exact h.apart (Or.inl ⟨e, he, hne⟩), by
        rw [Function.update_self, eval_update_of_zero hob]⟩
      have hkg := hev _ hs'
      rw [eval_update_of_zero hkz, eval_update_of_zero hg] at hkg
      refine (h.solution _).mpr (hred.mpr ⟨heqs, ?_⟩)
      rw [ho, hkg]
      ring
  · rintro (⟨e, he, hez⟩ | ho)
    · exact h.apart (Or.inl ⟨e, he, hez⟩)
    · refine h.apart (Or.inr ?_)
      simp only [Prod.snd_add, Finsupp.add_apply, hg, add_zero] at ho
      exact ho

theorem eraseMarker (hr : D v = some f) (hv : v ≠ z) {rest : List (Form V K)}
    (hp : S.equations.Perm (g :: rest)) (hg : g.2 v ≠ 0) (hrs : ∀ e ∈ rest, e.2 v = 0)
    (ho : S.objective.2 v = 0) : Represents (D.erase v) z ⟨rest, S.objective⟩ := by
  refine ⟨h.canonical.erase v, ?_, fun σ => ?_, ?_⟩
  · obtain ⟨k, hk⟩ := h.row
    exact ⟨k, by rwa [erase_ne hv.symm]⟩
  · rw [h.canonical.solution_erase_iff hr]
    have hs : ∀ t, D.Solution (Function.update σ v t) ↔
        eval σ g + g.2 v * (t - σ v) = 0 ∧ System.Holds ⟨rest, S.objective⟩ z σ := by
      intro t
      rw [h.solution]
      unfold System.Holds
      rw [Function.update_of_ne hv.symm, eval_update_of_zero ho, ← and_assoc]
      refine and_congr_left fun _ => ?_
      simp only [hp.mem_iff]
      rw [List.forall_mem_cons, eval_update]
      refine and_congr_right fun _ => forall_congr' fun e => forall_congr' fun he => ?_
      rw [eval_update_of_zero (hrs e he)]
    constructor
    · rintro ⟨t, ht⟩
      exact ((hs t).mp ht).2
    · intro hh
      refine ⟨σ v - eval σ g / g.2 v, (hs _).mpr ⟨?_, hh⟩⟩
      field_simp
      ring
  · rintro (⟨e, he, hez⟩ | ho')
    · exact h.apart (Or.inl ⟨e, hp.mem_iff.mpr (List.mem_cons_of_mem _ he), hez⟩)
    · exact h.apart (Or.inr ho')

theorem clear (hv : D v = none) (hS : ∀ σ, σ v = 0 → (S'.Holds z σ ↔ S.Holds z σ))
    (hv' : ¬ S'.Mentions v) (hz : ¬ S'.Mentions z) : Represents (D.clear v) z S' := by
  obtain ⟨k, hk⟩ := h.row
  have hvz : v ≠ z := by
    rintro rfl
    rw [hk] at hv
    cases hv
  have hn : ¬ (D.clear v).Mentions v := by
    rintro (⟨f, hf⟩ | ⟨r, f, hr, hne⟩)
    · rw [clear_eq_none.mpr hv] at hf
      cases hf
    · obtain ⟨e, -, rfl⟩ := clear_eq_some hr
      exact (erase_coeff_ne_zero hne).1 rfl
  refine ⟨h.canonical.clear v, ⟨_, by unfold Dictionary.clear; rw [hk]; rfl⟩, fun σ => ?_, hz⟩
  have hzr : Function.update σ v 0 v = 0 := Function.update_self ..
  rw [← Dictionary.solution_update hn 0, solution_clear hzr, h.solution, ← hS _ hzr, System.holds_update hv' hvz]

theorem eraseZero (hv : D v = some 0) (hvz : v ≠ z) (hS : ∀ σ, σ v = 0 → (S'.Holds z σ ↔ S.Holds z σ))
    (hv' : ¬ S'.Mentions v) (hz : ¬ S'.Mentions z) : Represents (D.erase v) z S' := by
  refine ⟨h.canonical.erase v, ?_, fun σ => ?_, hz⟩
  · obtain ⟨k, hk⟩ := h.row
    exact ⟨k, by rwa [erase_ne hvz.symm]⟩
  · rw [h.canonical.solution_erase_iff hv]
    have hzr : Function.update σ v 0 v = 0 := Function.update_self ..
    have hs : D.Solution (Function.update σ v 0) ↔ S'.Holds z σ := by
      rw [h.solution, ← hS _ hzr, System.holds_update hv' hvz]
    constructor
    · rintro ⟨t, ht⟩
      have h0 := ht v 0 hv
      rw [Function.update_self, map_zero] at h0
      subst h0
      exact hs.mp ht
    · intro hh
      exact ⟨0, hs.mpr hh⟩

theorem mentioning_row (hv : D v = none) (hg : g ∈ S.equations) (hgv : g.2 v ≠ 0) :
    ∃ r f, r ≠ z ∧ D r = some f ∧ f.2 v ≠ 0 := by
  by_contra hc
  push Not at hc
  obtain ⟨k, hk⟩ := h.row
  have hvz : v ≠ z := by
    rintro rfl
    rw [hk] at hv
    cases hv
  have hgz : g.2 z = 0 := by
    by_contra hne
    exact h.apart (Or.inl ⟨g, hg, hne⟩)
  -- change the variable by 1 and let the objective variable follow
  have hs := h.canonical.solution_basic
  have hup : D.Solution (Function.update (Function.update D.basic v (D.basic v + 1)) z (D.basic z + k.2 v)) := by
    intro r f hr
    rw [eval_update_of_zero (h.not_mentioned_objective hr), eval_update]
    by_cases hrz : r = z
    · subst hrz
      rw [hk] at hr
      obtain rfl := Option.some.inj hr
      rw [Function.update_self, hs r k hk]
      ring
    · have hrv : r ≠ v := by
        rintro rfl
        rw [hv] at hr
        cases hr
      rw [Function.update_of_ne hrz, Function.update_of_ne hrv, hc r f hrz hr, zero_mul, add_zero]
      exact hs r f hr
  have h0 := ((h.solution _).mp hs).1 g hg
  have h1 := ((h.solution _).mp hup).1 g hg
  rw [eval_update_of_zero hgz, eval_update, h0] at h1
  exact hgv (by linear_combination h1)

end Represents

end Simplex
