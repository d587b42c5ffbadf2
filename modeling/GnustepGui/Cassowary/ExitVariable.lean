import GnustepGui.Cassowary.AddConstraint

/-!
# `exitVariableForMarker:` and the pivot of a marker

The three rules by which a row is chosen for a marker that is not basic (`IsExit`). Pivoting on that
row and dropping the marker's row leaves a tidy tableau, unless the marker is a dummy and a slack row
was chosen though a dummy row mentions the marker (`Tidy.pivotMarker`).
-/

namespace GnustepGui.Cassowary

open GSCSLinearExpression GSCSTableau GSCassowarySolver Simplex Simplex.Form StateExcept

variable {m : Machine} {T : GSCSTableau} {v w marker exit : GSCSVariable}
  {S : System GSCSVariable ℚ} {f g : Form GSCSVariable ℚ}

theorem negativeRatioStep_eq (T : GSCSTableau) (marker : GSCSVariable) :
    negativeRatioStep T marker =
      ArgMin.step (fun r => r.isRestricted = true ∧ T.rowCoefficient r marker < 0)
        (fun r => -T.rowConstant r / T.rowCoefficient r marker) := rfl

theorem ratioStep_eq (T : GSCSTableau) (marker : GSCSVariable) :
    ratioStep T marker = ArgMin.step (fun r => r.isRestricted = true)
      (fun r => T.rowConstant r / T.rowCoefficient r marker) := rfl

/-- The rules for the row of the marker. -/
inductive IsExit (D : Dictionary GSCSVariable ℚ) (marker exit : GSCSVariable)
    (f : Form GSCSVariable ℚ) : Prop
  | negative (restricted : signs.Restricted exit) (coeff : f.2 marker < 0)
      (least : ∀ r g, D r = some g → signs.Restricted r → g.2 marker < 0 →
        -f.1 / f.2 marker ≤ -g.1 / g.2 marker)
  | positive (restricted : signs.Restricted exit)
      (nonneg : ∀ r g, D r = some g → signs.Restricted r → 0 ≤ g.2 marker)
      (least : ∀ r g, D r = some g → signs.Restricted r → g.2 marker ≠ 0 →
        f.1 / f.2 marker ≤ g.1 / g.2 marker)
  | free (unused : ∀ r g, D r = some g → signs.Restricted r → g.2 marker = 0)

theorem exitVariableForMarker_some (h : Sound T) (hx : exitVariableForMarker m T marker = some exit) :
    ∃ row, T.rows.lookup exit = some row ∧ marker ∈ row.terms ∧ exit ≠ .objective ∧
      IsExit T.dictionary marker exit row.form := by
  have hmem : ∀ {r}, r ∈ m.enumerate (T.column marker) ↔ r ∈ T.column marker := fun {r} => (m.enumerate_perm _).mem_iff
  have hin : ∀ {r g}, T.dictionary r = some g → g.2 marker ≠ 0 →
      r ∈ m.enumerate (T.column marker) := fun hg hne => hmem.mpr (h.mem_column.mpr ⟨_, hg, hne⟩)
  have hrw : ∀ {r}, r ∈ m.enumerate (T.column marker) → ∃ row, T.rows.lookup r = some row ∧ marker ∈ row.terms := by
    intro r hr
    rw [hmem, h.index.column] at hr
    exact hr
  have hc : ∀ {r g}, T.dictionary r = some g → T.rowCoefficient r marker = g.2 marker ∧ T.rowConstant r = g.1 := by
    intro r g hg
    obtain ⟨row, hrow, rfl⟩ := dictionary_eq_some.mp hg
    rw [rowCoefficient_of_row hrow, rowConstant_of_row hrow, form_coeff, form_const]
    exact ⟨rfl, rfl⟩
  have hn : ∀ {r : GSCSVariable}, r.isRestricted = true → r ≠ .objective := by
    rintro r hr rfl
    cases hr
  unfold exitVariableForMarker at hx
  simp only [negativeRatioStep_eq, ratioStep_eq] at hx
  split at hx
  · next best hb =>
    obtain ⟨a, k⟩ := best
    obtain rfl := Option.some.inj hx
    obtain ⟨ha, ⟨hr, hneg⟩, -, hm⟩ := ArgMin.argMin_some hb
    obtain ⟨row, hrow, ht⟩ := hrw ha
    obtain ⟨h1, h2⟩ := hc (dictionary_of_row hrow)
    refine ⟨row, hrow, ht, hn hr, .negative ((signs_restricted _).mpr hr) ?_ ?_⟩
    · rwa [← h1]
    · intro r g hg hres hlt
      obtain ⟨h3, h4⟩ := hc hg
      have := hm r (hin hg hlt.ne) ⟨(signs_restricted r).mp hres, by rwa [h3]⟩
      rwa [h1, h2, h3, h4] at this
  · next hno =>
    have hnn : ∀ r g, T.dictionary r = some g → signs.Restricted r → 0 ≤ g.2 marker := by
      intro r g hg hres
      by_contra hlt
      rw [not_le] at hlt
      refine ArgMin.argMin_none hno r (hin hg hlt.ne) ⟨(signs_restricted r).mp hres, ?_⟩
      rwa [(hc hg).1]
    split at hx
    · next best hb =>
      obtain ⟨a, k⟩ := best
      obtain rfl := Option.some.inj hx
      obtain ⟨ha, hr, -, hm⟩ := ArgMin.argMin_some hb
      obtain ⟨row, hrow, ht⟩ := hrw ha
      obtain ⟨h1, h2⟩ := hc (dictionary_of_row hrow)
      refine ⟨row, hrow, ht, hn hr, .positive ((signs_restricted _).mpr hr) hnn ?_⟩
      intro r g hg hres hne
      obtain ⟨h3, h4⟩ := hc hg
      have := hm r (hin hg hne) ((signs_restricted r).mp hres)
      rwa [h1, h2, h3, h4] at this
    · next hno2 =>
      have hl := List.mem_of_getLast? hx
      rw [List.mem_filter] at hl
      obtain ⟨row, hrow, ht⟩ := hrw hl.1
      refine ⟨row, hrow, ht, by simpa using hl.2, .free fun r g hg hres => ?_⟩
      by_contra hne
      exact ArgMin.argMin_none hno2 r (hin hg hne) ((signs_restricted r).mp hres)

theorem exitVariableForMarker_none (h : Sound T) (hx : exitVariableForMarker m T marker = none) {r : GSCSVariable}
    (hg : T.dictionary r = some g) (hr : r ≠ .objective) : g.2 marker = 0 := by
  by_contra hne
  unfold exitVariableForMarker at hx
  simp only at hx
  split at hx
  · cases hx
  · split at hx
    · cases hx
    · rw [List.getLast?_eq_none_iff, List.filter_eq_nil_iff] at hx
      refine hx r ?_ (by simpa using hr)
      rw [(m.enumerate_perm _).mem_iff, h.mem_column]
      exact ⟨g, hg, hne⟩

/-- A variable outside the objective that no restricted row mentions is not in the objective row. -/
theorem Solves.objective_unused (h : Solves T S) (hv : T.dictionary v = none)
    (ho : S.objective.2 v = 0) (hr : ∀ w, S.objective.2 w ≠ 0 → signs.Restricted w)
    (hu : ∀ r g, T.dictionary r = some g → signs.Restricted r → g.2 v = 0)
    (hf : T.dictionary .objective = some f) : f.2 v = 0 := by
  have hc := h.sound.canonical
  have hs : ∀ τ : GSCSVariable → ℚ, eval τ f = eval (T.dictionary.extend τ) S.objective := by
    intro τ
    have h1 := hc.solution_extend τ
    rw [← ((h.represents.solution _).mp h1).2, Dictionary.extend_basic hf]
  -- changing `v` alone changes no variable of the objective
  have hsm : eval (T.dictionary.extend (Function.update (fun _ => 0) v 1)) S.objective =
      eval (T.dictionary.extend fun _ => 0) S.objective := by
    refine eval_congr fun w hw => ?_
    have hwv : w ≠ v := by
      rintro rfl
      exact hw ho
    cases hd : T.dictionary w with
    | none => rw [Dictionary.extend_nonbasic hd, Dictionary.extend_nonbasic hd, Function.update_of_ne hwv]
    | some g =>
      rw [Dictionary.extend_basic hd, Dictionary.extend_basic hd, eval_update_of_zero (hu w g hd (hr w hw))]
  rw [← hs, ← hs, eval_update] at hsm
  linarith

theorem Solves.pivotMarker (h : Solves T S) (hobj : S.objective.2 marker = 0)
    (hres : ∀ w, S.objective.2 w ≠ 0 → signs.Restricted w)
    (hrw : ∀ r g, T.dictionary r = some g → signs.objective r → r = .objective)
    (hp : Dictionary.CanPivot T.dictionary marker exit f) (hexit : IsExit T.dictionary marker exit f)
    (hcln : marker.isDummy = true →
      (∃ r g, T.dictionary r = some g ∧ r.isDummy = true ∧ g.2 marker ≠ 0) → exit.isDummy = true) :
    Tidy signs ((T.dictionary.pivot marker exit f).erase marker) := by
  have hdum : signs.dummy exit ∨ ∀ r g, T.dictionary r = some g → signs.dummy r → g.2 marker = 0 := by
    by_cases hd : marker.isDummy = true
    · by_cases hex : ∃ r g, T.dictionary r = some g ∧ r.isDummy = true ∧ g.2 marker ≠ 0
      · exact Or.inl (hcln hd hex)
      · push Not at hex
        exact Or.inr fun r g hg hr => hex r g hg hr
    · refine Or.inr fun r g hg hr => ?_
      by_contra hne
      exact hd ((h.tidy.dummyRow r g hg hr).2 marker hne)
  have hcon : ∀ r g, T.dictionary r = some g → signs.Restricted r → 0 ≤ g.1 := by
    intro r g hg hr
    rcases hr with hs | hd
    · exact h.tidy.slackRow r g hg hs
    · exact le_of_eq (h.tidy.dummyRow r g hg hd).1.symm
  cases hexit with
  | negative hr hn hl =>
    refine h.tidy.pivot_erase hp hr (fun r g hg hs _ => ?_) hdum
    have hle : 0 ≤ -f.1 / f.2 marker := div_nonneg_of_nonpos (neg_nonpos.mpr (hcon exit f hp.row hr)) hn.le
    exact ratio_test (hcon r g hg (Or.inl hs)) (hl r g hg (Or.inl hs)) hle
  | positive hr hnn hl =>
    refine h.tidy.pivot_erase hp hr (fun r g hg hs _ => ?_) hdum
    rcases (hnn r g hg (Or.inl hs)).eq_or_lt with hz | hpos
    · rw [← hz, zero_mul, add_zero]
      exact hcon r g hg (Or.inl hs)
    · have hm := hl r g hg (Or.inl hs) hpos.ne'
      rw [le_div_iff₀ hpos] at hm
      rw [neg_div, mul_neg, mul_comm]
      linarith
  | free hu =>
    refine h.tidy.pivot_free hp fun r g hg hc => ?_
    rcases hc with hr | ho
    · exact hu r g hg hr
    · obtain rfl := hrw r g hg ho
      exact h.objective_unused hp.entry_nonbasic hobj hres hu hg

end GnustepGui.Cassowary
