import GnustepGui.Cassowary.Solver
import GnustepGui.Cassowary.TableauForms
import GnustepGui.Library.ArgMin
import GnustepGui.Library.StateExcept

/-!
# `optimize:`

In exact arithmetic `optimize:` only pivots slack variables into slack rows, by the ratio test. So whether it ends,
raises or is cut off, the tableau it leaves is `Reshaped`: tidy, with the same solutions, the same external and dummy
variables basic.
-/

namespace GnustepGui.Cassowary

open GSCSLinearExpression GSCSTableau GSCassowarySolver Simplex Simplex.Form StateExcept

/-- The roles of the variables of a solver. -/
def signs : Signs GSCSVariable where
  slack v := v.isPivotable = true
  dummy v := v.isDummy = true
  objective v := v.type = .objective
  slack_not_dummy v hs hd := by
    simp only [GSCSVariable.isPivotable, GSCSVariable.isDummy, decide_eq_true_eq] at hs hd
    rw [hs] at hd
    cases hd
  objective_free v ho := by
    simp [GSCSVariable.isPivotable, GSCSVariable.isDummy, ho]

@[simp] theorem signs_slack (v : GSCSVariable) : signs.slack v ↔ v.isPivotable = true := Iff.rfl

@[simp] theorem signs_dummy (v : GSCSVariable) : signs.dummy v ↔ v.isDummy = true := Iff.rfl

theorem signs_restricted (v : GSCSVariable) : signs.Restricted v ↔ v.isRestricted = true := by
  simp [Signs.Restricted, GSCSVariable.isRestricted, GSCSVariable.isPivotable, GSCSVariable.isDummy, or_comm]

variable {m : Machine} {T : GSCSTableau} {z entry exit : GSCSVariable}

/-! ## The searches -/

theorem pivotableExitStep_eq (T : GSCSTableau) (entry : GSCSVariable) : pivotableExitStep m T entry =
    ArgMin.step (fun r => r.isPivotable = true ∧ T.rowCoefficient r entry < 0)
      (fun r => -T.rowConstant r / T.rowCoefficient r entry) := by
  funext best r
  unfold pivotableExitStep ArgMin.step
  by_cases h1 : r.isPivotable = true
  · by_cases h2 : T.rowCoefficient r entry < 0
    · cases best with
      | none => simp [h1, h2]
      | some b =>
        have hp : shouldPreferPivotableVariable r b.1 = false := by
          simp [shouldPreferPivotableVariable, GSCSVariable.id]
        simp [h1, h2, hp]
    · simp [h2]
  · simp [h1]

/-- The exit variable is a slack row with the least ratio among those with a negative coefficient. -/
theorem findPivotableExitVariable_some (h : Sound T) (hx : T.findPivotableExitVariable m entry = some exit) :
    ∃ row, T.rows.lookup exit = some row ∧ entry ∈ row.terms ∧ exit.isPivotable = true ∧
      row.form.2 entry < 0 ∧ ∀ r g, T.dictionary r = some g → r.isPivotable = true → g.2 entry < 0 →
        -row.form.1 / row.form.2 entry ≤ -g.1 / g.2 entry := by
  unfold findPivotableExitVariable at hx
  rw [pivotableExitStep_eq] at hx
  obtain ⟨⟨a, k⟩, hb, rfl⟩ := Option.map_eq_some_iff.mp hx
  obtain ⟨hm, ⟨hp, hn⟩, -, hmin⟩ := ArgMin.argMin_some hb
  rw [(m.enumerate_perm _).mem_iff, h.index.column] at hm
  obtain ⟨row, hr, ht⟩ := hm
  rw [rowCoefficient_of_row hr] at hn
  refine ⟨row, hr, ht, hp, by rwa [form_coeff], fun r g hg hs hc => ?_⟩
  obtain ⟨e, he, rfl⟩ := dictionary_eq_some.mp hg
  have hmm : r ∈ m.enumerate (T.column entry) := by
    rw [(m.enumerate_perm _).mem_iff, h.mem_column]
    exact ⟨e.form, hg, ne_of_lt hc⟩
  have := hmin r hmm ⟨hs, by rw [rowCoefficient_of_row he]; simpa using hc⟩
  rw [rowCoefficient_of_row hr, rowConstant_of_row hr, rowCoefficient_of_row he, rowConstant_of_row he] at this
  simpa using this

theorem findPivotableExitVariable_none (h : Sound T)
    (hx : T.findPivotableExitVariable m entry = none) {r : GSCSVariable}
    {g : Form GSCSVariable ℚ} (hg : T.dictionary r = some g) (hs : r.isPivotable = true) : 0 ≤ g.2 entry := by
  unfold findPivotableExitVariable at hx
  rw [pivotableExitStep_eq, Option.map_eq_none_iff] at hx
  by_contra hn
  rw [not_le] at hn
  obtain ⟨e, he, rfl⟩ := dictionary_eq_some.mp hg
  refine ArgMin.argMin_none hx r ?_ ⟨hs, by rw [rowCoefficient_of_row he]; simpa using hn⟩
  rw [(m.enumerate_perm _).mem_iff, h.mem_column]
  exact ⟨e.form, hg, ne_of_lt hn⟩

theorem entryVariable_spec (hm : m.tol = 0) (row : GSCSLinearExpression) :
    match entryVariable m row with
    | some v => v ∈ row.terms ∧ v.isPivotable = true ∧ row.coefficientForTerm v < 0
    | none => ∀ v, v.isPivotable = true → 0 ≤ row.coefficientForTerm v := by
  have hf : ∀ (ts : List GSCSVariable) (best : Option GSCSVariable × ℚ), best.2 ≤ 0 →
      (∀ v, best.1 = some v → v ∈ row.terms ∧ v.isPivotable = true ∧
        row.coefficientForTerm v < 0) → (∀ t ∈ ts, t ∈ row.terms) → (best.1 = none → best.2 = 0) →
      match (ts.foldl (entryStep row) best).1 with
      | some v => v ∈ row.terms ∧ v.isPivotable = true ∧ row.coefficientForTerm v < 0
      | none => best.1 = none ∧ ∀ v ∈ ts, v.isPivotable = true → 0 ≤ row.coefficientForTerm v := by
    intro ts
    induction ts with
    | nil =>
      intro best _ hb _ _
      cases h1 : best.1 with
      | none => simp [h1]
      | some v => simpa [h1] using hb v h1
    | cons t ts ih =>
      intro best hle hb hts h0
      rw [List.foldl_cons]
      by_cases hc : t.isPivotable = true ∧ row.coefficientForTerm t < best.2
      · have hn : row.coefficientForTerm t < 0 := lt_of_lt_of_le hc.2 hle
        rw [show entryStep row best t = (some t, row.coefficientForTerm t) from if_pos hc]
        have := ih (some t, row.coefficientForTerm t) hn.le (fun v hv => by
          obtain rfl := Option.some.inj hv
          exact ⟨hts t (by simp), hc.1, hn⟩) (fun x hx => hts x (by simp [hx])) (by simp)
        revert this
        cases (ts.foldl (entryStep row) (some t, row.coefficientForTerm t)).1 with
        | none => simp
        | some v => exact id
      · rw [show entryStep row best t = best from if_neg hc]
        have := ih best hle hb (fun x hx => hts x (by simp [hx])) h0
        revert this
        cases (ts.foldl (entryStep row) best).1 with
        | some v => exact id
        | none =>
          rintro ⟨h1, h2⟩
          refine ⟨h1, fun v hv hp => ?_⟩
          rcases List.mem_cons.mp hv with rfl | hv
          · by_contra hn
            exact hc ⟨hp, by rw [h0 h1]; exact not_le.mp hn⟩
          · exact h2 v hv hp
  have := hf row.termVariables (none, -m.tol) (by rw [hm]; simp) (by simp)
    (fun t ht => (mem_termVariables row t).mp ht) (by rw [hm]; simp)
  unfold entryVariable
  revert this
  cases (row.termVariables.foldl (entryStep row) (none, -m.tol)).1 with
  | some v => exact fun h => h
  | none =>
    rintro ⟨-, h⟩ v hp
    by_cases hv : v ∈ row.terms
    · exact h v ((mem_termVariables row v).mpr hv) hp
    · rw [coefficientForTerm_of_notMem _ _ hv]

/-! ## Reshaping -/

/-- What pivots of slack variables leave of a tableau. -/
structure Reshaped (T T' : GSCSTableau) : Prop where
  sound : Sound T'
  tidy : Tidy signs T'.dictionary
  solution : ∀ σ, T'.dictionary.Solution σ ↔ T.dictionary.Solution σ
  mentions : ∀ v, T'.dictionary.Mentions v → T.dictionary.Mentions v
  basis : ∀ v, v.isPivotable = false → (T'.dictionary v = none ↔ T.dictionary v = none)

theorem Reshaped.refl (h : Sound T) (ht : Tidy signs T.dictionary) : Reshaped T T :=
  ⟨h, ht, fun _ => Iff.rfl, fun _ hv => hv, fun _ _ => Iff.rfl⟩

theorem Reshaped.trans {T1 T2 T3 : GSCSTableau} (h12 : Reshaped T1 T2) (h23 : Reshaped T2 T3) : Reshaped T1 T3 :=
  ⟨h23.sound, h23.tidy, fun σ => (h23.solution σ).trans (h12.solution σ),
    fun v hv => h12.mentions v (h23.mentions v hv),
    fun v hv => (h23.basis v hv).trans (h12.basis v hv)⟩

variable {T' : GSCSTableau}

theorem Reshaped.row (h : Reshaped T T') (hz : z.isPivotable = false)
    (hr : ∃ f, T.dictionary z = some f) : ∃ f, T'.dictionary z = some f := by
  rw [← Option.ne_none_iff_exists'] at hr ⊢
  exact fun hn => hr ((h.basis z hz).mp hn)

theorem pivot_basis {f : Form GSCSVariable ℚ} (hc : Dictionary.CanPivot T.dictionary entry exit f)
    (hd : T'.dictionary = T.dictionary.pivot entry exit f)
    (he : entry.isPivotable = true) (hexit : exit.isPivotable = true) (v : GSCSVariable)
    (hv : v.isPivotable = false) : T'.dictionary v = none ↔ T.dictionary v = none := by
  have hve : v ≠ entry := by
    rintro rfl
    rw [he] at hv
    cases hv
  have hvx : v ≠ exit := by
    rintro rfl
    rw [hexit] at hv
    cases hv
  rw [hd, Dictionary.pivot_other hve hvx, Option.map_eq_none_iff]

theorem reshaped_pivot (h : Sound T) (ht : Tidy signs T.dictionary) (hm : m.tol = 0)
    (he : entry.isPivotable = true) (hx : T.findPivotableExitVariable m entry = some exit) :
    ∃ T', T.pivotWithEntryVariable m entry exit = .ok T' ∧ Reshaped T T' := by
  obtain ⟨row, hr, htr, hexit, hn, hmin⟩ := findPivotableExitVariable_some h hx
  obtain ⟨T', hT', hsnd, hc, hd⟩ := h.pivot hm hr htr
  have hcon := ht.slackRow exit row.form (dictionary_of_row hr) hexit
  have hle : 0 ≤ -row.form.1 / row.form.2 entry := div_nonneg_of_nonpos (by linarith) hn.le
  refine ⟨T', hT', hsnd, ?_, fun σ => ?_, fun v hv => ?_, pivot_basis hc hd he hexit⟩
  · rw [hd]
    refine ht.pivot hc he hexit hle fun r g hg hs _ => ?_
    exact ratio_test (ht.slackRow r g hg hs) (hmin r g hg hs) hle
  · rw [hd]
    exact hc.solution_iff
  · rw [hd] at hv
    exact hc.mentions_pivot hv

/-! ## The loop -/

/-- Nothing but the tableau changed. -/
def OnTableau (s s' : GSCassowarySolver) : Prop := s' = { s with tableau := s'.tableau }

theorem pivot_run {s : GSCassowarySolver}
    (h : s.tableau.pivotWithEntryVariable m entry exit = .ok T') :
    GSCassowarySolver.pivot m entry exit s = .ok () { s with tableau := T' } := by
  unfold GSCassowarySolver.pivot tableauM
  rw [get_bind]
  simp only [h]
  rfl

theorem optimizeLoop_spec (hm : m.tol = 0) (z : GSCSVariable) : ∀ (fuel : Nat) (s : GSCassowarySolver),
    Sound s.tableau → Tidy signs s.tableau.dictionary →
    match optimizeLoop m z fuel s with
    | .ok _ s' => OnTableau s s' ∧ Reshaped s.tableau s'.tableau ∧
        ∀ f, s'.tableau.dictionary z = some f → ∀ v, v.isPivotable = true → 0 ≤ f.2 v
    | .error e s' => OnTableau s s' ∧ Reshaped s.tableau s'.tableau ∧ (e = .outOfFuel ∨
        ∃ f entry, s'.tableau.dictionary z = some f ∧ entry.isPivotable = true ∧ f.2 entry < 0 ∧
          ∀ r g, s'.tableau.dictionary r = some g → r.isPivotable = true → 0 ≤ g.2 entry) := by
  intro fuel
  induction fuel with
  | zero => exact fun s h ht => ⟨rfl, .refl h ht, Or.inl rfl⟩
  | succ fuel ih =>
    intro s h ht
    unfold optimizeLoop
    rw [get_bind]
    cases hen : (s.tableau.rowExpressionForVariable z).bind (entryVariable m) with
    | none =>
      refine ⟨rfl, .refl h ht, fun f hf v hv => ?_⟩
      obtain ⟨row, hr, rfl⟩ := dictionary_eq_some.mp hf
      unfold rowExpressionForVariable at hen
      rw [hr, Option.bind_some] at hen
      have := entryVariable_spec hm row
      rw [hen] at this
      rw [form_coeff]
      exact this v hv
    | some entry =>
      obtain ⟨row, hr, he⟩ := Option.bind_eq_some_iff.mp hen
      have hsp := entryVariable_spec hm row
      rw [he] at hsp
      obtain ⟨-, hp, hn⟩ := hsp
      simp only
      cases hx : s.tableau.findPivotableExitVariable m entry with
      | none =>
        refine ⟨rfl, .refl h ht, Or.inr ⟨row.form, entry, dictionary_of_row hr, hp,
          by rwa [form_coeff], fun r g hg hs => findPivotableExitVariable_none h hx hg hs⟩⟩
      | some exit =>
        obtain ⟨T', hT', hrs⟩ := reshaped_pivot h ht hm hp hx
        simp only
        rw [bind_ok (pivot_run hT')]
        have := ih { s with tableau := T' } hrs.sound hrs.tidy
        revert this
        cases optimizeLoop m z fuel { s with tableau := T' } with
        | ok a s' =>
          rintro ⟨h1, h2, h3⟩
          exact ⟨by rw [OnTableau, h1], hrs.trans h2, h3⟩
        | error e s' =>
          rintro ⟨h1, h2, h3⟩
          exact ⟨by rw [OnTableau, h1], hrs.trans h2, h3⟩

end GnustepGui.Cassowary
