import GnustepGui.Cassowary.AddDirectly

/-!
# `addWithArtificialVariable:`

The expression is given to two new rows, of an artificial variable `a` and of an objective variable
`az`, so both are equal to it in every solution (`PhaseOne`). Minimising `az` decides whether the
expression can be 0: if so `a` is taken out and the tableau represents the system with the new
equation; if not the call raises and the row of `a` stays behind.
-/

namespace GnustepGui.Cassowary

open GSCSLinearExpression GSCSTableau GSCassowarySolver Simplex Simplex.Form StateExcept

variable {m : Machine} {T T' : GSCSTableau} {v w : GSCSVariable} {e : GSCSLinearExpression}
  {S : System GSCSVariable ℚ}

/-! ## The two rows -/

theorem copy_spec (hm : m.tol = 0) (e : GSCSLinearExpression) (address : Nat) :
    (e.copy m.tol address).Reduced ∧ (e.copy m.tol address).form = e.form := by
  have hf : ∀ (ts : List GSCSVariable) (x : GSCSLinearExpression), ts.Nodup → x.Reduced →
      (∀ t ∈ ts, t ∉ x.terms) →
      let x' := ts.foldl (fun x v => x.addVariable m.tol v (e.coefficientForTerm v)) x
      x'.Reduced ∧ x'.form = x.form +
        (ts.map fun t => e.coefficientForTerm t • (term t : Form GSCSVariable ℚ)).sum := by
    intro ts
    induction ts with
    | nil => exact fun x _ hx _ => ⟨hx, by simp⟩
    | cons t ts ih =>
      intro x hts hx hn
      obtain ⟨ht, hts⟩ := List.nodup_cons.mp hts
      obtain ⟨h1, h2⟩ := ih (x.addVariable m.tol t (e.coefficientForTerm t)) hts
        (hx.addVariable _ _ _ (le_of_eq hm.symm)) fun u hu hmem => by
          rcases (mem_addVariable _ _ _ _ _).mp hmem with h | ⟨rfl, -⟩
          · exact hn u (List.mem_cons_of_mem _ hu) h
          · exact ht hu
      refine ⟨h1, h2.trans ?_⟩
      rw [form_addVariable hm (hn t List.mem_cons_self), List.map_cons, List.sum_cons, add_assoc]
  obtain ⟨h1, h2⟩ := hf e.termVariables (initWithConstant address e.constant)
    e.nodup_termVariables (initWithConstant_reduced _ _) (by simp [initWithConstant])
  refine ⟨h1, h2.trans ?_⟩
  conv_rhs => rw [form_eq_sum e]
  congr 1

theorem mem_terms_iff (he : e.Reduced) : v ∈ e.terms ↔ e.form.2 v ≠ 0 := by
  rw [form_coeff]
  exact he.mem_iff v

theorem Solves.addFresh (h : Solves T S) (hv : ¬ T.dictionary.Mentions v) (hvd : v.isDummy = false)
    (hred : e.Reduced) (ht : ∀ w ∈ e.terms, T.dictionary w = none)
    (hres : ∀ w ∈ e.terms, w.isRestricted = true) (hc : 0 ≤ e.constant) (hve : v ∉ e.terms) :
    Solves (T.addRowForVariable v e) ⟨(e.form - term v) :: S.equations, S.objective⟩ ∧
      (T.addRowForVariable v e).dictionary = T.dictionary.addRow v e.form := by
  have hnn : T.dictionary v = none := by
    cases hd : T.dictionary v with
    | none => rfl
    | some f => exact absurd (Or.inl ⟨f, hd⟩) hv
  have hunused : ∀ r g, T.dictionary r = some g → g.2 v = 0 := by
    intro r g hg
    by_contra hne
    exact hv (Or.inr ⟨r, g, hg, hne⟩)
  have hcol : T.column v = [] := by
    refine List.eq_nil_iff_forall_not_mem.mpr fun r hr => ?_
    obtain ⟨g, hg, hne⟩ := h.sound.mem_column.mp hr
    exact hne (hunused r g hg)
  have hvz : v ≠ .objective := by
    rintro rfl
    obtain ⟨f, hf⟩ := h.represents.row
    rw [hnn] at hf
    cases hf
  have hn : ∀ w, e.form.2 w ≠ 0 → T.dictionary w = none := fun w hw => ht w ((mem_terms_iff hred).mpr hw)
  have hs : e.form.2 v = 0 := by
    rw [form_coeff]
    exact coefficientForTerm_of_notMem _ _ hve
  have hrs : ∀ w, e.form.2 w ≠ 0 → signs.Restricted w := fun w hw =>
    (signs_restricted w).mpr (hres w ((mem_terms_iff hred).mpr hw))
  obtain ⟨h1, h2⟩ := h.sound.addRow ⟨dictionary_eq_none.mp hnn, hve,
    fun w hw => dictionary_eq_none.mp (ht w hw)⟩ hred hcol
  refine ⟨⟨h1, ?_, ?_⟩, h2⟩
  · rw [h2]
    refine h.tidy.addRow hnn hn hs (fun r g hg _ => hunused r g hg) (Or.inl hrs)
      (fun _ => hrs) (fun _ => hc) fun hd => ?_
    rw [signs_dummy, hvd] at hd
    cases hd
  · rw [h2]
    refine h.represents.addRow hnn hn hs (fun σ _ => ?_) ?_
    · rw [map_sub, eval_term, sub_eq_zero, eq_comm]
    · simp [objective_notMem h ht, term_coeff_ne hvz.symm]

/-! ## Phase one -/

/-- The tableau `T` is that of `T0` with rows for `a` and `az`, which equal `f` in every solution. -/
structure PhaseOne (T0 T : GSCSTableau) (S : System GSCSVariable ℚ) (f : Form GSCSVariable ℚ)
    (n : Nat) : Prop where
  solves : Solves T ⟨(f - term (.artificial n)) :: (f - term (.artificialObjective n)) :: S.equations,
    S.objective⟩
  row : ∃ g, T.dictionary (.artificialObjective n) = some g
  mentions : ∀ w, T.dictionary.Mentions w → w = .artificial n ∨ w = .artificialObjective n ∨
    f.2 w ≠ 0 ∨ T0.dictionary.Mentions w

/-- The variables of phase one occur nowhere else. -/
structure Unused (S : System GSCSVariable ℚ) (f : Form GSCSVariable ℚ) (n : Nat) : Prop where
  artificial : ¬ S.Mentions (.artificial n)
  artificialObjective : ¬ S.Mentions (.artificialObjective n)
  coefficient : f.2 (.artificial n) = 0
  coefficientObjective : f.2 (.artificialObjective n) = 0

theorem phaseOne_start (h : Solves T S) (hm : m.tol = 0) {n : Nat}
    (hn : ¬ T.dictionary.Mentions (.artificial n) ∧ ¬ T.dictionary.Mentions (.artificialObjective n))
    (hr : e.Reduced) (ht : ∀ w ∈ e.terms, T.dictionary w = none)
    (hres : ∀ w ∈ e.terms, w.isRestricted = true) (hc : 0 ≤ e.constant) (hunused : Unused S e.form n) (address : Nat) :
    PhaseOne T ((T.addRowForVariable (.artificialObjective n) (e.copy m.tol address)).addRowForVariable
      (.artificial n) e) S e.form n := by
  obtain ⟨hcr, hcf⟩ := copy_spec hm e address
  have hcm : ∀ w, w ∈ (e.copy m.tol address).terms ↔ w ∈ e.terms := by
    intro w
    rw [mem_terms_iff hcr, mem_terms_iff hr, hcf]
  have hnot : ∀ {w : GSCSVariable}, e.form.2 w = 0 → w ∉ e.terms := fun hw hmem => (mem_terms_iff hr).mp hmem hw
  obtain ⟨h1, h2⟩ := h.addFresh (v := .artificialObjective n) hn.2 rfl hcr
    (fun w hw => ht w ((hcm w).mp hw)) (fun w hw => hres w ((hcm w).mp hw))
    (by rw [← form_const, hcf]; exact hc)
    (fun hmem => hnot hunused.coefficientObjective ((hcm _).mp hmem))
  rw [hcf] at h1 h2
  obtain ⟨T1, hT1⟩ : ∃ T1, T1 = T.addRowForVariable (.artificialObjective n) (e.copy m.tol address) := ⟨_, rfl⟩
  rw [← hT1] at h1 h2 ⊢
  have ht1 : ∀ w ∈ e.terms, T1.dictionary w = none := by
    intro w hw
    rw [h2, Dictionary.addRow_eq_none]
    · exact ht w hw
    · rintro rfl
      exact hnot hunused.coefficientObjective hw
  have hmen1 : ∀ w, T1.dictionary.Mentions w → w = .artificialObjective n ∨ e.form.2 w ≠ 0 ∨
      T.dictionary.Mentions w := by
    intro w hw
    rw [h2] at hw
    rcases Dictionary.mentions_addRow hunused.coefficientObjective hw with h' | h' | h'
    · exact Or.inl h'
    · exact Or.inr (Or.inr h')
    · exact Or.inr (Or.inl h')
  have hf : ¬ T1.dictionary.Mentions (.artificial n) := by
    intro hw
    rcases hmen1 _ hw with h' | h' | h'
    · cases h'
    · exact h' hunused.coefficient
    · exact hn.1 h'
  obtain ⟨h3, h4⟩ := h1.addFresh (v := .artificial n) hf rfl hr ht1 hres hc
    (hnot hunused.coefficient)
  refine ⟨h3, ?_, fun w hw => ?_⟩
  · rw [h4, Dictionary.addRow_ne (by simp), h2, Dictionary.addRow_self]
    exact ⟨_, rfl⟩
  · rw [h4] at hw
    rcases Dictionary.mentions_addRow hunused.coefficient hw with h' | h' | h'
    · exact Or.inl h'
    · exact Or.inr (hmen1 w h')
    · exact Or.inr (Or.inr (Or.inl h'))

namespace PhaseOne

variable {T0 : GSCSTableau} {f g k : Form GSCSVariable ℚ} {n : Nat}

theorem reshaped (h : PhaseOne T0 T S f n) (hr : Reshaped T T') : PhaseOne T0 T' S f n :=
  ⟨hr.solves h.solves, hr.row rfl h.row, fun w hw => h.mentions w (hr.mentions w hw)⟩

variable (h : PhaseOne T0 T S f n)

include h

theorem values {σ : GSCSVariable → ℚ} (hσ : T.dictionary.Solution σ) :
    σ (.artificial n) = eval σ f ∧ σ (.artificialObjective n) = eval σ f := by
  obtain ⟨he, -⟩ := (h.solves.represents.solution σ).mp hσ
  have h1 := he _ List.mem_cons_self
  have h2 := he _ (List.mem_cons_of_mem _ List.mem_cons_self)
  rw [map_sub, eval_term, sub_eq_zero] at h1 h2
  exact ⟨h1.symm, h2.symm⟩

theorem row_basic (hk : T.dictionary (.artificial n) = some k)
    (hg : T.dictionary (.artificialObjective n) = some g) : g = k := by
  have hc := h.solves.sound.canonical
  refine hc.form_unique (hc _ _ hg) (hc _ _ hk) fun σ hσ => ?_
  rw [← hσ _ _ hg, ← hσ _ _ hk, (h.values hσ).1, (h.values hσ).2]

theorem row_free (hk : T.dictionary (.artificial n) = none)
    (hg : T.dictionary (.artificialObjective n) = some g) : g = term (.artificial n) := by
  have hc := h.solves.sound.canonical
  refine hc.form_unique (hc _ _ hg) (fun w hw => ?_) fun σ hσ => ?_
  · have : w = .artificial n := by
      by_contra hne
      exact hw (term_coeff_ne hne)
    rwa [this]
  · rw [← hσ _ _ hg, eval_term, (h.values hσ).1, (h.values hσ).2]

theorem bounded (hg : T.dictionary (.artificialObjective n) = some g)
    (hr : ∀ r k, T.dictionary r = some k → r.isPivotable = true → 0 ≤ k.2 v) : 0 ≤ g.2 v := by
  cases hk : T.dictionary (.artificial n) with
  | some k =>
    rw [h.row_basic hk hg]
    exact hr _ _ hk rfl
  | none =>
    rw [h.row_free hk hg]
    by_cases hv : v = .artificial n
    · rw [hv, term_coeff_self]
      exact zero_le_one
    · rw [term_coeff_ne hv]

end PhaseOne

/-! ## Taking the artificial variable out -/

variable {s : GSCassowarySolver}

theorem removeRow_run (h : s.tableau.removeRowForVariable v = .ok T') :
    GSCassowarySolver.removeRow v s = .ok () { s with tableau := T' } := by
  unfold GSCassowarySolver.removeRow tableauM
  rw [get_bind]
  simp only [h]
  rfl

theorem Solves.eraseRow (h : Solves T S) {f : Form GSCSVariable ℚ} (hrow : T.dictionary v = some f)
    {S' : System GSCSVariable ℚ} (hrep : Represents (T.dictionary.erase v) .objective S') :
    ∃ T', T.removeRowForVariable v = .ok T' ∧ Solves T' S' ∧ T'.dictionary = T.dictionary.erase v := by
  obtain ⟨row, hr, -⟩ := dictionary_eq_some.mp hrow
  obtain ⟨T', h1, h2, h3⟩ := h.sound.removeRow hr
  refine ⟨T', h1, ⟨h2, ?_, by rwa [h3]⟩, h3⟩
  rw [h3]
  exact h.tidy.erase v

theorem Solves.clearColumn (h : Solves T S) (hv : v.isExternal = false)
    {S' : System GSCSVariable ℚ} (hr : Represents (T.dictionary.clear v) .objective S') :
    Solves (T.removeColumn m v) S' ∧ (T.removeColumn m v).dictionary = T.dictionary.clear v := by
  obtain ⟨h1, h2⟩ := h.sound.removeColumn (m := m) hv
  refine ⟨⟨h1, ?_, by rwa [h2]⟩, h2⟩
  rw [h2]
  exact h.tidy.clear v

namespace PhaseOne

variable {T0 : GSCSTableau} {f g k : Form GSCSVariable ℚ} {n : Nat} (h : PhaseOne T0 T S f n)
  (hunused : Unused S f n)

include h hunused

theorem eraseObjective (hg : T.dictionary (.artificialObjective n) = some g) :
    ∃ T', T.removeRowForVariable (.artificialObjective n) = .ok T' ∧
      Solves T' ⟨(f - term (.artificial n)) :: S.equations, S.objective⟩ ∧
      T'.dictionary = T.dictionary.erase (.artificialObjective n) := by
  refine h.solves.eraseRow hg (h.solves.represents.eraseMarker hg (by simp) (List.Perm.swap _ _ _)
    ?_ (List.forall_mem_cons.mpr ⟨?_, fun x hx => ?_⟩) ?_)
  · simp [hunused.coefficientObjective, term_coeff_self]
  · simp [hunused.coefficientObjective, term_coeff_ne]
  · by_contra hne
    exact hunused.artificialObjective (Or.inl ⟨x, hx, hne⟩)
  · by_contra hne
    exact hunused.artificialObjective (Or.inr hne)

theorem not_mentions_final {v : GSCSVariable} (hv : ¬ S.Mentions v) (hf : f.2 v = 0) :
    ¬ System.Mentions ⟨f :: S.equations, S.objective⟩ v := by
  rintro (⟨x, hx, hne⟩ | hne)
  · rcases List.mem_cons.mp hx with rfl | hx
    · exact hne hf
    · exact hv (Or.inl ⟨x, hx, hne⟩)
  · exact hv (Or.inr hne)

omit hunused in
theorem objective_coefficient : f.2 .objective = 0 := by
  by_contra hne
  refine h.solves.represents.apart (Or.inl ⟨_, List.mem_cons_self, ?_⟩)
  simpa [term_coeff_ne] using hne

omit hunused in
theorem apart : ¬ S.Mentions .objective := by
  rintro (⟨x, hx, hne⟩ | hne)
  · exact h.solves.represents.apart (Or.inl ⟨x, List.mem_cons_of_mem _ (List.mem_cons_of_mem _ hx), hne⟩)
  · exact h.solves.represents.apart (Or.inr hne)

/-- The artificial variable is free: without its objective and its column the expression is 0. -/
theorem takeOut (m : Machine) (hk : T.dictionary (.artificial n) = none)
    (hg : T.dictionary (.artificialObjective n) = some g) :
    ∃ T', T.removeRowForVariable (.artificialObjective n) = .ok T' ∧
      Solves (T'.removeColumn m (.artificial n)) ⟨f :: S.equations, S.objective⟩ ∧
      ∀ w, (T'.removeColumn m (.artificial n)).dictionary.Mentions w → T.dictionary.Mentions w := by
  obtain ⟨T', h1, h2, h3⟩ := h.eraseObjective hunused hg
  have hn : T'.dictionary (.artificial n) = none := by
    rw [h3, Dictionary.erase_ne (by simp)]
    exact hk
  have hr : Represents (T'.dictionary.clear (.artificial n)) .objective ⟨f :: S.equations, S.objective⟩ :=
    h2.represents.clear hn (fun σ hσ => by simp [System.Holds, hσ])
      (h.not_mentions_final hunused hunused.artificial hunused.coefficient)
      (h.not_mentions_final hunused h.apart h.objective_coefficient)
  obtain ⟨h4, h5⟩ := h2.clearColumn (m := m) rfl hr
  refine ⟨T', h1, h4, fun w hw => ?_⟩
  rw [h5, h3] at hw
  exact Dictionary.mentions_erase (Dictionary.mentions_clear hw)

theorem takeOutZero (hk : T.dictionary (.artificial n) = some 0) (hg : T.dictionary (.artificialObjective n) = some g) :
    ∃ T1 T2, T.removeRowForVariable (.artificial n) = .ok T1 ∧
      T1.removeRowForVariable (.artificialObjective n) = .ok T2 ∧ Solves T2 ⟨f :: S.equations, S.objective⟩ ∧
      ∀ w, T2.dictionary.Mentions w → T.dictionary.Mentions w := by
  have hn : ∀ v, v ≠ .artificialObjective n → f.2 v = 0 → ¬ S.Mentions v →
      ¬ System.Mentions ⟨f :: (f - term (.artificialObjective n)) :: S.equations, S.objective⟩ v := by
    rintro v hne hf hv (⟨x, hx, hxv⟩ | ho)
    · rcases List.mem_cons.mp hx with rfl | hx
      · exact hxv hf
      · rcases List.mem_cons.mp hx with rfl | hx
        · exact hxv (by simp [hf, term_coeff_ne hne])
        · exact hv (Or.inl ⟨x, hx, hxv⟩)
    · exact hv (Or.inr ho)
  have hr : Represents (T.dictionary.erase (.artificial n)) .objective
      ⟨f :: (f - term (.artificialObjective n)) :: S.equations, S.objective⟩ :=
    h.solves.represents.eraseZero hk (by simp) (fun σ hσ => by simp [System.Holds, hσ])
      (hn _ (by simp) hunused.coefficient hunused.artificial)
      (hn _ (by simp) h.objective_coefficient h.apart)
  obtain ⟨T1, h1, h2, h3⟩ := h.solves.eraseRow hk hr
  have hg1 : T1.dictionary (.artificialObjective n) = some g := by
    rw [h3, Dictionary.erase_ne (by simp)]
    exact hg
  have hr1 : Represents (T1.dictionary.erase (.artificialObjective n)) .objective ⟨f :: S.equations, S.objective⟩ := by
    refine h2.represents.eraseMarker hg1 (by simp) (List.Perm.swap _ _ _) ?_
      (List.forall_mem_cons.mpr ⟨hunused.coefficientObjective, fun x hx => ?_⟩) ?_
    · simp [hunused.coefficientObjective, term_coeff_self]
    · by_contra hne
      exact hunused.artificialObjective (Or.inl ⟨x, hx, hne⟩)
    · by_contra hne
      exact hunused.artificialObjective (Or.inr hne)
  obtain ⟨T2, h4, h5, h6⟩ := h2.eraseRow hg1 hr1
  refine ⟨T1, T2, h1, h4, h5, fun w hw => ?_⟩
  rw [h6, h3] at hw
  exact Dictionary.mentions_erase (Dictionary.mentions_erase hw)

end PhaseOne

theorem form_of_isConstant (h : e.isConstant = true) : e.form = (e.constant, 0) := by
  refine Prod.ext rfl (Finsupp.ext fun w => ?_)
  unfold isConstant at h
  rw [List.isEmpty_iff] at h
  rw [form_coeff, Finsupp.zero_apply]
  refine coefficientForTerm_of_notMem _ _ fun hm => ?_
  rw [AList.mem_keys, h] at hm
  cases hm

theorem removeArtificial_spec (hm : m.tol = 0) {T0 : GSCSTableau} {f g : Form GSCSVariable ℚ} {n : Nat}
    (h : PhaseOne T0 s.tableau S f n) (hunused : Unused S f n)
    (hg : s.tableau.dictionary (.artificialObjective n) = some g) (hz : g.1 = 0) :
    match removeArtificial m (.artificial n) (.artificialObjective n) s with
    | .ok _ s' => OnTableau s s' ∧ Solves s'.tableau ⟨f :: S.equations, S.objective⟩ ∧
        ∀ w, s'.tableau.dictionary.Mentions w → s.tableau.dictionary.Mentions w
    | .error _ _ => ∃ k, s.tableau.dictionary (.artificial n) = some k ∧
        ∀ w, k.2 w ≠ 0 → w.isPivotable = false := by
  unfold removeArtificial
  rw [get_bind]
  cases hr : s.tableau.rows.lookup (.artificial n) with
  | none =>
    obtain ⟨T', h1, h2, h3⟩ := h.takeOut hunused m (dictionary_eq_none.mpr hr) hg
    simp only [rowExpressionForVariable, hr]
    rw [bind_ok (removeRow_run h1)]
    exact ⟨rfl, h2, h3⟩
  | some row =>
    have hk := dictionary_of_row hr
    have hfr := h.row_basic hk hg
    simp only [rowExpressionForVariable, hr]
    by_cases hc : row.isConstant = true
    · rw [if_pos hc]
      have hk0 : s.tableau.dictionary (.artificial n) = some 0 := by
        rw [hk, form_of_isConstant hc]
        rw [hfr, form_const] at hz
        rw [hz]
        rfl
      obtain ⟨T1, T2, h1, h2, h3, h4⟩ := h.takeOutZero hunused hk0 hg
      rw [bind_ok (removeRow_run h1), bind_ok (removeRow_run h2)]
      exact ⟨rfl, h3, h4⟩
    · rw [if_neg hc]
      unfold anyPivotableVariable
      cases hf : row.termVariables.find? (·.isPivotable) with
      | none =>
        refine ⟨row.form, hk, fun w hw => ?_⟩
        rw [form_coeff] at hw
        have hmem := ((h.solves.sound.reduced _ _ hr).mem_iff w).mpr hw
        have := List.find?_eq_none.mp hf w ((mem_termVariables _ _).mpr hmem)
        simpa using this
      | some entry =>
        have hp : entry.isPivotable = true := List.find?_some hf
        have hmem := (mem_termVariables _ _).mp (List.mem_of_find?_eq_some hf)
        obtain ⟨T1, h1, h2, h3, h4⟩ := h.solves.sound.pivot hm hr hmem
        have hrat : -row.form.1 / row.form.2 entry = 0 := by
          rw [← hfr, hz]
          simp
        -- the row has constant 0, so no other constant changes
        have hrs : Reshaped s.tableau T1 := by
          refine ⟨h2, ?_, fun σ => ?_, fun v hv => ?_, pivot_basis h3 h4 hp rfl⟩
          · rw [h4]
            refine h.solves.tidy.pivot h3 hp rfl (le_of_eq hrat.symm) fun r k hk hs _ => ?_
            rw [hrat, mul_zero, add_zero]
            exact h.solves.tidy.slackRow r k hk hs
          · rw [h4]
            exact h3.solution_iff
          · rw [h4] at hv
            exact h3.mentions_pivot hv
        have hph := h.reshaped hrs
        obtain ⟨g1, hg1⟩ := hph.row
        have hfree : T1.dictionary (.artificial n) = none := by
          rw [h4]
          exact h3.pivot_exit
        obtain ⟨T2, h5, h6, h7⟩ := hph.takeOut hunused m hfree hg1
        simp only
        rw [bind_ok (pivot_run h1), bind_ok (removeRow_run h5)]
        exact ⟨rfl, h6, fun w hw => hrs.mentions w (h7 w hw)⟩

/-! ## Success and failure -/

namespace PhaseOne

variable {T0 : GSCSTableau} {f g k : Form GSCSVariable ℚ} {n : Nat} (h : PhaseOne T0 T S f n)
  (hunused : Unused S f n)

include h hunused

theorem solution_of_holds {σ : GSCSVariable → ℚ} (hσ : S.Holds .objective σ) :
    T.dictionary.Solution (Function.update (Function.update σ (.artificial n) (eval σ f))
      (.artificialObjective n) (eval σ f)) := by
  rw [h.solves.represents.solution]
  have hf : eval (Function.update (Function.update σ (.artificial n) (eval σ f))
      (.artificialObjective n) (eval σ f)) f = eval σ f := by
    rw [eval_update_of_zero hunused.coefficientObjective, eval_update_of_zero hunused.coefficient]
  obtain ⟨he, ho⟩ := (System.holds_update (z := .objective) hunused.artificialObjective (by simp)
    (eval σ f)).mpr ((System.holds_update hunused.artificial (by simp) (eval σ f)).mpr hσ)
  refine ⟨List.forall_mem_cons.mpr ⟨?_, List.forall_mem_cons.mpr ⟨?_, he⟩⟩, ho⟩
  · rw [map_sub, hf, eval_term, Function.update_of_ne (by simp), Function.update_self, sub_self]
  · rw [map_sub, hf, eval_term, Function.update_self, sub_self]

theorem infeasible (hg : T.dictionary (.artificialObjective n) = some g) (hne : g.1 ≠ 0)
    (hm : ∀ v, v.isPivotable = true → 0 ≤ g.2 v) {σ : GSCSVariable → ℚ}
    (hσ : S.Holds .objective σ) (hf : signs.Feasible σ) : eval σ f ≠ 0 := by
  intro hz
  have hs := h.solution_of_holds hunused hσ
  rw [hz] at hs
  have hf' : signs.Feasible (Function.update (Function.update σ (.artificial n) 0) (.artificialObjective n) 0) := by
    constructor
    · intro v hv
      by_cases h1 : v = .artificialObjective n
      · subst h1
        cases hv
      · rw [Function.update_of_ne h1]
        by_cases h2 : v = .artificial n
        · rw [h2, Function.update_self]
        · rw [Function.update_of_ne h2]
          exact hf.1 v hv
    · intro v hv
      have h1 : v ≠ .artificialObjective n := by
        rintro rfl
        cases hv
      have h2 : v ≠ .artificial n := by
        rintro rfl
        cases hv
      rw [Function.update_of_ne h1, Function.update_of_ne h2]
      exact hf.2 v hv
  have hle := const_le (h.solves.tidy.closed _ g hg (Or.inr rfl)) hm hf'
  rw [← hs _ _ hg, Function.update_self] at hle
  have hge : 0 ≤ g.1 := by
    cases hk : T.dictionary (.artificial n) with
    | some k =>
      rw [h.row_basic hk hg]
      exact h.solves.tidy.slackRow _ _ hk rfl
    | none => rw [h.row_free hk hg, term_const]
  exact hne (le_antisymm hle hge)

theorem dummies_only (hT0 : Solves T0 S) (ht : ∀ w, f.2 w ≠ 0 → T0.dictionary w = none)
    (hr : ∀ w, f.2 w ≠ 0 → signs.Restricted w) (hk : T.dictionary (.artificial n) = some k) (hz : k.1 = 0)
    (hsl : ∀ w, k.2 w ≠ 0 → w.isPivotable = false) : f.1 = 0 ∧ ∀ w, f.2 w ≠ 0 → w.isDummy = true := by
  have hkd : ∀ w, k.2 w ≠ 0 → w.isDummy = true := by
    intro w hw
    rcases h.solves.tidy.closed _ k hk (Or.inl (Or.inl rfl)) w hw with hs | hd
    · rw [signs_slack, hsl w hw] at hs
      cases hs
    · exact hd
  -- where the dummies are 0 the expression is 0
  have ha : ∀ σ, T0.dictionary.Solution σ → (∀ v, v.isDummy = true → σ v = 0) → eval σ f = 0 := by
    intro σ hσ hd
    have hsol := h.solution_of_holds hunused ((hT0.represents.solution σ).mp hσ)
    have hrow := hsol _ _ hk
    have hk0 : eval (Function.update (Function.update σ (.artificial n) (eval σ f))
        (.artificialObjective n) (eval σ f)) k = 0 := by
      refine (eval_eq_const fun w hw => ?_).trans hz
      have hwd := hkd w hw
      have h1 : w ≠ .artificialObjective n := by
        rintro rfl
        cases hwd
      have h2 : w ≠ .artificial n := by
        rintro rfl
        cases hwd
      rw [Function.update_of_ne h1, Function.update_of_ne h2]
      exact hd w hwd
    rwa [hk0, Function.update_of_ne (by simp), Function.update_self] at hrow
  have hextend : ∀ τ : GSCSVariable → ℚ, (∀ v, v.isDummy = true → τ v = 0) → eval τ f = 0 := by
    intro τ hτ
    have hf : eval (T0.dictionary.extend τ) f = eval τ f := eval_congr fun w hw => Dictionary.extend_nonbasic (ht w hw)
    rw [← hf]
    refine ha _ (hT0.sound.canonical.solution_extend τ) fun v hv => ?_
    cases hd : T0.dictionary v with
    | none => rw [Dictionary.extend_nonbasic hd, hτ v hv]
    | some row =>
      obtain ⟨h0, hdum⟩ := hT0.tidy.dummyRow v row hd hv
      rw [Dictionary.extend_basic hd, eval_eq_const fun w hw => hτ w (hdum w hw), h0]
  have hc : f.1 = 0 := by rw [← hextend (fun _ => 0) fun _ _ => rfl, eval_eq_const fun _ _ => rfl]
  refine ⟨hc, fun w hw => ?_⟩
  rcases hr w hw with hs | hd
  · exfalso
    have := hextend (Function.update (fun _ => 0) w 1) fun v hv => by
      have hvw : v ≠ w := by
        rintro rfl
        exact signs.slack_not_dummy v hs hv
      rw [Function.update_of_ne hvw]
    rw [eval_update, eval_eq_const fun _ _ => rfl, hc] at this
    exact hw (by linarith)
  · exact hd

end PhaseOne

/-- What a failed addition leaves: the row of the artificial variable. -/
structure LeftBehind (s s' : GSCassowarySolver) (S : System GSCSVariable ℚ)
    (f : Form GSCSVariable ℚ) : Prop where
  infeasible : ∀ σ, S.Holds .objective σ → signs.Feasible σ → eval σ f ≠ 0
  solves : Solves s'.tableau
    ⟨(f - term (.artificial (s.artificialCounter + 1))) :: S.equations, S.objective⟩
  mentions : ∀ w, s'.tableau.dictionary.Mentions w → w = .artificial (s.artificialCounter + 1) ∨
    f.2 w ≠ 0 ∨ s.tableau.dictionary.Mentions w

/-- The call changed the tableau and the counters of artificial variables and expressions. -/
def ArtificialFrame (s s' : GSCassowarySolver) : Prop :=
  s' = { s with tableau := s'.tableau, artificialCounter := s.artificialCounter + 1,
                nextExpression := s.nextExpression + 1 }

theorem failure_run {n : Nat} {x : SolverException}
    {k : Unit → SolverM Unit}
    (h : s.tableau.removeRowForVariable (.artificialObjective n) = .ok T) : (do
      GSCassowarySolver.removeRow (.artificialObjective n)
      modifyTableau fun T => T.removeColumn m (.artificial n)
      let r ← throw x
      k r : SolverM Unit) s = .error x { s with tableau := T.removeColumn m (.artificial n) } := by
  rw [bind_ok (removeRow_run h)]
  rfl

theorem addWithArtificialVariable_spec (hm : m.tol = 0)
    (h : Solves s.tableau S) (hS : ∀ v, S.Mentions v → s.Known v)
    (hkn : ∀ v, s.tableau.dictionary.Mentions v → s.Known v) (hred : e.Reduced)
    (ht : ∀ w ∈ e.terms, s.tableau.dictionary w = none ∧ s.Known w)
    (hres : ∀ w ∈ e.terms, w.isRestricted = true) (hc : 0 ≤ e.constant) :
    match addWithArtificialVariable m e s with
    | .ok _ s' => ArtificialFrame s s' ∧ Solves s'.tableau ⟨e.form :: S.equations, S.objective⟩ ∧
        ∀ w, s'.tableau.dictionary.Mentions w → e.form.2 w ≠ 0 ∨ s.tableau.dictionary.Mentions w
    | .error x s' => x = .outOfFuel ∨
        (x = .invalidArgument "Cannot satisfy the required constraints" ∧ ArtificialFrame s s' ∧
          LeftBehind s s' S e.form) ∨
        (e.constant = 0 ∧ ∀ w ∈ e.terms, w.isDummy = true) := by
  obtain ⟨n, hn⟩ : ∃ n, n = s.artificialCounter + 1 := ⟨_, rfl⟩
  have hu : ¬ s.Known (.artificial n) ∧ ¬ s.Known (.artificialObjective n) :=
    ⟨by rw [hn]; exact not_le.mpr (Nat.lt_succ_self s.artificialCounter), id⟩
  have hunused : Unused S e.form n := by
    refine ⟨fun hv => hu.1 (hS _ hv), fun hv => hu.2 (hS _ hv), ?_, ?_⟩
    · by_contra hne
      exact hu.1 (ht _ ((mem_terms_iff hred).mpr hne)).2
    · by_contra hne
      exact hu.2 (ht _ ((mem_terms_iff hred).mpr hne)).2
  have hst := phaseOne_start h hm (n := n) ⟨fun hv => hu.1 (hkn _ hv),
    fun hv => hu.2 (hkn _ hv)⟩ hred (fun w hw => (ht w hw).1) hres hc hunused
    s.nextExpression
  obtain ⟨s2, hs2⟩ : ∃ s2, s2 = { s with
      artificialCounter := n
      nextExpression := s.nextExpression + 1
      tableau := (s.tableau.addRowForVariable (.artificialObjective n)
        (e.copy m.tol s.nextExpression)).addRowForVariable (.artificial n) e } := ⟨_, rfl⟩
  have hp : PhaseOne s.tableau s2.tableau S e.form n := by rw [hs2]; exact hst
  have hrun : addWithArtificialVariable m e s = (do
      optimize m (.artificialObjective n)
      if !isApproxiatelyZero m.tol ((← get).tableau.rowConstant (.artificialObjective n)) then
        GSCassowarySolver.removeRow (.artificialObjective n)
        modifyTableau fun T => T.removeColumn m (.artificial n)
        throw (.invalidArgument "Cannot satisfy the required constraints")
      removeArtificial m (.artificial n) (.artificialObjective n) : SolverM Unit) s2 := by
    rw [hs2, hn]
    rfl
  have hf : ∀ s3 : GSCassowarySolver, OnTableau s2 s3 → ArtificialFrame s s3 := by
    intro s3 h3
    unfold OnTableau at h3
    unfold ArtificialFrame
    rw [h3, hs2, hn]
  rw [hrun]
  have ho := optimizeLoop_spec hm (.artificialObjective n) m.fuel s2 hp.solves.sound
    hp.solves.tidy
  unfold optimize
  cases hl : optimizeLoop m (.artificialObjective n) m.fuel s2 with
  | error x s3 =>
    rw [hl] at ho
    obtain ⟨-, hrs, rfl | ⟨g, entry, hg, -, hneg, hrw⟩⟩ := ho
    · rw [bind_error hl]
      exact Or.inl rfl
    · exact absurd ((hp.reshaped hrs).bounded hg hrw) (not_le.mpr hneg)
  | ok u s3 =>
    rw [hl] at ho
    obtain ⟨hon, hrs, hmin⟩ := ho
    have hp3 := hp.reshaped hrs
    obtain ⟨g, hg⟩ := hp3.row
    obtain ⟨row, hrow, hgr⟩ := dictionary_eq_some.mp hg
    have hc3 : s3.tableau.rowConstant (.artificialObjective n) = g.1 := by
      rw [rowConstant_of_row hrow, ← hgr, form_const]
    rw [bind_ok hl, get_bind, hc3, hm]
    by_cases hz : g.1 = 0
    · rw [if_neg (by simp [hz])]
      have hsp := removeArtificial_spec hm hp3 hunused hg hz
      cases hrem : removeArtificial m (.artificial n) (.artificialObjective n) s3 with
      | ok u s4 =>
        rw [hrem] at hsp
        obtain ⟨hon4, hsl, hmn⟩ := hsp
        simp only [hrem]
        refine ⟨?_, hsl, fun w hw => ?_⟩
        · have h3 := hf s3 hon
          unfold OnTableau at hon4
          unfold ArtificialFrame at h3 ⊢
          rw [hon4, h3]
        · rcases hp3.mentions w (hmn w hw) with rfl | rfl | h' | h'
          · exact absurd hw (hsl.represents.not_mentions
              (hp.not_mentions_final hunused hunused.artificial hunused.coefficient) (by simp))
          · exact absurd hw (hsl.represents.not_mentions (hp.not_mentions_final hunused
              hunused.artificialObjective hunused.coefficientObjective) (by simp))
          · exact Or.inl h'
          · exact Or.inr h'
      | error x s4 =>
        rw [hrem] at hsp
        obtain ⟨k, hk, hsk⟩ := hsp
        simp only [hrem]
        have hk0 : k.1 = 0 := by rw [← hp3.row_basic hk hg, hz]
        obtain ⟨h1, h2⟩ := hp3.dummies_only hunused h
          (fun w hw => (ht w ((mem_terms_iff hred).mpr hw)).1)
          (fun w hw => (signs_restricted w).mpr (hres w ((mem_terms_iff hred).mpr hw))) hk hk0 hsk
        exact Or.inr (Or.inr ⟨h1, fun w hw => h2 w ((mem_terms_iff hred).mp hw)⟩)
    · rw [if_pos (by rw [Bool.not_eq_true', ← Bool.not_eq_true, isApproxiatelyZero_exact]; exact hz)]
      obtain ⟨T4, h4, h5, h6⟩ := hp3.eraseObjective hunused hg
      have hb : ∃ k, s3.tableau.dictionary (.artificial n) = some k := by
        cases hk : s3.tableau.dictionary (.artificial n) with
        | some k => exact ⟨k, rfl⟩
        | none =>
          rw [hp3.row_free hk hg, term_const] at hz
          exact absurd rfl hz
      obtain ⟨k, hk⟩ := hb
      have hcl : T4.dictionary.clear (.artificial n) = T4.dictionary := by
        refine Dictionary.clear_eq_self fun r x hr => ?_
        by_contra hne
        have hnn := h5.sound.canonical r x hr _ hne
        rw [h6, Dictionary.erase_ne (by simp), hk] at hnn
        cases hnn
      obtain ⟨h7, h8⟩ := h5.clearColumn (m := m) (v := .artificial n) rfl
        (by rw [hcl]; exact h5.represents)
      rw [failure_run h4]
      refine Or.inr (Or.inl ⟨rfl, hf _ ?_, fun σ hσ hfs => ?_, ?_, fun w hw => ?_⟩)
      · unfold OnTableau at hon ⊢
        rw [hon]
      · exact hp3.infeasible hunused hg hz (hmin g hg) hσ hfs
      · rw [← hn]
        exact h7
      · rw [h8, hcl] at hw
        have hw' := hw
        rw [h6] at hw'
        rw [← hn]
        rcases hp3.mentions w (Dictionary.mentions_erase hw') with rfl | rfl | h' | h'
        · exact Or.inl rfl
        · refine absurd hw (h5.represents.not_mentions ?_ (by simp))
          rintro (⟨x, hx, hne⟩ | hne)
          · rcases List.mem_cons.mp hx with rfl | hx
            · exact hne (by simp [hunused.coefficientObjective, term_coeff_ne])
            · exact hunused.artificialObjective (Or.inl ⟨x, hx, hne⟩)
          · exact hunused.artificialObjective (Or.inr hne)
        · exact Or.inr (Or.inl h')
        · exact Or.inr (Or.inr h')

end GnustepGui.Cassowary
