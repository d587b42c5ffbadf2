import GnustepGui.Cassowary.TableauIndex

/-!
# A tableau as a dictionary

In exact arithmetic (`m.tol = 0`) a tableau is a dictionary of the simplex method with an index.
`Sound T` says that the index is right and that no stored coefficient is 0; under it each operation
of the tableau is the operation of the library on `T.dictionary`: `addRow`, `erase`, `clear`, `pivot`.
-/

namespace GnustepGui.Cassowary

open GSCSLinearExpression GSCSTableau Simplex Simplex.Form

/-- The rows as affine forms. -/
noncomputable def GSCSTableau.dictionary (T : GSCSTableau) : Dictionary GSCSVariable ℚ :=
  fun v => (T.rows.lookup v).map form

structure Sound (T : GSCSTableau) : Prop where
  index : CrossIndexed T
  sets : T.ColumnsNodup
  reduced : ∀ r e, T.rows.lookup r = some e → e.Reduced

variable {m : Machine} {T : GSCSTableau} {v w r : GSCSVariable} {e row : GSCSLinearExpression}

theorem dictionary_eq_some {f : Form GSCSVariable ℚ} :
    T.dictionary r = some f ↔ ∃ e, T.rows.lookup r = some e ∧ e.form = f := by
  unfold GSCSTableau.dictionary
  rw [Option.map_eq_some_iff]

theorem dictionary_of_row (h : T.rows.lookup r = some e) : T.dictionary r = some e.form :=
  dictionary_eq_some.mpr ⟨e, h, rfl⟩

theorem dictionary_eq_none : T.dictionary r = none ↔ T.rows.lookup r = none := Option.map_eq_none_iff

theorem rowConstant_of_row (h : T.rows.lookup r = some e) : T.rowConstant r = e.constant := by
  unfold rowConstant rowExpressionForVariable
  rw [h]
  rfl

theorem rowConstant_eq_basic (T : GSCSTableau) (r : GSCSVariable) : T.rowConstant r = T.dictionary.basic r := by
  cases hr : T.rows.lookup r with
  | none =>
    rw [Dictionary.basic_nonbasic (dictionary_eq_none.mpr hr)]
    unfold rowConstant rowExpressionForVariable
    rw [hr]
    rfl
  | some e => rw [rowConstant_of_row hr, Dictionary.basic_row (dictionary_of_row hr), form_const]

theorem rowCoefficient_of_row (h : T.rows.lookup r = some e) : T.rowCoefficient r v = e.coefficientForTerm v := by
  unfold rowCoefficient rowExpressionForVariable
  rw [h]
  rfl

/-! ## Forms of changed expressions -/

section Forms

variable (hm : m.tol = 0)

include hm

theorem form_addVariable (hv : v ∉ e.terms) (c : ℚ) : (e.addVariable m.tol v c).form = e.form + c • term v := by
  refine Prod.ext ?_ (Finsupp.ext fun w => ?_)
  · simp
  · rw [form_coeff, Prod.snd_add, Finsupp.add_apply, form_coeff, Prod.smul_snd, Finsupp.smul_apply, smul_eq_mul]
    by_cases hw : w = v
    · subst hw
      rw [term_coeff_self, mul_one, coefficientForTerm_of_notMem e w hv, zero_add]
      by_cases hc : c = 0
      · have : ¬ w ∈ (e.addVariable m.tol w c).terms := by
          rw [mem_addVariable, hm]
          simp [hv, hc]
        rw [coefficientForTerm_of_notMem _ _ this, hc]
      · exact addVariable_coefficient_self _ _ _ _ (by rw [hm, abs_nonpos_iff]; exact hc)
    · rw [addVariable_coefficient_ne _ _ _ _ _ hw, term_coeff_ne hw, mul_zero, add_zero]

theorem form_setTerm {c : ℚ} (hc : c ≠ 0) :
    (e.addVariable m.tol v c).form = e.form + (c - e.coefficientForTerm v) • term v := by
  refine Prod.ext ?_ (Finsupp.ext fun w => ?_)
  · simp
  · rw [form_coeff, Prod.snd_add, Finsupp.add_apply, form_coeff, Prod.smul_snd, Finsupp.smul_apply, smul_eq_mul]
    by_cases hw : w = v
    · subst hw
      rw [term_coeff_self,
        addVariable_coefficient_self _ _ _ _ (by rw [hm, abs_nonpos_iff]; exact hc)]
      ring
    · rw [addVariable_coefficient_ne _ _ _ _ _ hw, term_coeff_ne hw, mul_zero, add_zero]

omit hm in
theorem form_removeTerm : (e.removeVariable v).form = e.form + (-e.coefficientForTerm v) • term v := by
  refine Prod.ext ?_ (Finsupp.ext fun w => ?_)
  · simp
  · rw [form_coeff, Prod.snd_add, Finsupp.add_apply, form_coeff, Prod.smul_snd, Finsupp.smul_apply, smul_eq_mul]
    by_cases hw : w = v
    · subst hw
      rw [term_coeff_self, removeVariable_coefficient_self]
      ring
    · rw [removeVariable_coefficient_ne _ _ _ hw, term_coeff_ne hw, mul_zero, add_zero]

/-- The exit equation solved for the entry variable. -/
theorem form_changeSubject {entry exit : GSCSVariable} (hr : row.Reduced)
    (hent : entry ∈ row.terms) (hexit : exit ∉ row.terms) :
    (changeSubject m row exit entry).form = solveFor exit entry row.form := by
  have hk := hr entry hent
  have hne : exit ≠ entry := fun he => hexit (he ▸ hent)
  unfold changeSubject
  simp only
  rw [form_addVariable hm (by rw [mem_newSubject]; exact fun h => hexit h.2)]
  unfold newSubject
  simp only
  rw [form_removeTerm, form_multiply, multiply_coefficient]
  refine Prod.ext ?_ (Finsupp.ext fun w => ?_)
  · rw [solveFor_const]
    simp only [Prod.fst_add, Prod.smul_fst, term_const, smul_eq_mul, form_const, form_coeff]
    ring
  · simp only [Prod.snd_add, Prod.smul_snd, Finsupp.add_apply, Finsupp.smul_apply, smul_eq_mul, form_coeff]
    by_cases hw : w = entry
    · subst hw
      rw [solveFor_coeff_self (by rwa [form_coeff]) hne, term_coeff_self, term_coeff_ne hne.symm]
      field_simp
      ring
    · by_cases hwx : w = exit
      · subst hwx
        rw [solveFor_coeff_subject (by rw [form_coeff]; exact coefficientForTerm_of_notMem _ _ hexit)
          hne, term_coeff_self, term_coeff_ne hw, coefficientForTerm_of_notMem _ _ hexit, form_coeff]
        field_simp
        ring
      · rw [solveFor_coeff_ne _ hwx hw, term_coeff_ne hw, term_coeff_ne hwx, form_coeff, form_coeff]
        field_simp
        ring

theorem changeSubject_reduced {entry exit : GSCSVariable} (hr : row.Reduced)
    (he : entry ∈ row.terms) : (changeSubject m row exit entry).Reduced :=
  (hr.newSubject entry he).addVariable _ _ _ (le_of_eq hm.symm)

variable {newExpression : GSCSLinearExpression} {multiplier : ℚ}

theorem substituteTermStep_coefficient
    (t w : GSCSVariable) : (substituteTermStep m newExpression multiplier e t).coefficientForTerm w =
      e.coefficientForTerm w +
        if w = t then multiplier * newExpression.coefficientForTerm t else 0 := by
  by_cases hw : w = t
  · subst hw
    rw [if_pos rfl]
    unfold substituteTermStep
    split
    · next c hc =>
      have he : e.coefficientForTerm w = c := by
        unfold coefficientForTerm
        rw [hc]
        rfl
      rw [he]
      split
      · next hz =>
        rw [hm, isApproxiatelyZero_exact] at hz
        rw [removeVariable_coefficient_self, hz]
      · next hz =>
        rw [isApproxiatelyZero_iff] at hz
        rw [addVariable_coefficient_self _ _ _ _ hz]
    · next hc =>
      have he : w ∉ e.terms := AList.lookup_eq_none.mp hc
      rw [coefficientForTerm_of_notMem _ _ he, zero_add]
      have := congrArg (fun f => f.2 w) (form_addVariable hm he
        (multiplier * newExpression.coefficientForTerm w))
      simpa [coefficientForTerm_of_notMem _ _ he, term] using this
  · rw [if_neg hw, add_zero]
    unfold substituteTermStep
    split
    · split
      · exact removeVariable_coefficient_ne _ _ _ hw
      · exact addVariable_coefficient_ne _ _ _ _ _ hw
    · exact addVariable_coefficient_ne _ _ _ _ _ hw

theorem foldl_coefficient
    {ts : List GSCSVariable} (ht : ts.Nodup) (w : GSCSVariable) : ∀ e : GSCSLinearExpression,
    (ts.foldl (substituteTermStep m newExpression multiplier) e).coefficientForTerm w =
      e.coefficientForTerm w +
        if w ∈ ts then multiplier * newExpression.coefficientForTerm w else 0 := by
  induction ts with
  | nil => intro e; simp
  | cons t ts ih =>
    intro e
    obtain ⟨hn, ht⟩ := List.nodup_cons.mp ht
    rw [List.foldl_cons, ih ht, substituteTermStep_coefficient hm]
    by_cases hw : w = t
    · subst hw
      simp [hn]
    · simp [hw]

theorem substituteExpression_coefficient (w : GSCSVariable) :
    (substituteExpression m v newExpression e).coefficientForTerm w = (e.removeVariable v).coefficientForTerm w +
        e.coefficientForTerm v * newExpression.coefficientForTerm w := by
  unfold substituteExpression
  rw [foldl_coefficient hm newExpression.nodup_termVariables]
  congr 1
  split
  · rfl
  · next h =>
    rw [mem_termVariables] at h
    rw [coefficientForTerm_of_notMem _ _ h, mul_zero]

theorem form_substituteExpression (hv : v ∉ newExpression.terms) :
    (substituteExpression m v newExpression e).form = substitute v newExpression.form e.form := by
  refine Prod.ext ?_ (Finsupp.ext fun w => ?_)
  · rw [form_const, substituteExpression_constant, substitute_const, form_const, form_const, form_coeff]
    ring
  · rw [form_coeff, substituteExpression_coefficient hm]
    by_cases hw : w = v
    · subst hw
      rw [substitute_coeff_self (by rw [form_coeff]; exact coefficientForTerm_of_notMem _ _ hv),
        removeVariable_coefficient_self, coefficientForTerm_of_notMem _ _ hv]
      simp
    · rw [substitute_coeff_ne hw, removeVariable_coefficient_ne _ _ _ hw]
      simp

theorem substituteTermStep_reduced
    (h : e.Reduced) (t : GSCSVariable) : (substituteTermStep m newExpression multiplier e t).Reduced := by
  have ht : 0 ≤ m.tol := le_of_eq hm.symm
  unfold substituteTermStep
  split
  · split
    · exact h.removeVariable _
    · exact h.addVariable _ _ _ ht
  · exact h.addVariable _ _ _ ht

theorem substituteExpression_reduced (h : e.Reduced) : (substituteExpression m v newExpression e).Reduced := by
  have hf : ∀ (ts : List GSCSVariable) (multiplier : ℚ) (e : GSCSLinearExpression), e.Reduced →
      (ts.foldl (substituteTermStep m newExpression multiplier) e).Reduced := by
    intro ts multiplier
    induction ts with
    | nil => exact fun _ h => h
    | cons t ts ih => exact fun e h => ih _ (substituteTermStep_reduced hm h t)
  exact hf _ _ _ (h.removeVariable v)

theorem takes_exact (h : e.Reduced) (hn : newExpression.Reduced) (hv : v ∈ e.terms) : Takes m v newExpression e := by
  intro t ht _
  rw [hm, abs_pos]
  exact mul_ne_zero (h v hv) (hn t ht)

end Forms

/-! ## Operations -/

namespace Sound

variable (h : Sound T)

include h

theorem mem_terms (hr : T.rows.lookup r = some e) : v ∈ e.terms ↔ e.form.2 v ≠ 0 := by
  rw [form_coeff]
  exact (h.reduced r e hr).mem_iff v

theorem mem_column : r ∈ T.column v ↔ ∃ f, T.dictionary r = some f ∧ f.2 v ≠ 0 := by
  rw [h.index.column]
  constructor
  · rintro ⟨e, hr, hv⟩
    exact ⟨_, dictionary_of_row hr, (h.mem_terms hr).mp hv⟩
  · rintro ⟨f, hf, hv⟩
    obtain ⟨e, hr, rfl⟩ := dictionary_eq_some.mp hf
    exact ⟨e, hr, (h.mem_terms hr).mpr hv⟩

theorem canonical : T.dictionary.Canonical := by
  intro r f hf v hv
  obtain ⟨e, hr, rfl⟩ := dictionary_eq_some.mp hf
  rw [dictionary_eq_none]
  exact h.index.basic r e v hr ((h.mem_terms hr).mpr hv)

variable (hm : m.tol = 0)

include hm

theorem substituted (ha : CanAdd T v e) (he : e.Reduced) : Sound (substituteOutAndAddRow m T v e) ∧
      (substituteOutAndAddRow m T v e).dictionary = T.dictionary.addRow v e.form := by
  refine ⟨⟨(substituted_crossIndexed h.index h.sets ha).mpr fun r row hr hv =>
    takes_exact hm (h.reduced r row hr) he hv, substituted_nodup h.index h.sets,
    fun r row hr => ?_⟩, ?_⟩
  · rw [substituted_rows h.index h.sets] at hr
    by_cases hrv : r = v
    · rw [if_pos hrv] at hr
      obtain rfl := Option.some.inj hr
      exact he
    · rw [if_neg hrv] at hr
      obtain ⟨row', hr', rfl⟩ := Option.map_eq_some_iff.mp hr
      split
      · exact substituteExpression_reduced hm (h.reduced r row' hr')
      · exact h.reduced r row' hr'
  · funext r
    unfold GSCSTableau.dictionary
    rw [substituted_rows h.index h.sets]
    by_cases hrv : r = v
    · rw [if_pos hrv, hrv, Dictionary.addRow_self]
      rfl
    · rw [if_neg hrv, Dictionary.addRow_ne hrv, Option.map_map, Option.map_map]
      cases hr : T.rows.lookup r with
      | none => rfl
      | some row =>
        simp only [Option.map_some, Function.comp_apply, Option.some.injEq]
        split
        · exact form_substituteExpression hm ha.self
        · next hv =>
          rw [substitute_of_coeff_eq_zero]
          rw [form_coeff]
          exact coefficientForTerm_of_notMem _ _ hv

omit hm in
theorem addRow (ha : CanAdd T v e) (he : e.Reduced) (hc : T.column v = []) : Sound (T.addRowForVariable v e) ∧
      (T.addRowForVariable v e).dictionary = T.dictionary.addRow v e.form := by
  refine ⟨⟨h.index.addRow ha hc, addRow_nodup v e h.sets, fun r row hr => ?_⟩, ?_⟩
  · rw [addRow_rows] at hr
    by_cases hrv : r = v
    · subst hrv
      rw [AList.lookup_insert] at hr
      obtain rfl := Option.some.inj hr
      exact he
    · rw [AList.lookup_insert_ne hrv] at hr
      exact h.reduced r row hr
  · funext r
    unfold GSCSTableau.dictionary
    rw [addRow_rows]
    by_cases hrv : r = v
    · subst hrv
      rw [AList.lookup_insert, Dictionary.addRow_self]
      rfl
    · rw [AList.lookup_insert_ne hrv, Dictionary.addRow_ne hrv, Option.map_map]
      cases hr : T.rows.lookup r with
      | none => rfl
      | some row =>
        have hv : v ∉ row.terms := fun hv => by
          have := (h.index.column_of_row hr).mpr hv
          rw [hc] at this
          simp at this
        simp only [Option.map_some, Function.comp_apply, Option.some.injEq]
        rw [substitute_of_coeff_eq_zero]
        rw [form_coeff]
        exact coefficientForTerm_of_notMem _ _ hv

theorem addDirectly (ha : CanAdd T v e) (he : e.Reduced) :
    Sound ((if T.hasColumnForVariable v then T.substituteOutVariable m v e
      else T).addRowForVariable v e) ∧
    ((if T.hasColumnForVariable v then T.substituteOutVariable m v e
      else T).addRowForVariable v e).dictionary = T.dictionary.addRow v e.form := by
  split
  · exact h.substituted hm ha he
  · next hc =>
    refine h.addRow ha he ?_
    unfold hasColumnForVariable columnForVariable at hc
    unfold GSCSTableau.column
    rw [Option.not_isSome_iff_eq_none.mp hc]
    rfl

omit hm in
theorem removeRow (hrow : T.rows.lookup v = some e) : ∃ T', T.removeRowForVariable v = .ok T' ∧
    Sound T' ∧ T'.dictionary = T.dictionary.erase v := by
  obtain ⟨T', hok, hrw, -, -, -, -, hnd⟩ := removeRow_ok v hrow
  refine ⟨T', hok, ⟨h.index.removeRow hrow hok, hnd h.sets, fun r row hr => ?_⟩, ?_⟩
  · rw [hrw] at hr
    by_cases hrv : r = v
    · rw [hrv, AList.lookup_erase] at hr
      simp at hr
    · rw [AList.lookup_erase_ne hrv] at hr
      exact h.reduced r row hr
  · funext r
    unfold GSCSTableau.dictionary
    rw [hrw]
    by_cases hrv : r = v
    · rw [hrv, AList.lookup_erase, Dictionary.erase_self]
      rfl
    · rw [AList.lookup_erase_ne hrv, Dictionary.erase_ne hrv]

omit hm in
theorem removeColumn (hv : v.isExternal = false) : Sound (T.removeColumn m v) ∧
    (T.removeColumn m v).dictionary = T.dictionary.clear v := by
  refine ⟨⟨h.index.removeColumn hv, removeColumn_nodup m v h.sets, fun r row hr => ?_⟩, ?_⟩
  · rw [removeColumn_rows] at hr
    obtain ⟨row', hr', rfl⟩ := Option.map_eq_some_iff.mp hr
    split
    · exact (h.reduced r row' hr').removeVariable v
    · exact h.reduced r row' hr'
  · funext r
    unfold GSCSTableau.dictionary Dictionary.clear
    rw [removeColumn_rows, Option.map_map, Option.map_map]
    cases hr : T.rows.lookup r with
    | none => rfl
    | some row =>
      simp only [Option.map_some, Function.comp_apply, Option.some.injEq]
      split
      · exact form_removeVariable row v
      · next hv =>
        rw [h.index.column_of_row hr] at hv
        refine Prod.ext rfl (Finsupp.ext fun w => ?_)
        by_cases hw : w = v
        · subst hw
          simp [coefficientForTerm_of_notMem _ _ hv]
        · rw [Finsupp.erase_ne hw]

theorem pivot {entry exit : GSCSVariable} (hr : T.rows.lookup exit = some row)
    (he : entry ∈ row.terms) : ∃ T', T.pivotWithEntryVariable m entry exit = .ok T' ∧ Sound T' ∧
      Dictionary.CanPivot T.dictionary entry exit row.form ∧
      T'.dictionary = T.dictionary.pivot entry exit row.form := by
  have hc : Dictionary.CanPivot T.dictionary entry exit row.form :=
    ⟨h.canonical, dictionary_of_row hr, (h.mem_terms hr).mp he⟩
  have hred := h.reduced exit row hr
  have hexit : exit ∉ row.terms := fun hx => (h.mem_terms hr).mp hx hc.coeff_exit
  obtain ⟨T1, hT1, hp⟩ := pivot_eq m entry hr
  obtain ⟨hcr, hnd, hrw, ha⟩ := h.index.pivot_removed (m := m) h.sets hr he hT1
  obtain ⟨T2, hT2, hs2, hd2⟩ := h.removeRow hr
  rw [hT1] at hT2
  obtain rfl := Except.ok.inj hT2
  have hs : Sound (T1.recordUpdatedVariable exit) := ⟨hcr, hnd, hs2.reduced⟩
  obtain ⟨h1, h2⟩ := hs.substituted hm ha (changeSubject_reduced hm hred he)
  refine ⟨_, hp, h1, hc, ?_⟩
  rw [h2, form_changeSubject hm hred he hexit]
  unfold Dictionary.pivot
  rw [← hd2]
  rfl

end Sound

/-! ## Adding to a row -/

theorem Sound.replaceRow (h : Sound T) (hr : T.rows.lookup r = some e) {T' : GSCSTableau}
    {e' : GSCSLinearExpression} (hrw : T'.rows = T.rows.insert r e')
    (ha : e'.address = e.address) (hred : e'.Reduced)
    (ht : ∀ w ∈ e'.terms, T.rows.lookup w = none)
    (hc : ∀ x w, x ∈ T'.column w ↔ if x = r then w ∈ e'.terms else x ∈ T.column w)
    (hs : T'.ColumnsNodup) (hext : T'.externalRows = T.externalRows)
    (hp : ∀ w, w ∈ T'.externalParametricVariables ↔
      w ∈ T.externalParametricVariables ∨ (w ∈ e'.terms ∧ w ∉ e.terms ∧ w.isExternal)) :
    Sound T' ∧ T'.dictionary = Function.update T.dictionary r (some e'.form) := by
  have hl : ∀ x, T'.rows.lookup x = if x = r then some e' else T.rows.lookup x := by
    intro x
    rw [hrw]
    by_cases hx : x = r
    · rw [hx, AList.lookup_insert, if_pos rfl]
    · rw [AList.lookup_insert_ne hx, if_neg hx]
  refine ⟨⟨⟨fun x w => ?_, fun x row w hx hw => ?_, fun w => ?_, fun x row w hx hw hwe => ?_⟩, hs,
    fun x row hx => ?_⟩, ?_⟩
  · rw [hc, hl]
    by_cases hx : x = r
    · simp [hx]
    · rw [if_neg hx, if_neg hx, h.index.column]
  · have hn : T.rows.lookup w = none := by
      rw [hl] at hx
      split at hx
      · obtain rfl := Option.some.inj hx
        exact ht w hw
      · exact h.index.basic x row w hx hw
    rw [hl, if_neg, hn]
    rintro rfl
    rw [hr] at hn
    simp at hn
  · rw [hext, h.index.externalRows, hl]
    by_cases hw : w = r
    · subst hw
      rw [if_pos rfl, hr]
      simp [ha]
    · rw [if_neg hw]
  · rw [hp]
    rw [hl] at hx
    split at hx
    · obtain rfl := Option.some.inj hx
      by_cases hwe' : w ∈ e.terms
      · exact Or.inl (h.index.parametric r e w hr hwe' hwe)
      · exact Or.inr ⟨hw, hwe', hwe⟩
    · exact Or.inl (h.index.parametric x row w hx hw hwe)
  · rw [hl] at hx
    split at hx
    · obtain rfl := Option.some.inj hx
      exact hred
    · exact h.reduced x row hx
  · funext x
    unfold GSCSTableau.dictionary
    rw [hl]
    by_cases hx : x = r
    · subst hx
      rw [if_pos rfl, Function.update_self]
      rfl
    · rw [if_neg hx, Function.update_of_ne hx]

theorem recordUpdated_parametric (T : GSCSTableau) (v w : GSCSVariable) :
    w ∈ (T.recordUpdatedVariable v).externalParametricVariables ↔
      w ∈ T.externalParametricVariables ∨ (w = v ∧ w.isExternal) := by
  unfold recordUpdatedVariable
  simp only
  by_cases hv : v.isExternal
  · rw [if_pos hv, List.mem_insert_iff]
    constructor
    · rintro (rfl | h)
      · exact Or.inr ⟨rfl, hv⟩
      · exact Or.inl h
    · rintro (h | ⟨rfl, -⟩)
      · exact Or.inr h
      · exact Or.inl rfl
  · rw [if_neg hv]
    constructor
    · exact Or.inl
    · rintro (h | ⟨rfl, h⟩)
      · exact h
      · exact absurd h hv

theorem Sound.recordUpdated (h : Sound T) (v : GSCSVariable) : Sound (T.recordUpdatedVariable v) :=
  ⟨h.index.recordUpdated v, h.sets, h.reduced⟩

theorem Sound.addVariableToRow (h : Sound T) (hm : m.tol = 0) (hr : T.rows.lookup r = some e)
    (hv : T.rows.lookup v = none) (c : ℚ) : Sound (GSCSTableau.addVariableToRow m T v c r) ∧
      (GSCSTableau.addVariableToRow m T v c r).dictionary =
        Function.update T.dictionary r (some (e.form + c • term v)) := by
  have hred := h.reduced r e hr
  have ht : 0 ≤ m.tol := le_of_eq hm.symm
  have hn : ∀ w ∈ e.terms, T.rows.lookup w = none := fun w hw => h.index.basic r e w hr hw
  have hcl : ∀ x w, x ∈ T.column w ↔ if x = r then w ∈ e.terms else x ∈ T.column w := by
    intro x w
    by_cases hx : x = r
    · rw [if_pos hx, hx, h.index.column_of_row hr]
    · rw [if_neg hx]
  unfold GSCSTableau.addVariableToRow rowExpressionForVariable
  rw [hr]
  simp only
  by_cases htr : v ∈ e.terms
  · rw [if_pos (by rwa [isTermForVariable_iff])]
    by_cases hz : e.coefficientForTerm v + c = 0
    · rw [if_pos (Or.inl hz)]
      have hf : e.form + c • term v = (e.removeVariable v).form := by
        rw [form_removeTerm]
        congr 2
        linarith
      rw [hf]
      refine h.replaceRow hr rfl rfl (hred.removeVariable v) ?_ (fun x w => ?_)
        (h.sets.removeMapping v r) rfl (fun w => ?_)
      · intro w hw
        rw [mem_removeVariable] at hw
        exact hn w hw.2
      · rw [column_eq]
        simp only
        rw [Columns.mem_removeMapping, ← column_eq, hcl, mem_removeVariable]
        by_cases hx : x = r
        · simp [hx, and_comm]
        · simp [hx]
      · rw [mem_removeVariable]
        simp only
        tauto
    · rw [if_neg (by rw [hm, isApproxiatelyZero_exact, or_self]; exact hz)]
      have hf : e.form + c • term v = (e.addVariable m.tol v (e.coefficientForTerm v + c)).form := by
        rw [form_setTerm hm hz]
        congr 2
        ring
      rw [hf]
      have hmem : ∀ w, w ∈ (e.addVariable m.tol v (e.coefficientForTerm v + c)).terms ↔ w ∈ e.terms := by
        intro w
        rw [mem_addVariable]
        constructor
        · rintro (hw | ⟨rfl, -⟩)
          · exact hw
          · exact htr
        · exact Or.inl
      refine h.replaceRow hr rfl (addVariable_address _ _ _ _) (hred.addVariable _ _ _ ht) ?_
        (fun x w => ?_) h.sets rfl (fun w => ?_)
      · intro w hw
        exact hn w ((hmem w).mp hw)
      · rw [hmem]
        exact hcl x w
      · rw [hmem, recordUpdated_parametric]
        constructor
        · rintro (hw | ⟨rfl, hw⟩)
          · exact Or.inl hw
          · exact Or.inl (h.index.parametric r e w hr htr hw)
        · rintro (hw | ⟨h1, h2, -⟩)
          · exact Or.inl hw
          · exact absurd h1 h2
  · rw [if_neg (by rwa [isTermForVariable_iff])]
    by_cases hc : c = 0
    · rw [if_pos (by rw [hm, isApproxiatelyZero_exact]; exact hc), hc, zero_smul, add_zero]
      refine ⟨h, ?_⟩
      funext x
      by_cases hx : x = r
      · rw [hx, Function.update_self, dictionary_of_row hr]
      · rw [Function.update_of_ne hx]
    · rw [if_neg (by rw [hm, isApproxiatelyZero_exact]; exact hc), ← form_addVariable hm htr]
      have hmem : ∀ w, w ∈ (e.addVariable m.tol v c).terms ↔ w ∈ e.terms ∨ w = v := by
        intro w
        rw [mem_addVariable, hm, abs_nonpos_iff]
        simp [hc]
      refine h.replaceRow hr rfl (addVariable_address _ _ _ _) (hred.addVariable _ _ _ ht) ?_
        (fun x w => ?_) (h.sets.addMapping v r) rfl (fun w => ?_)
      · intro w hw
        rcases (hmem w).mp hw with hw | rfl
        · exact hn w hw
        · exact hv
      · rw [hmem, column_eq]
        simp only [setRow, recordUpdatedVariable]
        rw [Columns.mem_addMapping, ← column_eq, hcl]
        by_cases hx : x = r
        · simp [hx]
        · simp [hx]
      · rw [hmem]
        show w ∈ (GSCSTableau.recordUpdatedVariable _ v).externalParametricVariables ↔ _
        rw [recordUpdated_parametric]
        constructor
        · rintro (hw | ⟨rfl, hw⟩)
          · exact Or.inl hw
          · exact Or.inr ⟨Or.inr rfl, htr, hw⟩
        · rintro (hw | ⟨h1 | h1, h2, h3⟩)
          · exact Or.inl hw
          · exact absurd h1 h2
          · exact Or.inr ⟨h1, h3⟩

theorem Sound.addTermsToRow (hm : m.tol = 0) (n : ℚ) (newExpression : GSCSLinearExpression) :
    ∀ (ts : List GSCSVariable) {T : GSCSTableau} {e : GSCSLinearExpression}, Sound T →
      T.rows.lookup r = some e → (∀ t ∈ ts, T.rows.lookup t = none) →
      Sound (ts.foldl (fun T t => (GSCSTableau.addVariableToRow m T t
          (newExpression.coefficientForTerm t * n) r).recordUpdatedVariable t) T) ∧
        (ts.foldl (fun T t => (GSCSTableau.addVariableToRow m T t
          (newExpression.coefficientForTerm t * n) r).recordUpdatedVariable t) T).dictionary =
          Function.update T.dictionary r (some (e.form + n • (ts.map fun t => newExpression.coefficientForTerm t •
              (term t : Form GSCSVariable ℚ)).sum)) := by
  intro ts
  induction ts with
  | nil =>
    intro T e h hr _
    refine ⟨h, ?_⟩
    funext x
    by_cases hx : x = r
    · rw [hx, Function.update_self, List.foldl_nil, dictionary_of_row hr]
      simp
    · rw [Function.update_of_ne hx]
      rfl
  | cons t ts ih =>
    intro T e h hr ht
    obtain ⟨h1, h2⟩ := h.addVariableToRow hm hr (ht t (by simp))
      (newExpression.coefficientForTerm t * n)
    have hr1 := dictionary_eq_some.mp (h2 ▸ Function.update_self r _ T.dictionary)
    obtain ⟨e1, hr1, hf1⟩ := hr1
    have hn : ∀ x, T.rows.lookup x = none →
        (GSCSTableau.addVariableToRow m T t (newExpression.coefficientForTerm t * n) r).rows.lookup x = none := by
      intro x hx
      rw [← dictionary_eq_none, h2, Function.update_of_ne, dictionary_eq_none]
      · exact hx
      · rintro rfl
        rw [hr] at hx
        simp at hx
    obtain ⟨h3, h4⟩ := ih (h1.recordUpdated t) hr1 fun x hx => hn x (ht x (by simp [hx]))
    simp only [List.foldl_cons]
    refine ⟨h3, h4.trans ?_⟩
    have hd : (GSCSTableau.recordUpdatedVariable (GSCSTableau.addVariableToRow m T t
        (newExpression.coefficientForTerm t * n) r) t).dictionary =
        Function.update T.dictionary r
          (some (e.form + (newExpression.coefficientForTerm t * n) • term t)) := h2
    rw [hd, Function.update_idem, hf1, List.map_cons, List.sum_cons, smul_add, smul_smul, mul_comm n, add_assoc]

theorem form_eq_sum (e : GSCSLinearExpression) :
    e.form = (e.constant, 0) + (e.termVariables.map fun t => e.coefficientForTerm t •
      (term t : Form GSCSVariable ℚ)).sum := by
  have hs : ∀ ts : List GSCSVariable, ts.Nodup →
      ((ts.map fun t => e.coefficientForTerm t • (term t : Form GSCSVariable ℚ)).sum).1 = 0 ∧
      ∀ w, ((ts.map fun t => e.coefficientForTerm t • (term t : Form GSCSVariable ℚ)).sum).2 w =
        if w ∈ ts then e.coefficientForTerm w else 0 := by
    intro ts
    induction ts with
    | nil => intro _; simp
    | cons t ts ih =>
      intro ht
      obtain ⟨hn, ht⟩ := List.nodup_cons.mp ht
      obtain ⟨h1, h2⟩ := ih ht
      refine ⟨by simp [h1], fun w => ?_⟩
      rw [List.map_cons, List.sum_cons, Prod.snd_add, Finsupp.add_apply, h2, Prod.smul_snd,
        Finsupp.smul_apply, smul_eq_mul]
      by_cases hw : w = t
      · subst hw
        simp [term_coeff_self, hn]
      · simp [term_coeff_ne hw, hw]
  obtain ⟨h1, h2⟩ := hs e.termVariables e.nodup_termVariables
  refine Prod.ext (by simp [h1]) (Finsupp.ext fun w => ?_)
  rw [Prod.snd_add, Finsupp.add_apply, h2, form_coeff]
  by_cases hw : w ∈ e.terms
  · simp [hw]
  · simp [hw, coefficientForTerm_of_notMem _ _ hw]

theorem Sound.addNewExpressionToRow (h : Sound T) (hm : m.tol = 0)
    (hr : T.rows.lookup r = some e) {newExpression : GSCSLinearExpression}
    (hn : ∀ t ∈ newExpression.terms, T.rows.lookup t = none) (n : ℚ) :
    Sound (GSCSTableau.addNewExpressionToRow m T newExpression n r) ∧
      (GSCSTableau.addNewExpressionToRow m T newExpression n r).dictionary =
        Function.update T.dictionary r (some (e.form + n • newExpression.form)) := by
  unfold GSCSTableau.addNewExpressionToRow rowExpressionForVariable
  rw [hr]
  simp only
  have hs : (T.setRow r (e.setConstant (e.constant + n * newExpression.constant))).rows =
      T.rows.insert r (e.setConstant (e.constant + n * newExpression.constant)) := rfl
  obtain ⟨h1, h2⟩ := h.replaceRow hr hs rfl
    (h.reduced r e hr) (fun w hw => h.index.basic r e w hr hw)
    (fun x w => by
      show x ∈ T.column w ↔ _
      by_cases hx : x = r
      · rw [if_pos hx, hx, h.index.column_of_row hr]
        rfl
      · rw [if_neg hx]) h.sets rfl (fun w => by
      show w ∈ T.externalParametricVariables ↔ _
      simp only [setConstant_terms]
      tauto)
  obtain ⟨h3, h4⟩ := Sound.addTermsToRow (r := r) hm n newExpression newExpression.termVariables h1
    (show (T.rows.insert r _).lookup r = some _ by rw [AList.lookup_insert]) fun t ht => by
      show (T.rows.insert r _).lookup t = none
      rw [mem_termVariables] at ht
      have hnn := hn t ht
      rw [AList.lookup_insert_ne]
      · exact hnn
      · rintro rfl
        rw [hr] at hnn
        simp at hnn
  refine ⟨h3, h4.trans ?_⟩
  rw [h2, Function.update_idem]
  congr 2
  conv_rhs => rw [form_eq_sum newExpression]
  rw [smul_add, ← add_assoc]
  congr 1
  refine Prod.ext ?_ ?_
  · simp
  · simp [form]

end GnustepGui.Cassowary
