import GnustepGui.Cassowary.Substitution

/-!
# The cross indices of a tableau

`CrossIndexed T` says that the columns list exactly the rows that mention a variable, that rows
mention no basic variable, that `externalRows` has the rows of the external basic variables, and that
external variables in rows are recorded as parametric.

`substituteOutTermInExpression` enters a term the row lacked into the column index without asking
whether the row took it up, unlike `addVariable:toExpression:withCoefficient:subject:`. So the
indices hold in every state of a run exactly when each substitution is `Clear`: no product of
coefficients it writes is within the tolerance of 0 (`alwaysCrossIndexed_iff`).
-/

namespace GnustepGui.Cassowary

open GSCSLinearExpression GSCSTableau

structure CrossIndexed (T : GSCSTableau) : Prop where
  column : ∀ r v, r ∈ T.column v ↔ ∃ e, T.rows.lookup r = some e ∧ v ∈ e.terms
  basic : ∀ r e v, T.rows.lookup r = some e → v ∈ e.terms → T.rows.lookup v = none
  externalRows : ∀ v, T.externalRows.lookup v =
    if v.isExternal then (T.rows.lookup v).map (·.address) else none
  parametric : ∀ r e v, T.rows.lookup r = some e → v ∈ e.terms → v.isExternal →
    v ∈ T.externalParametricVariables

variable {m : Machine} {T : GSCSTableau} {v r w : GSCSVariable} {e row : GSCSLinearExpression}

theorem CrossIndexed.column_of_row (h : CrossIndexed T) (hr : T.rows.lookup r = some e) :
    r ∈ T.column v ↔ v ∈ e.terms := by
  rw [h.column]
  constructor
  · rintro ⟨e', he', hv⟩
    rw [hr] at he'
    obtain rfl := Option.some.inj he'
    exact hv
  · exact fun hv => ⟨e, hr, hv⟩

/-! ## Substituting out and adding the row -/

/-- What a variable needs to be given a row: it is not basic, and the expression mentions neither it
nor a basic variable. -/
structure CanAdd (T : GSCSTableau) (v : GSCSVariable) (e : GSCSLinearExpression) : Prop where
  nonbasic : T.rows.lookup v = none
  self : v ∉ e.terms
  terms : ∀ t ∈ e.terms, T.rows.lookup t = none

/-- `substituteOutVariable:forExpression:` and, right after it, `addRowForVariable:equalsExpression:`. -/
def substituteOutAndAddRow (m : Machine) (T : GSCSTableau) (v : GSCSVariable)
    (e : GSCSLinearExpression) : GSCSTableau :=
  (T.substituteOutVariable m v e).addRowForVariable v e

section Substituted

theorem substituteOut_rows (h : CrossIndexed T) (hn : T.ColumnsNodup) (r : GSCSVariable) :
    (T.substituteOutVariable m v e).rows.lookup r =
      (T.rows.lookup r).map fun row => if v ∈ row.terms then substituteExpression m v e row else row := by
  have hL := ((m.enumerate_perm (T.column v)).nodup_iff.mpr (hn v))
  have hf := substituteOutRow_foldl m v e hL T fun r hr => by
      rw [(m.enumerate_perm _).mem_iff, h.column] at hr
      obtain ⟨row, hrow, -⟩ := hr
      exact ⟨row, hrow⟩
  unfold substituteOutVariable
  simp only
  rw [hf.1 r]
  cases hr : T.rows.lookup r with
  | none => rfl
  | some row =>
    simp only [Option.map_some, (m.enumerate_perm _).mem_iff, h.column_of_row hr]

theorem substituteOut_columns (h : CrossIndexed T) (hn : T.ColumnsNodup) (r w : GSCSVariable) :
    r ∈ (T.substituteOutVariable m v e).column w ↔ w ≠ v ∧ ∃ row, T.rows.lookup r = some row ∧
      (if v ∈ row.terms then w ∈ (substituteExpression m v e row).terms ∨
          (w ∈ e.terms ∧ w ∉ row.terms)
        else w ∈ row.terms) := by
  have hL := ((m.enumerate_perm (T.column v)).nodup_iff.mpr (hn v))
  obtain ⟨-, hother, hs, -⟩ := substituteOutRow_foldl m v e
    hL T fun r hr => by
      rw [(m.enumerate_perm _).mem_iff, h.column] at hr
      obtain ⟨row, hrow, -⟩ := hr
      exact ⟨row, hrow⟩
  have hm : ∀ r, r ∈ m.enumerate (T.column v) ↔ r ∈ T.column v := fun r => (m.enumerate_perm _).mem_iff
  rw [column_eq]
  unfold substituteOutVariable
  simp only
  rw [Columns.mem_erase]
  refine and_congr_right fun hw => ?_
  rw [← column_eq]
  by_cases hr : r ∈ T.column v
  · obtain ⟨row, hrow, hv⟩ := (h.column r v).mp hr
    rw [hs r ((hm r).mpr hr) row hrow (fun w => h.column_of_row hrow) w hw]
    simp [hrow, hv]
  · rw [hother r (fun hc => hr ((hm r).mp hc)), h.column]
    refine exists_congr fun row => and_congr_right fun hrow => ?_
    rw [if_neg fun hv => hr ((h.column_of_row hrow).mpr hv)]

variable (h : CrossIndexed T) (hn : T.ColumnsNodup) (hadd : CanAdd T v e)

include h hn

theorem substituted_rows (r : GSCSVariable) :
    (substituteOutAndAddRow m T v e).rows.lookup r = if r = v then some e
      else (T.rows.lookup r).map fun row =>
        if v ∈ row.terms then substituteExpression m v e row else row := by
  unfold substituteOutAndAddRow
  rw [addRow_rows]
  by_cases hr : r = v
  · rw [hr, AList.lookup_insert, if_pos rfl]
  · rw [AList.lookup_insert_ne hr, substituteOut_rows h hn, if_neg hr]

theorem substituted_columns (r w : GSCSVariable) :
    r ∈ (substituteOutAndAddRow m T v e).column w ↔
      (r = v ∧ w ∈ e.terms) ∨ (w ≠ v ∧ ∃ row, T.rows.lookup r = some row ∧
        (if v ∈ row.terms then w ∈ (substituteExpression m v e row).terms ∨
            (w ∈ e.terms ∧ w ∉ row.terms)
          else w ∈ row.terms)) := by
  unfold substituteOutAndAddRow
  rw [addRow_columns, substituteOut_columns h hn, or_comm, and_comm (a := w ∈ e.terms)]

theorem substituted_externalRows : (substituteOutAndAddRow m T v e).externalRows.lookup w =
    if v.isExternal ∧ w = v then some e.address else T.externalRows.lookup w := by
  have hL := ((m.enumerate_perm (T.column v)).nodup_iff.mpr (hn v))
  obtain ⟨-, -, -, hext, -⟩ := substituteOutRow_foldl m v e
    hL T fun r hr => by
      rw [(m.enumerate_perm _).mem_iff, h.column] at hr
      obtain ⟨row, hrow, -⟩ := hr
      exact ⟨row, hrow⟩
  unfold substituteOutAndAddRow
  rw [addRow_externalRows]
  unfold substituteOutVariable
  simp only
  rw [hext]
  by_cases hv : v.isExternal
  · by_cases hw : w = v
    · subst hw
      simp [hv]
    · simp [hv, hw, AList.lookup_insert_ne hw]
  · simp [hv]

theorem substituted_parametric : w ∈ (substituteOutAndAddRow m T v e).externalParametricVariables ↔
    (w ∈ T.externalParametricVariables ∧ ¬ (v.isExternal ∧ w = v)) ∨ (w ∈ e.terms ∧ w.isExternal) := by
  have hL := ((m.enumerate_perm (T.column v)).nodup_iff.mpr (hn v))
  obtain ⟨-, -, -, -, hp, -⟩ := substituteOutRow_foldl m v e
    hL T fun r hr => by
      rw [(m.enumerate_perm _).mem_iff, h.column] at hr
      obtain ⟨row, hrow, -⟩ := hr
      exact ⟨row, hrow⟩
  unfold substituteOutAndAddRow
  rw [addRow_parametric]
  unfold substituteOutVariable
  simp only
  rw [hp]
  by_cases hv : v.isExternal <;> simp [hv]

theorem substituted_nodup : (substituteOutAndAddRow m T v e).ColumnsNodup := by
  have hL := ((m.enumerate_perm (T.column v)).nodup_iff.mpr (hn v))
  obtain ⟨-, -, -, -, -, hnd, -⟩ := substituteOutRow_foldl m v e
    hL T fun r hr => by
      rw [(m.enumerate_perm _).mem_iff, h.column] at hr
      obtain ⟨row, hrow, -⟩ := hr
      exact ⟨row, hrow⟩
  exact addRow_nodup _ _ ((hnd hn).erase v)

include hadd

/-- The indices survive exactly when every row takes up the terms it lacked. -/
theorem substituted_crossIndexed : CrossIndexed (substituteOutAndAddRow m T v e) ↔
    ∀ r row, T.rows.lookup r = some row → v ∈ row.terms → Takes m v e row := by
  have hrow : ∀ {r row}, T.rows.lookup r = some row → r ≠ v := by
    rintro r row hr rfl
    rw [hadd.nonbasic] at hr
    simp at hr
  constructor
  · intro hc r row hr hv
    rw [takes_iff]
    intro w hw hnot
    have hwv : w ≠ v := fun he => hadd.self (he ▸ hw)
    have hm : r ∈ (substituteOutAndAddRow m T v e).column w := by
      rw [substituted_columns h hn]
      exact Or.inr ⟨hwv, row, hr, by rw [if_pos hv]; exact Or.inr ⟨hw, hnot⟩⟩
    obtain ⟨row', hr', hw'⟩ := (hc.column r w).mp hm
    rw [substituted_rows h hn, if_neg (hrow hr), hr, Option.map_some, if_pos hv] at hr'
    obtain rfl := Option.some.inj hr'
    exact hw'
  · intro htak
    -- the terms of a row afterwards, and what they were before
    have ht : ∀ r row', (substituteOutAndAddRow m T v e).rows.lookup r = some row' →
        ∀ w ∈ row'.terms, w ≠ v ∧ T.rows.lookup w = none ∧
          (w ∈ e.terms ∨ ∃ row, T.rows.lookup r = some row ∧ w ∈ row.terms) := by
      intro r row' hr' w hw
      rw [substituted_rows h hn] at hr'
      by_cases hrv : r = v
      · rw [if_pos hrv] at hr'
        obtain rfl := Option.some.inj hr'
        exact ⟨fun he => hadd.self (he ▸ hw), hadd.terms w hw, Or.inl hw⟩
      · rw [if_neg hrv, Option.map_eq_some_iff] at hr'
        obtain ⟨row, hr, he⟩ := hr'
        by_cases hv : v ∈ row.terms
        · rw [if_pos hv] at he
          subst he
          rcases mem_substituteExpression hw with h1 | ⟨h1, h2⟩
          · exact ⟨fun he => hadd.self (he ▸ h1), hadd.terms w h1, Or.inl h1⟩
          · exact ⟨h1, h.basic r row w hr h2, Or.inr ⟨row, hr, h2⟩⟩
        · rw [if_neg hv] at he
          subst he
          exact ⟨fun he => hv (he ▸ hw), h.basic r row w hr hw, Or.inr ⟨row, hr, hw⟩⟩
    refine ⟨fun r w => ?_, fun r row' w hr' hw => ?_, fun w => ?_, fun r row' w hr' hw hext => ?_⟩
    · rw [substituted_columns h hn, substituted_rows h hn]
      by_cases hrv : r = v
      · subst hrv
        simp [hadd.nonbasic]
      · simp only [hrv, false_and, false_or, if_false]
        constructor
        · rintro ⟨hwv, row, hr, hcs⟩
          refine ⟨_, by rw [hr, Option.map_some], ?_⟩
          by_cases hv : v ∈ row.terms
          · rw [if_pos hv] at hcs ⊢
            rcases hcs with h1 | ⟨h1, h2⟩
            · exact h1
            · exact takes_iff.mp (htak r row hr hv) w h1 h2
          · rw [if_neg hv] at hcs ⊢
            exact hcs
        · rintro ⟨row', hr', hw⟩
          obtain ⟨row, hr, rfl⟩ := Option.map_eq_some_iff.mp hr'
          by_cases hv : v ∈ row.terms
          · rw [if_pos hv] at hw
            refine ⟨?_, row, hr, by rw [if_pos hv]; exact Or.inl hw⟩
            rcases mem_substituteExpression hw with h1 | ⟨h1, -⟩
            · exact fun he => hadd.self (he ▸ h1)
            · exact h1
          · rw [if_neg hv] at hw
            exact ⟨fun he => hv (he ▸ hw), row, hr, by rwa [if_neg hv]⟩
    · obtain ⟨hwv, hnn, -⟩ := ht r row' hr' w hw
      rw [substituted_rows h hn, if_neg hwv, hnn]
      rfl
    · rw [substituted_externalRows h hn, substituted_rows h hn, h.externalRows]
      by_cases hw : w = v
      · subst hw
        by_cases hext : w.isExternal
        · simp [hext]
        · simp [hext]
      · simp only [hw, and_false, if_false]
        split
        · cases hr : T.rows.lookup w with
          | none => rfl
          | some row =>
            simp only [Option.map_some]
            split
            · rw [substituteExpression_address]
            · rfl
        · rfl
    · obtain ⟨hwv, -, hcs⟩ := ht r row' hr' w hw
      rw [substituted_parametric h hn]
      rcases hcs with h1 | ⟨row, hr, h1⟩
      · exact Or.inr ⟨h1, hext⟩
      · exact Or.inl ⟨h.parametric r row w hr h1 hext, fun hc => hwv hc.2⟩

end Substituted

/-! ## The other operations -/

theorem CrossIndexed.addRow (h : CrossIndexed T) (hadd : CanAdd T v e) (hc : T.column v = []) :
    CrossIndexed (T.addRowForVariable v e) := by
  have hu : ∀ r row, T.rows.lookup r = some row → v ∉ row.terms := by
    intro r row hr hv
    have := (h.column_of_row hr).mpr hv
    rw [hc] at this
    simp at this
  have hrow : ∀ r row, (T.addRowForVariable v e).rows.lookup r = some row →
      (r = v ∧ row = e) ∨ (r ≠ v ∧ T.rows.lookup r = some row) := by
    intro r row hr
    rw [addRow_rows] at hr
    by_cases hrv : r = v
    · subst hrv
      rw [AList.lookup_insert] at hr
      exact Or.inl ⟨rfl, (Option.some.inj hr).symm⟩
    · rw [AList.lookup_insert_ne hrv] at hr
      exact Or.inr ⟨hrv, hr⟩
  refine ⟨fun r w => ?_, fun r row w hr hw => ?_, fun w => ?_, fun r row w hr hw hext => ?_⟩
  · rw [addRow_columns, h.column]
    constructor
    · rintro (⟨row, hr, hw⟩ | ⟨hw, rfl⟩)
      · have hrv : r ≠ v := by
          rintro rfl
          rw [hadd.nonbasic] at hr
          simp at hr
        exact ⟨row, by rw [addRow_rows, AList.lookup_insert_ne hrv]; exact hr, hw⟩
      · exact ⟨e, by rw [addRow_rows, AList.lookup_insert], hw⟩
    · rintro ⟨row, hr, hw⟩
      rcases hrow r row hr with ⟨rfl, rfl⟩ | ⟨-, hr⟩
      · exact Or.inr ⟨hw, rfl⟩
      · exact Or.inl ⟨row, hr, hw⟩
  · have hw' : T.rows.lookup w = none ∧ w ≠ v := by
      rcases hrow r row hr with ⟨-, rfl⟩ | ⟨-, hr⟩
      · exact ⟨hadd.terms w hw, fun he => hadd.self (he ▸ hw)⟩
      · exact ⟨h.basic r row w hr hw, fun he => hu r row hr (he ▸ hw)⟩
    rw [addRow_rows, AList.lookup_insert_ne hw'.2]
    exact hw'.1
  · rw [addRow_externalRows, addRow_rows]
    by_cases hw : w = v
    · subst hw
      by_cases hext : w.isExternal
      · simp [hext]
      · simp [hext, h.externalRows]
    · rw [AList.lookup_insert_ne hw, ← h.externalRows]
      split
      · rw [AList.lookup_insert_ne hw]
      · rfl
  · rw [addRow_parametric]
    rcases hrow r row hr with ⟨-, rfl⟩ | ⟨-, hr⟩
    · exact Or.inr ⟨hw, hext⟩
    · exact Or.inl (h.parametric r row w hr hw hext)

theorem CrossIndexed.removeRow (h : CrossIndexed T) (hrow : T.rows.lookup v = some e)
    {T' : GSCSTableau} (hT' : T.removeRowForVariable v = .ok T') : CrossIndexed T' := by
  obtain ⟨T'', hok, hrw, hcl, hext, hp, -, -⟩ := removeRow_ok v hrow
  rw [hT'] at hok
  obtain rfl := Except.ok.inj hok
  have hrow' : ∀ r row, T'.rows.lookup r = some row → r ≠ v ∧ T.rows.lookup r = some row := by
    intro r row hr
    rw [hrw] at hr
    by_cases hrv : r = v
    · rw [hrv, AList.lookup_erase] at hr
      simp at hr
    · rw [AList.lookup_erase_ne hrv] at hr
      exact ⟨hrv, hr⟩
  refine ⟨fun r w => ?_, fun r row w hr hw => ?_, fun w => ?_, fun r row w hr hw hext => ?_⟩
  · rw [hcl, h.column]
    constructor
    · rintro ⟨⟨row, hr, hw⟩, hnot⟩
      have hrv : r ≠ v := by
        rintro rfl
        rw [hrow] at hr
        obtain rfl := Option.some.inj hr
        exact hnot ⟨hw, rfl⟩
      exact ⟨row, by rw [hrw, AList.lookup_erase_ne hrv]; exact hr, hw⟩
    · rintro ⟨row, hr, hw⟩
      obtain ⟨hrv, hr⟩ := hrow' r row hr
      exact ⟨⟨row, hr, hw⟩, fun hc => hrv hc.2⟩
  · have hnn := h.basic r row w (hrow' r row hr).2 hw
    rw [hrw]
    by_cases hwv : w = v
    · rw [hwv, AList.lookup_erase]
    · rw [AList.lookup_erase_ne hwv]
      exact hnn
  · rw [hext, hrw]
    by_cases hw : w = v
    · subst hw
      by_cases he : w.isExternal
      · simp [he]
      · simp [he, h.externalRows]
    · rw [AList.lookup_erase_ne hw, ← h.externalRows]
      split
      · rw [AList.lookup_erase_ne hw]
      · rfl
  · rw [hp]
    exact h.parametric r row w (hrow' r row hr).2 hw hext

theorem CrossIndexed.removeColumn (h : CrossIndexed T) (hv : v.isExternal = false) :
    CrossIndexed (T.removeColumn m v) := by
  have hrow : ∀ r row', (T.removeColumn m v).rows.lookup r = some row' →
      ∃ row, T.rows.lookup r = some row ∧ row'.address = row.address ∧ ∀ w, w ∈ row'.terms ↔ w ≠ v ∧ w ∈ row.terms := by
    intro r row' hr
    rw [removeColumn_rows, Option.map_eq_some_iff] at hr
    obtain ⟨row, hr, rfl⟩ := hr
    refine ⟨row, hr, by split <;> rfl, fun w => ?_⟩
    split
    · exact mem_removeVariable _ _ _
    · next hnot =>
      rw [h.column_of_row hr] at hnot
      exact ⟨fun hw => ⟨fun he => hnot (he ▸ hw), hw⟩, fun hw => hw.2⟩
  refine ⟨fun r w => ?_, fun r row' w hr hw => ?_, fun w => ?_, fun r row' w hr hw hext => ?_⟩
  · rw [removeColumn_columns, h.column]
    constructor
    · rintro ⟨hwv, row, hr, hw⟩
      have hs : ((T.removeColumn m v).rows.lookup r).isSome := by
        rw [removeColumn_rows, hr]
        rfl
      obtain ⟨row', hr'⟩ := Option.isSome_iff_exists.mp hs
      obtain ⟨row2, hr2, -, ht⟩ := hrow r row' hr'
      rw [hr] at hr2
      obtain rfl := Option.some.inj hr2
      exact ⟨row', hr', (ht w).mpr ⟨hwv, hw⟩⟩
    · rintro ⟨row', hr', hw⟩
      obtain ⟨row, hr, -, ht⟩ := hrow r row' hr'
      obtain ⟨hwv, hw⟩ := (ht w).mp hw
      exact ⟨hwv, row, hr, hw⟩
  · obtain ⟨row, hr, -, ht⟩ := hrow r row' hr
    rw [removeColumn_rows, h.basic r row w hr ((ht w).mp hw).2]
    rfl
  · rw [removeColumn_externalRows, if_neg (by simp [hv]), h.externalRows, removeColumn_rows]
    cases T.rows.lookup w with
    | none => rfl
    | some row =>
      have ha : (if w ∈ T.column v then row.removeVariable v else row).address = row.address := by
        split <;> rfl
      simp only [Option.map_some, ha]
  · rw [removeColumn_parametric]
    obtain ⟨row, hr, -, ht⟩ := hrow r row' hr
    exact h.parametric r row w hr ((ht w).mp hw).2 hext

/-! ## Pivoting -/

theorem CrossIndexed.recordUpdated (h : CrossIndexed T) (v : GSCSVariable) :
    CrossIndexed (T.recordUpdatedVariable v) := by
  refine ⟨h.column, h.basic, h.externalRows, fun r row w hr hw hext => ?_⟩
  have := h.parametric r row w hr hw hext
  unfold recordUpdatedVariable
  simp only
  split
  · exact List.mem_insert_of_mem this
  · exact this

theorem pivot_eq (m : Machine) (entry : GSCSVariable) {exit : GSCSVariable} (hr : T.rows.lookup exit = some row) :
    ∃ T1, T.removeRowForVariable exit = .ok T1 ∧ T.pivotWithEntryVariable m entry exit =
      .ok (substituteOutAndAddRow m (T1.recordUpdatedVariable exit) entry (changeSubject m row exit entry)) := by
  obtain ⟨T1, hok, -⟩ := removeRow_ok exit hr
  refine ⟨T1, hok, ?_⟩
  unfold pivotWithEntryVariable rowExpressionForVariable
  rw [hok, hr]
  show Except.ok _ = Except.ok _
  congr 1
  unfold substituteOutAndAddRow
  congr 1
  -- substituting out has dropped the entry variable from the parametric ones already
  split
  · next hext =>
    unfold substituteOutVariable
    simp [hext]
  · rfl

theorem changeSubject_terms {entry exit : GSCSVariable}
    (hw : w ∈ (changeSubject m row exit entry).terms) : w = exit ∨ (w ≠ entry ∧ w ∈ row.terms) := by
  unfold changeSubject at hw
  rcases (mem_addVariable _ _ _ _ _).mp hw with h | ⟨h, -⟩
  · exact Or.inr ((mem_newSubject _ _ _).mp h)
  · exact Or.inl h

theorem CrossIndexed.pivot_removed (h : CrossIndexed T) (hn : T.ColumnsNodup)
    {entry exit : GSCSVariable} (hr : T.rows.lookup exit = some row) (hent : entry ∈ row.terms)
    {T1 : GSCSTableau} (hT1 : T.removeRowForVariable exit = .ok T1) : CrossIndexed (T1.recordUpdatedVariable exit) ∧
      (T1.recordUpdatedVariable exit).ColumnsNodup ∧ (T1.recordUpdatedVariable exit).rows = T.rows.erase exit ∧
      CanAdd (T1.recordUpdatedVariable exit) entry (changeSubject m row exit entry) := by
  have hcr := (h.removeRow hr hT1).recordUpdated exit
  obtain ⟨T2, hok, hrw, -, -, -, -, hnd⟩ := removeRow_ok exit hr
  rw [hT1] at hok
  obtain rfl := Except.ok.inj hok
  have hne : entry ≠ exit := by
    rintro rfl
    have := h.basic entry row entry hr hent
    rw [hr] at this
    simp at this
  have hnon : ∀ w ∈ row.terms, (T.rows.erase exit).lookup w = none := by
    intro w hw
    by_cases hwx : w = exit
    · rw [hwx, AList.lookup_erase]
    · rw [AList.lookup_erase_ne hwx]
      exact h.basic exit row w hr hw
  refine ⟨hcr, hnd hn, hrw, ⟨?_, fun hc => ?_, fun w hw => ?_⟩⟩
  · show T1.rows.lookup entry = none
    rw [hrw]
    exact hnon entry hent
  · rcases changeSubject_terms hc with he | ⟨he, -⟩
    · exact hne he
    · exact he rfl
  · show T1.rows.lookup w = none
    rw [hrw]
    rcases changeSubject_terms hw with rfl | ⟨-, hw⟩
    · exact AList.lookup_erase _ _
    · exact hnon w hw

/-! ## Runs -/

/-- The operations, as the solver uses them: a variable is substituted out to give it a row. -/
inductive TableauOp
  | addRow (v : GSCSVariable) (e : GSCSLinearExpression)
  | removeRow (v : GSCSVariable)
  | removeColumn (v : GSCSVariable)
  | substituteOut (v : GSCSVariable) (e : GSCSLinearExpression)
  | pivot (entry exit : GSCSVariable)

namespace TableauOp

def perform (m : Machine) (T : GSCSTableau) : TableauOp → Except SolverException GSCSTableau
  | addRow v e => .ok (T.addRowForVariable v e)
  | removeRow v => T.removeRowForVariable v
  | removeColumn v => .ok (T.removeColumn m v)
  | substituteOut v e => .ok (substituteOutAndAddRow m T v e)
  | pivot entry exit => T.pivotWithEntryVariable m entry exit

/-- What the solver sees to before it makes the call. -/
def Precondition (T : GSCSTableau) : TableauOp → Prop
  | addRow v e => CanAdd T v e ∧ T.column v = []
  | removeRow v => ∃ e, T.rows.lookup v = some e
  | removeColumn v => v.isExternal = false
  | substituteOut v e => CanAdd T v e
  | pivot entry exit => ∃ row, T.rows.lookup exit = some row ∧ entry ∈ row.terms

/-- Every row takes up the terms a substitution gives it. -/
def Clear (m : Machine) (T : GSCSTableau) : TableauOp → Prop
  | substituteOut v e => ∀ r row, T.rows.lookup r = some row → v ∈ row.terms → Takes m v e row
  | pivot entry exit => ∀ exitRow, T.rows.lookup exit = some exitRow →
      ∀ r row, r ≠ exit → T.rows.lookup r = some row → entry ∈ row.terms →
        Takes m entry (changeSubject m exitRow exit entry) row
  | _ => True

/-- The step lemma. -/
theorem perform_spec (h : CrossIndexed T) (hn : T.ColumnsNodup) (op : TableauOp)
    (hp : op.Precondition T) : ∃ T', op.perform m T = .ok T' ∧ T'.ColumnsNodup ∧ (CrossIndexed T' ↔ op.Clear m T) := by
  cases op with
  | addRow v e =>
    exact ⟨_, rfl, addRow_nodup v e hn, iff_of_true (h.addRow hp.1 hp.2) trivial⟩
  | removeRow v =>
    obtain ⟨e, hrow⟩ := hp
    obtain ⟨T', hok, -, -, -, -, -, hnd⟩ := removeRow_ok v hrow
    exact ⟨T', hok, hnd hn, iff_of_true (h.removeRow hrow hok) trivial⟩
  | removeColumn v =>
    exact ⟨_, rfl, removeColumn_nodup m v hn, iff_of_true (h.removeColumn hp) trivial⟩
  | substituteOut v e =>
    exact ⟨_, rfl, substituted_nodup h hn, substituted_crossIndexed h hn hp⟩
  | pivot entry exit =>
    obtain ⟨row, hrow, he⟩ := hp
    obtain ⟨T1, hT1, hpiv⟩ := pivot_eq m entry hrow
    obtain ⟨hc, hnd, hrw, hadd⟩ := h.pivot_removed (m := m) hn hrow he hT1
    refine ⟨_, hpiv, substituted_nodup hc hnd, ?_⟩
    rw [substituted_crossIndexed hc hnd hadd, hrw]
    constructor
    · intro ht exitRow hexit r row' hne hr hv
      rw [hrow] at hexit
      obtain rfl := Option.some.inj hexit
      exact ht r row' (by rw [AList.lookup_erase_ne hne]; exact hr) hv
    · intro hcl r row' hr hv
      have hne : r ≠ exit := by
        rintro rfl
        rw [AList.lookup_erase] at hr
        simp at hr
      rw [AList.lookup_erase_ne hne] at hr
      exact hcl row hrow r row' hne hr hv

end TableauOp

/-- The tableau of a new solver: the objective row is empty. -/
def GSCSTableau.init : GSCSTableau := GSCSTableau.empty.addRowForVariable .objective (initWithConstant 0 0)

def performAll (m : Machine) (ops : List TableauOp) : Except SolverException GSCSTableau :=
  ops.foldlM (fun T op => op.perform m T) GSCSTableau.init

/-- A condition holds at every operation, in the state the operations before it lead to. -/
def AtEveryStep (m : Machine) (condition : GSCSTableau → TableauOp → Prop) (ops : List TableauOp) :
    Prop :=
  ∀ front op back T, ops = front ++ op :: back → performAll m front = .ok T → condition T op

/-- Every state of the run is cross indexed. -/
def AlwaysCrossIndexed (m : Machine) (ops : List TableauOp) : Prop :=
  ∀ front back T, ops = front ++ back → performAll m front = .ok T → CrossIndexed T

theorem performAll_snoc (m : Machine) (front : List TableauOp) (op : TableauOp) :
    performAll m (front ++ [op]) = performAll m front >>= fun T => op.perform m T := by
  unfold performAll
  rw [List.foldlM_append]
  cases List.foldlM (fun T op => TableauOp.perform m T op) GSCSTableau.init front with
  | error e => rfl
  | ok T =>
    show (op.perform m T >>= pure) = op.perform m T
    exact bind_pure _

theorem init_crossIndexed : CrossIndexed GSCSTableau.init ∧ GSCSTableau.init.ColumnsNodup := by
  have hrow : ∀ r e, GSCSTableau.init.rows.lookup r = some e → e = initWithConstant 0 0 := by
    intro r e hr
    unfold GSCSTableau.init at hr
    rw [addRow_rows] at hr
    by_cases hz : r = .objective
    · rw [hz, AList.lookup_insert] at hr
      exact (Option.some.inj hr).symm
    · rw [AList.lookup_insert_ne hz] at hr
      simp [GSCSTableau.empty] at hr
  refine ⟨⟨fun r v => ?_, fun r e v hr hv => ?_, fun v => ?_, fun r e v hr hv => ?_⟩, ?_⟩
  · unfold GSCSTableau.init
    rw [addRow_columns]
    constructor
    · rintro (h | ⟨h, -⟩)
      · simp [GSCSTableau.column, GSCSTableau.empty] at h
      · simp [initWithConstant] at h
    · rintro ⟨e, hr, hv⟩
      rw [hrow r e hr] at hv
      simp [initWithConstant] at hv
  · rw [hrow r e hr] at hv
    simp [initWithConstant] at hv
  · unfold GSCSTableau.init
    rw [addRow_externalRows, addRow_rows]
    by_cases hz : v = .objective
    · subst hz
      rfl
    · rw [AList.lookup_insert_ne hz]
      have hnn : GSCSVariable.objective.isExternal = false := rfl
      simp [GSCSTableau.empty, hnn]
  · rw [hrow r e hr] at hv
    simp [initWithConstant] at hv
  · exact addRow_nodup _ _ fun v => by simp [GSCSTableau.empty, Columns.members]

theorem atEveryStep_snoc {condition : GSCSTableau → TableauOp → Prop} {front : List TableauOp}
    {op : TableauOp} : AtEveryStep m condition (front ++ [op]) ↔
      AtEveryStep m condition front ∧ ∀ T, performAll m front = .ok T → condition T op := by
  constructor
  · intro h
    refine ⟨fun a x b T he hT => h a x (b ++ [op]) T (by rw [he]; simp) hT, fun T hT => ?_⟩
    exact h front op [] T rfl hT
  · rintro ⟨hf, hl⟩ a x b T he hT
    rcases List.eq_nil_or_concat b with rfl | ⟨b', y, rfl⟩
    · obtain ⟨rfl, ho⟩ := List.append_inj' he rfl
      obtain rfl : op = x := by simpa using ho
      exact hl T hT
    · have he' : front ++ [op] = (a ++ x :: b') ++ [y] := by rw [he]; simp
      exact hf a x b' T (List.append_inj' he' rfl).1 hT

theorem crossIndexed_of_clear (m : Machine) (ops : List TableauOp)
    (hp : AtEveryStep m (fun T op => op.Precondition T) ops) (hc : AtEveryStep m (fun T op => op.Clear m T) ops) :
    ∃ T, performAll m ops = .ok T ∧ CrossIndexed T ∧ T.ColumnsNodup := by
  induction ops using List.reverseRecOn with
  | nil => exact ⟨_, rfl, init_crossIndexed⟩
  | append_singleton front op ih =>
    obtain ⟨hpf, hpr⟩ := atEveryStep_snoc.mp hp
    obtain ⟨hclea, hcl⟩ := atEveryStep_snoc.mp hc
    obtain ⟨T, hT, hcs, hn⟩ := ih hpf hclea
    obtain ⟨T', hT', hn', hi⟩ := TableauOp.perform_spec (m := m) hcs hn op (hpr T hT)
    refine ⟨T', ?_, hi.mpr (hcl T hT), hn'⟩
    rw [performAll_snoc, hT]
    exact hT'

/-- The converse: up to the last operation the sets are in order, and then the step lemma decides. -/
theorem clear_of_crossIndexed (m : Machine) (ops : List TableauOp)
    (hp : AtEveryStep m (fun T op => op.Precondition T) ops) (ha : AlwaysCrossIndexed m ops) :
    AtEveryStep m (fun T op => op.Clear m T) ops := by
  induction ops using List.reverseRecOn with
  | nil => exact fun front op back T he => by simp at he
  | append_singleton front op ih =>
    obtain ⟨hpr, hpp⟩ := atEveryStep_snoc.mp hp
    have hc := ih hpr fun a b T he hT =>
      ha a (b ++ [op]) T (by rw [he, List.append_assoc]) hT
    refine atEveryStep_snoc.mpr ⟨hc, fun T hT => ?_⟩
    obtain ⟨T0, hT0, hcr, hn⟩ := crossIndexed_of_clear m front hpr hc
    rw [hT] at hT0
    obtain rfl := Except.ok.inj hT0
    obtain ⟨T', hT', -, hi⟩ := TableauOp.perform_spec (m := m) hcr hn op (hpp T hT)
    refine hi.mp (ha (front ++ [op]) [] T' (List.append_nil _).symm ?_)
    rw [performAll_snoc, hT]
    exact hT'

theorem alwaysCrossIndexed_iff (m : Machine) (ops : List TableauOp)
    (hpre : AtEveryStep m (fun T op => op.Precondition T) ops) :
    AlwaysCrossIndexed m ops ↔ AtEveryStep m (fun T op => op.Clear m T) ops := by
  refine ⟨clear_of_crossIndexed m ops hpre, fun hcl front back T he hT => ?_⟩
  have hf : ∀ {condition : GSCSTableau → TableauOp → Prop},
      AtEveryStep m condition ops → AtEveryStep m condition front :=
    fun hc a x b T he' hT => hc a x (b ++ back) T (by rw [he, he', List.append_assoc]; rfl) hT
  obtain ⟨T', hT', hcr, -⟩ := crossIndexed_of_clear m front (hf hpre) (hf hcl)
  rw [hT] at hT'
  obtain rfl := Except.ok.inj hT'
  exact hcr

section Example

/-- `GSCSEpsilon`, with sets enumerated as they are stored. -/
def epsilonMachine : Machine := ⟨1 / 100000000, fun l => l, fun l => List.Perm.refl l, 0⟩

/-- `x = 1 + c * y`, then `y = 2 + c * z` substituted into it. -/
def substitutionOps (c : ℚ) : List TableauOp :=
  [.addRow (.external 0) ⟨1, 1, .singleton (.external 1) c⟩,
    .substituteOut (.external 1) ⟨2, 2, .singleton (.external 2) c⟩]

theorem atEveryStep_pair {m : Machine} {condition : GSCSTableau → TableauOp → Prop}
    {a b : TableauOp} (ha : condition GSCSTableau.init a)
    (hb : ∀ T, a.perform m GSCSTableau.init = .ok T → condition T b) : AtEveryStep m condition [a, b] := by
  have hnil : AtEveryStep m condition [] := fun _ _ _ _ he => by simp at he
  have ho : AtEveryStep m condition ([] ++ [a]) := atEveryStep_snoc.mpr ⟨hnil, fun T hT => by
    obtain rfl := Except.ok.inj hT
    exact ha⟩
  have ht : AtEveryStep m condition (([] ++ [a]) ++ [b]) := atEveryStep_snoc.mpr ⟨ho, fun T hT => by
    rw [performAll_snoc] at hT
    exact hb T hT⟩
  exact ht

theorem singleton_canAdd {T : GSCSTableau} {v w : GSCSVariable} {address : Nat} {constant c : ℚ}
    (hv : T.rows.lookup v = none) (hw : T.rows.lookup w = none) (hne : v ≠ w) :
    CanAdd T v ⟨address, constant, .singleton w c⟩ := by
  have hm : ∀ t, t ∈ (AList.singleton w c : AList fun _ : GSCSVariable => ℚ) ↔ t = w := by
    intro t
    simp [← AList.insert_empty]
  exact ⟨hv, fun h => hne ((hm v).mp h), fun t ht => by rw [(hm t).mp ht]; exact hw⟩

theorem substitutionOps_precondition (c : ℚ) :
    AtEveryStep epsilonMachine (fun T op => op.Precondition T) (substitutionOps c) := by
  refine atEveryStep_pair ⟨singleton_canAdd rfl rfl (by decide), rfl⟩ fun T hT => ?_
  obtain rfl := Except.ok.inj hT
  exact singleton_canAdd rfl rfl (by decide)

/-- Coefficients of 0.00001 are kept, their product is dropped, and its index entry stays. -/
theorem not_alwaysCrossIndexed_of_small_product :
    AtEveryStep epsilonMachine (fun T op => op.Precondition T) (substitutionOps (1 / 100000)) ∧
      ¬ AlwaysCrossIndexed epsilonMachine (substitutionOps (1 / 100000)) := by
  refine ⟨substitutionOps_precondition _, fun h => ?_⟩
  obtain ⟨T, hT, hin, ho⟩ : ∃ T,
      performAll epsilonMachine (substitutionOps (1 / 100000)) = .ok T ∧
      GSCSVariable.external 0 ∈ T.column (.external 2) ∧
      ((T.rows.lookup (.external 0)).map fun e => e.isTermForVariable (.external 2)) = some false :=
    ⟨_, rfl, by decide +kernel, by decide +kernel⟩
  obtain ⟨e, he, ht⟩ := ((h _ [] T (List.append_nil _).symm hT).column _ _).mp hin
  rw [he, Option.map_some, Option.some.injEq, ← Bool.not_eq_true, isTermForVariable_iff] at ho
  exact ho ht

/-- With coefficients of 1 the row takes `z` up. -/
theorem alwaysCrossIndexed_of_unit_product :
    AlwaysCrossIndexed epsilonMachine (substitutionOps 1) := by
  refine (alwaysCrossIndexed_iff _ _ (substitutionOps_precondition 1)).mpr
    (atEveryStep_pair trivial fun T hT r row hr hv t ht _ => ?_)
  obtain rfl := Except.ok.inj hT
  have hrow : r = .external 0 ∧ row = ⟨1, 1, .singleton (.external 1) 1⟩ := by
    rw [addRow_rows] at hr
    by_cases hrx : r = .external 0
    · subst hrx
      rw [AList.lookup_insert] at hr
      exact ⟨rfl, (Option.some.inj hr).symm⟩
    · rw [AList.lookup_insert_ne hrx] at hr
      have := (init_crossIndexed.1.column_of_row hr).mpr hv
      exact absurd this (List.not_mem_nil)
  obtain ⟨rfl, rfl⟩ := hrow
  have htz : t = .external 2 := by
    simpa [← AList.insert_empty] using ht
  subst htz
  decide +kernel

end Example

end GnustepGui.Cassowary
