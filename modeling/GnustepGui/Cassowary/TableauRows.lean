import GnustepGui.Cassowary.Tableau

/-!
# What the tableau operations do to rows and columns

One group of lemmas for each operation: the row found under each variable afterwards, the members of each column, and
the two maps of external variables. Nothing is assumed of the tableau beyond what a set is: the enumeration of a
column visits each member once (`ColumnsNodup`).
-/

namespace GnustepGui.Cassowary

namespace Columns

variable (columns : Columns) (v w r s : GSCSVariable)

def members : List GSCSVariable := (columns.lookup v).getD []

theorem mem_addMapping : r ∈ (columns.addMapping v s).members w ↔ r ∈ columns.members w ∨ (w = v ∧ r = s) := by
  unfold addMapping members
  by_cases h : w = v
  · subst h
    simp [or_comm]
  · rw [AList.lookup_insert_ne h]
    simp [h]

theorem mem_removeMapping : r ∈ (columns.removeMapping v s).members w ↔ r ∈ columns.members w ∧ ¬ (w = v ∧ r = s) := by
  unfold removeMapping members
  cases hc : columns.lookup v with
  | none =>
    by_cases h : w = v
    · subst h
      simp [hc]
    · simp [h]
  | some columnSet =>
    by_cases h : w = v
    · subst h
      simp [hc]
    · rw [AList.lookup_insert_ne h]
      simp [h]

theorem mem_erase : r ∈ members (AList.erase v columns) w ↔ w ≠ v ∧ r ∈ columns.members w := by
  unfold members
  by_cases h : w = v
  · subst h
    simp
  · rw [AList.lookup_erase_ne h]
    simp [h]

/-- The columns are sets. -/
def IsSets : Prop := ∀ v, (columns.members v).Nodup

variable {columns}

theorem IsSets.addMapping (h : columns.IsSets) : (columns.addMapping v s).IsSets := by
  intro w
  unfold Columns.addMapping members
  by_cases hw : w = v
  · subst hw
    rw [AList.lookup_insert]
    exact (h w).insert
  · rw [AList.lookup_insert_ne hw]
    exact h w

theorem IsSets.removeMapping (h : columns.IsSets) : (columns.removeMapping v s).IsSets := by
  intro w
  unfold Columns.removeMapping
  cases hc : columns.lookup v with
  | none => exact h w
  | some columnSet =>
    unfold members
    by_cases hw : w = v
    · subst hw
      have := h w
      unfold members at this
      rw [hc] at this
      rw [AList.lookup_insert]
      exact this.filter _
    · simp only
      rw [AList.lookup_insert_ne hw]
      exact h w

theorem IsSets.erase (h : columns.IsSets) : IsSets (AList.erase v columns) := by
  intro w
  unfold members
  by_cases hw : w = v
  · subst hw
    simp
  · rw [AList.lookup_erase_ne hw]
    exact h w

end Columns

namespace GSCSTableau

variable (m : Machine) (T : GSCSTableau)

def ColumnsNodup : Prop := T.columns.IsSets

theorem column_eq (v : GSCSVariable) : T.column v = T.columns.members v := rfl

/-! ## Adding a row -/

section AddRow

variable (v r w : GSCSVariable) (e : GSCSLinearExpression)

theorem addTermVariable_foldl_columns (ts : List GSCSVariable) : ∀ (T : GSCSTableau),
    (∀ w r, r ∈ (ts.foldl (addTermVariable v) T).columns.members w ↔ r ∈ T.columns.members w ∨ (w ∈ ts ∧ r = v)) ∧
    (ts.foldl (addTermVariable v) T).rows = T.rows ∧ (ts.foldl (addTermVariable v) T).externalRows = T.externalRows ∧
    (ts.foldl (addTermVariable v) T).infeasibleRows = T.infeasibleRows ∧
    (∀ w, w ∈ (ts.foldl (addTermVariable v) T).externalParametricVariables ↔
      w ∈ T.externalParametricVariables ∨ (w ∈ ts ∧ w.isExternal)) ∧
    (T.ColumnsNodup → (ts.foldl (addTermVariable v) T).ColumnsNodup) := by
  induction ts with
  | nil => intro T; simp
  | cons t ts ih =>
    intro T
    obtain ⟨h1, h2, h3, h4, h5, h6⟩ := ih (addTermVariable v T t)
    simp only [List.foldl_cons]
    refine ⟨fun w r => ?_, h2, h3, h4, fun w => ?_, fun h => h6 (h.addMapping _ _)⟩
    · rw [h1]
      unfold addTermVariable
      simp only
      rw [Columns.mem_addMapping, List.mem_cons]
      tauto
    · rw [h5]
      unfold addTermVariable
      simp only
      by_cases ht : t.isExternal
      · rw [if_pos ht, List.mem_insert_iff, List.mem_cons]
        constructor
        · rintro ((rfl | h) | ⟨h, he⟩)
          · exact Or.inr ⟨Or.inl rfl, ht⟩
          · exact Or.inl h
          · exact Or.inr ⟨Or.inr h, he⟩
        · rintro (h | ⟨rfl | h, he⟩)
          · exact Or.inl (Or.inr h)
          · exact Or.inl (Or.inl rfl)
          · exact Or.inr ⟨h, he⟩
      · rw [if_neg ht, List.mem_cons]
        constructor
        · rintro (h | ⟨h, he⟩)
          · exact Or.inl h
          · exact Or.inr ⟨Or.inr h, he⟩
        · rintro (h | ⟨rfl | h, he⟩)
          · exact Or.inl h
          · exact absurd he ht
          · exact Or.inr ⟨h, he⟩

theorem addRow_rows : (T.addRowForVariable v e).rows = T.rows.insert v e :=
  (addTermVariable_foldl_columns v e.termVariables _).2.1

theorem addRow_columns : r ∈ (T.addRowForVariable v e).column w ↔ r ∈ T.column w ∨ (w ∈ e.terms ∧ r = v) := by
  rw [column_eq, addRowForVariable, (addTermVariable_foldl_columns v e.termVariables _).1 w r,
    GSCSLinearExpression.mem_termVariables]
  rfl

theorem addRow_externalRows : (T.addRowForVariable v e).externalRows =
    if v.isExternal then T.externalRows.insert v e.address else T.externalRows :=
  (addTermVariable_foldl_columns v e.termVariables _).2.2.1

theorem addRow_parametric : w ∈ (T.addRowForVariable v e).externalParametricVariables ↔
    w ∈ T.externalParametricVariables ∨ (w ∈ e.terms ∧ w.isExternal) := by
  rw [addRowForVariable, (addTermVariable_foldl_columns v e.termVariables _).2.2.2.2.1 w,
    GSCSLinearExpression.mem_termVariables]

variable {T} in
theorem addRow_nodup (h : T.ColumnsNodup) : (T.addRowForVariable v e).ColumnsNodup :=
  (addTermVariable_foldl_columns v e.termVariables _).2.2.2.2.2 h

end AddRow

/-! ## Removing a row -/

section RemoveRow

variable (v r w : GSCSVariable)

theorem removeMapping_foldl (ts : List GSCSVariable) : ∀ (columns : Columns),
    (∀ w r, r ∈ (ts.foldl (fun columns t => columns.removeMapping t v) columns).members w ↔
      r ∈ columns.members w ∧ ¬ (w ∈ ts ∧ r = v)) ∧
    (columns.IsSets → (ts.foldl (fun columns t => columns.removeMapping t v) columns).IsSets) := by
  induction ts with
  | nil => intro columns; simp
  | cons t ts ih =>
    intro columns
    obtain ⟨h1, h2⟩ := ih (columns.removeMapping t v)
    simp only [List.foldl_cons]
    refine ⟨fun w r => ?_, fun h => h2 (h.removeMapping _ _)⟩
    rw [h1, Columns.mem_removeMapping, List.mem_cons]
    tauto

variable {T} {e : GSCSLinearExpression} {T' : GSCSTableau}

theorem removeRow_ok (hr : T.rows.lookup v = some e) :
    ∃ T', T.removeRowForVariable v = .ok T' ∧ T'.rows = T.rows.erase v ∧
      (∀ w r, r ∈ T'.column w ↔ r ∈ T.column w ∧ ¬ (w ∈ e.terms ∧ r = v)) ∧
      T'.externalRows = (if v.isExternal then T.externalRows.erase v else T.externalRows) ∧
      T'.externalParametricVariables = T.externalParametricVariables ∧
      T'.infeasibleRows = T.infeasibleRows ∧ (T.ColumnsNodup → T'.ColumnsNodup) := by
  have h := removeMapping_foldl v e.termVariables T.columns
  unfold removeRowForVariable rowExpressionForVariable
  rw [hr]
  refine ⟨_, rfl, rfl, fun w r => ?_, rfl, rfl, rfl, h.2⟩
  rw [column_eq, column_eq, h.1 w r, GSCSLinearExpression.mem_termVariables]

end RemoveRow

/-! ## Removing a column -/

section RemoveColumn

variable (v r w : GSCSVariable)

/-- The rows of a list that mention the variable lose it. -/
theorem removeColumnRow_foldl (L : List GSCSVariable) : ∀ (T : GSCSTableau),
    (∀ r, (L.foldl (removeColumnRow v) T).rows.lookup r =
      (T.rows.lookup r).map fun e => if r ∈ L then e.removeVariable v else e) ∧
    (L.foldl (removeColumnRow v) T).columns = T.columns ∧
    (L.foldl (removeColumnRow v) T).externalRows = T.externalRows ∧
    (L.foldl (removeColumnRow v) T).externalParametricVariables = T.externalParametricVariables ∧
    (L.foldl (removeColumnRow v) T).infeasibleRows = T.infeasibleRows := by
  induction L with
  | nil => intro T; simp
  | cons x L ih =>
    intro T
    obtain ⟨h1, h2, h3, h4, h5⟩ := ih (removeColumnRow v T x)
    have hrow : ∀ r, (removeColumnRow v T x).rows.lookup r =
        (T.rows.lookup r).map fun e => if r = x then e.removeVariable v else e := by
      intro r
      unfold removeColumnRow rowExpressionForVariable
      cases hx : T.rows.lookup x with
      | none =>
        by_cases hr : r = x
        · rw [hr, hx]
          rfl
        · simp [hr]
      | some e =>
        by_cases hr : r = x
        · subst hr
          rw [hx]
          simp [setRow]
        · simp only [setRow]
          rw [AList.lookup_insert_ne hr]
          simp [hr]
    have hrs : (removeColumnRow v T x).columns = T.columns ∧ (removeColumnRow v T x).externalRows = T.externalRows ∧
        (removeColumnRow v T x).externalParametricVariables = T.externalParametricVariables ∧
        (removeColumnRow v T x).infeasibleRows = T.infeasibleRows := by
      unfold removeColumnRow
      cases T.rowExpressionForVariable x <;> exact ⟨rfl, rfl, rfl, rfl⟩
    simp only [List.foldl_cons]
    refine ⟨fun r => ?_, h2.trans hrs.1, h3.trans hrs.2.1, h4.trans hrs.2.2.1, h5.trans hrs.2.2.2⟩
    rw [h1, hrow, Option.map_map]
    congr 1
    funext e
    simp only [Function.comp_apply, List.mem_cons]
    by_cases h1 : r = x
    · rw [if_pos h1, if_pos (Or.inl h1),
        GSCSLinearExpression.removeVariable_of_notMem (e.removeVariable v) v (by simp), ite_self]
    · simp only [h1, false_or, if_false]

theorem removeColumn_rows : (T.removeColumn m v).rows.lookup r =
    (T.rows.lookup r).map fun e => if r ∈ T.column v then e.removeVariable v else e := by
  unfold removeColumn
  simp only
  rw [(removeColumnRow_foldl v _ T).1 r]
  simp [(m.enumerate_perm _).mem_iff]

theorem removeColumn_columns : r ∈ (T.removeColumn m v).column w ↔ w ≠ v ∧ r ∈ T.column w := by
  rw [column_eq, column_eq]
  unfold removeColumn
  simp only
  rw [(removeColumnRow_foldl v _ T).2.1, Columns.mem_erase]

theorem removeColumn_externalRows : (T.removeColumn m v).externalRows =
    if v.isExternal then T.externalRows.erase v else T.externalRows := by
  unfold removeColumn
  simp only
  rw [(removeColumnRow_foldl v _ T).2.2.1]

theorem removeColumn_parametric : (T.removeColumn m v).externalParametricVariables = T.externalParametricVariables :=
  (removeColumnRow_foldl v _ T).2.2.2.1

variable {T} in
theorem removeColumn_nodup (h : T.ColumnsNodup) : (T.removeColumn m v).ColumnsNodup := by
  unfold ColumnsNodup removeColumn
  simp only
  rw [(removeColumnRow_foldl v _ T).2.1]
  exact h.erase v

end RemoveColumn

end GSCSTableau

end GnustepGui.Cassowary
