import GnustepGui.Cassowary.TableauRows

/-!
# Substituting a variable out

`substituteExpression` is what `substituteOutTerm:withExpression:inExpression:subject:` makes of one row. Beside it
the column index gets an entry for every term of the new expression that the row lacked, whether or not the row took
the term up: with `Takes` the two agree.
-/

namespace GnustepGui.Cassowary

namespace GSCSTableau

open GSCSLinearExpression

variable (m : Machine)

/-! ## One row -/

/-- `substituteOutTermInExpression` without the column index. -/
def substituteTermStep (newExpression : GSCSLinearExpression) (multiplier : ℚ)
    (e : GSCSLinearExpression) (term : GSCSVariable) : GSCSLinearExpression :=
  match e.multiplierForTerm term with
  | some c =>
    if isApproxiatelyZero m.tol (c + multiplier * newExpression.coefficientForTerm term) then
      e.removeVariable term
    else e.addVariable m.tol term (c + multiplier * newExpression.coefficientForTerm term)
  | none => e.addVariable m.tol term (multiplier * newExpression.coefficientForTerm term)

/-- `substituteOutTerm` without the column index. -/
def substituteExpression (term : GSCSVariable) (newExpression e : GSCSLinearExpression) :
    GSCSLinearExpression :=
  newExpression.termVariables.foldl
    (substituteTermStep m newExpression (e.coefficientForTerm term))
    ((e.removeVariable term).setConstant
      (e.coefficientForTerm term * newExpression.constant + e.constant))

/-- The row takes up every term it lacks: no product of coefficients is within the tolerance. -/
def Takes (term : GSCSVariable) (newExpression e : GSCSLinearExpression) : Prop :=
  ∀ t ∈ newExpression.terms, t ∉ e.terms →
    m.tol < |e.coefficientForTerm term * newExpression.coefficientForTerm t|

section Step

variable {m} {newExpression e : GSCSLinearExpression} {multiplier : ℚ} {subject t w r : GSCSVariable}
  {columns : Columns}

theorem substituteTermStep_address : (substituteTermStep m newExpression multiplier e t).address = e.address := by
  unfold substituteTermStep
  split
  · split
    · rfl
    · exact addVariable_address _ _ _ _
  · exact addVariable_address _ _ _ _

theorem substituteTermStep_constant : (substituteTermStep m newExpression multiplier e t).constant = e.constant := by
  unfold substituteTermStep
  split
  · split
    · rfl
    · exact addVariable_constant _ _ _ _
  · exact addVariable_constant _ _ _ _

theorem mem_substituteTermStep_ne (h : w ≠ t) :
    w ∈ (substituteTermStep m newExpression multiplier e t).terms ↔ w ∈ e.terms := by
  unfold substituteTermStep
  split
  · split
    · rw [mem_removeVariable]; simp [h]
    · rw [mem_addVariable]; simp [h]
  · rw [mem_addVariable]; simp [h]

theorem mem_substituteTermStep_self (ht : t ∉ e.terms) : t ∈ (substituteTermStep m newExpression multiplier e t).terms ↔
      m.tol < |multiplier * newExpression.coefficientForTerm t| := by
  have hn : e.multiplierForTerm t = none := AList.lookup_eq_none.mpr ht
  unfold substituteTermStep
  rw [hn]
  simp only
  rw [mem_addVariable]
  simp [ht]

variable (subject columns) in
theorem step_fst : (substituteOutTermInExpression m newExpression subject multiplier
    (e, columns) t).1 = substituteTermStep m newExpression multiplier e t := by
  unfold substituteOutTermInExpression substituteTermStep
  cases e.multiplierForTerm t with
  | none => rfl
  | some c => simp only; split <;> rfl

/-- The entry of the subject in the column of the term, after the term. -/
theorem step_columns : r ∈ (substituteOutTermInExpression m newExpression subject multiplier
    (e, columns) t).2.members w ↔
    if r = subject ∧ w = t then
      (if t ∈ e.terms then r ∈ columns.members w ∧
          t ∈ (substituteTermStep m newExpression multiplier e t).terms
        else True)
    else r ∈ columns.members w := by
  unfold substituteOutTermInExpression substituteTermStep
  cases hc : e.multiplierForTerm t with
  | none =>
    have ht : t ∉ e.terms := AList.lookup_eq_none.mp hc
    simp only [ht, if_false]
    rw [Columns.mem_addMapping]
    split
    · next h => simp [h]
    · next h =>
      have h' : ¬ (w = t ∧ r = subject) := fun hc => h ⟨hc.2, hc.1⟩
      simp [h']
  | some c =>
    have ht : t ∈ e.terms := AList.lookup_isSome.mp (by
      unfold multiplierForTerm at hc; rw [hc]; rfl)
    simp only [ht, if_true]
    by_cases hz : isApproxiatelyZero m.tol (c + multiplier * newExpression.coefficientForTerm t)
    · rw [if_pos hz, if_pos hz, Columns.mem_removeMapping]
      split
      · next h => simp [h]
      · next h =>
        have h' : ¬ (w = t ∧ r = subject) := fun hc => h ⟨hc.2, hc.1⟩
        simp [h']
    · rw [if_neg hz, if_neg hz, mem_addVariable]
      simp [ht]

theorem step_nodup (h : columns.IsSets) : (substituteOutTermInExpression m newExpression subject
    multiplier (e, columns) t).2.IsSets := by
  unfold substituteOutTermInExpression
  cases e.multiplierForTerm t with
  | none => exact h.addMapping _ _
  | some c =>
    simp only
    split
    · exact h.removeMapping _ _
    · exact h

end Step

/-! ## All terms of the new expression -/

section Fold

variable {m} {newExpression : GSCSLinearExpression} {multiplier : ℚ} {subject : GSCSVariable}

theorem foldl_fst (ts : List GSCSVariable) : ∀ (e : GSCSLinearExpression) (columns : Columns),
    (ts.foldl (substituteOutTermInExpression m newExpression subject multiplier) (e, columns)).1 =
      ts.foldl (substituteTermStep m newExpression multiplier) e := by
  induction ts with
  | nil => intro e columns; rfl
  | cons t ts ih =>
    intro e columns
    simp only [List.foldl_cons]
    rw [← step_fst subject columns]
    exact ih _ _

theorem foldl_address (ts : List GSCSVariable) : ∀ e : GSCSLinearExpression,
    (ts.foldl (substituteTermStep m newExpression multiplier) e).address = e.address := by
  induction ts with
  | nil => intro e; rfl
  | cons t ts ih =>
    intro e
    rw [List.foldl_cons, ih, substituteTermStep_address]

theorem foldl_constant (ts : List GSCSVariable) : ∀ e : GSCSLinearExpression,
    (ts.foldl (substituteTermStep m newExpression multiplier) e).constant = e.constant := by
  induction ts with
  | nil => intro e; rfl
  | cons t ts ih =>
    intro e
    rw [List.foldl_cons, ih, substituteTermStep_constant]

variable (m newExpression multiplier) in
theorem mem_foldl_notMem {ts : List GSCSVariable} {w : GSCSVariable} (hw : w ∉ ts) : ∀ e : GSCSLinearExpression,
      w ∈ (ts.foldl (substituteTermStep m newExpression multiplier) e).terms ↔ w ∈ e.terms := by
  induction ts with
  | nil => intro e; rfl
  | cons t ts ih =>
    intro e
    obtain ⟨hne, hw⟩ := not_or.mp (List.mem_cons.not.mp hw)
    rw [List.foldl_cons, ih hw, mem_substituteTermStep_ne hne]

theorem mem_foldl_new {ts : List GSCSVariable} (ht : ts.Nodup) {w : GSCSVariable} (hw : w ∈ ts) :
    ∀ e : GSCSLinearExpression, w ∉ e.terms → (w ∈ (ts.foldl (substituteTermStep m newExpression multiplier) e).terms ↔
        m.tol < |multiplier * newExpression.coefficientForTerm w|) := by
  induction ts with
  | nil => simp at hw
  | cons t ts ih =>
    intro e he
    obtain ⟨hn, ht⟩ := List.nodup_cons.mp ht
    rw [List.foldl_cons]
    by_cases hwt : w = t
    · subst hwt
      rw [mem_foldl_notMem _ _ _ hn, mem_substituteTermStep_self he]
    · refine ih ht ((List.mem_cons.mp hw).resolve_left hwt) _ ?_
      rwa [mem_substituteTermStep_ne hwt]

theorem foldl_columns {ts : List GSCSVariable} (ht : ts.Nodup) :
    ∀ (e : GSCSLinearExpression) (columns : Columns) (w r : GSCSVariable),
      r ∈ (ts.foldl (substituteOutTermInExpression m newExpression subject multiplier)
        (e, columns)).2.members w ↔
      if r = subject ∧ w ∈ ts then
        (if w ∈ e.terms then r ∈ columns.members w ∧
            w ∈ (ts.foldl (substituteTermStep m newExpression multiplier) e).terms
          else True)
      else r ∈ columns.members w := by
  induction ts with
  | nil => intro e columns w r; simp
  | cons t ts ih =>
    intro e columns w r
    obtain ⟨hn, ht⟩ := List.nodup_cons.mp ht
    have hp : substituteOutTermInExpression m newExpression subject multiplier (e, columns) t =
        (substituteTermStep m newExpression multiplier e t,
          (substituteOutTermInExpression m newExpression subject multiplier (e, columns) t).2) :=
      Prod.ext (step_fst _ _) rfl
    simp only [List.foldl_cons]
    rw [hp, ih ht, step_columns]
    by_cases hr : r = subject
    · by_cases hw : w = t
      · subst hw
        have hk := mem_foldl_notMem m newExpression multiplier
          hn (substituteTermStep m newExpression multiplier e w)
        simp [hr, hn, hk]
      · have hk : w ∈ (substituteTermStep m newExpression multiplier e t).terms ↔ w ∈ e.terms :=
          mem_substituteTermStep_ne hw
        simp [hr, hw, hk]
    · simp [hr]

theorem foldl_nodup (ts : List GSCSVariable) : ∀ (e : GSCSLinearExpression) (columns : Columns),
    columns.IsSets → (ts.foldl (substituteOutTermInExpression m newExpression subject multiplier)
      (e, columns)).2.IsSets := by
  induction ts with
  | nil => exact fun _ _ h => h
  | cons t ts ih =>
    intro e columns h
    simp only [List.foldl_cons]
    exact ih _ _ (step_nodup h)

end Fold

section Row

variable {m} {term : GSCSVariable} {newExpression e : GSCSLinearExpression} {subject w r : GSCSVariable}
  {columns : Columns}

theorem substituteOutTerm_fst : (substituteOutTerm m term newExpression e subject columns).1 =
    substituteExpression m term newExpression e := foldl_fst _ _ _

theorem substituteExpression_address :
    (substituteExpression m term newExpression e).address = e.address := foldl_address _ _

theorem substituteExpression_constant : (substituteExpression m term newExpression e).constant =
    e.coefficientForTerm term * newExpression.constant + e.constant := foldl_constant _ _

theorem mem_substituteExpression_notMem (hw : w ∉ newExpression.terms) :
    w ∈ (substituteExpression m term newExpression e).terms ↔ w ≠ term ∧ w ∈ e.terms := by
  unfold substituteExpression
  rw [mem_foldl_notMem _ _ _ (by rwa [mem_termVariables]), setConstant_terms, mem_removeVariable]

theorem mem_substituteExpression_new (hw : w ∈ newExpression.terms) (he : w ∉ e.terms) :
    w ∈ (substituteExpression m term newExpression e).terms ↔
      m.tol < |e.coefficientForTerm term * newExpression.coefficientForTerm w| := by
  unfold substituteExpression
  refine mem_foldl_new newExpression.nodup_termVariables (by rwa [mem_termVariables]) _ ?_
  rw [setConstant_terms, mem_removeVariable]
  exact fun h => he h.2

theorem mem_substituteExpression (hw : w ∈ (substituteExpression m term newExpression e).terms) :
    w ∈ newExpression.terms ∨ (w ≠ term ∧ w ∈ e.terms) := by
  by_cases h : w ∈ newExpression.terms
  · exact Or.inl h
  · exact Or.inr ((mem_substituteExpression_notMem h).mp hw)

theorem substituteOutTerm_columns (hc : ∀ w, r ∈ columns.members w ↔ w ∈ e.terms) (hw : w ≠ term) :
    r ∈ (substituteOutTerm m term newExpression e r columns).2.members w ↔
      w ∈ (substituteExpression m term newExpression e).terms ∨ (w ∈ newExpression.terms ∧ w ∉ e.terms) := by
  unfold substituteOutTerm
  simp only
  rw [foldl_columns newExpression.nodup_termVariables]
  simp only [true_and, mem_termVariables, setConstant_terms, mem_removeVariable, hw, ne_eq, not_false_eq_true, hc]
  by_cases hn : w ∈ newExpression.terms
  · by_cases he : w ∈ e.terms
    · simp only [hn, he, if_true, true_and, not_true_eq_false, and_false, or_false]
      rfl
    · simp [hn, he]
  · rw [mem_substituteExpression_notMem hn]
    simp [hn, hw]

theorem substituteOutTerm_columns_ne (h : r ≠ subject) :
    r ∈ (substituteOutTerm m term newExpression e subject columns).2.members w ↔ r ∈ columns.members w := by
  unfold substituteOutTerm
  simp only
  rw [foldl_columns newExpression.nodup_termVariables]
  simp [h]

theorem substituteOutTerm_nodup (h : columns.IsSets) :
    (substituteOutTerm m term newExpression e subject columns).2.IsSets := foldl_nodup _ _ _ h

theorem takes_iff : Takes m term newExpression e ↔ ∀ w ∈ newExpression.terms, w ∉ e.terms →
    w ∈ (substituteExpression m term newExpression e).terms := by
  refine forall_congr' fun w => forall_congr' fun hw => forall_congr' fun he => ?_
  rw [mem_substituteExpression_new hw he]

end Row

/-! ## All rows of a column -/

section Rows

variable {m} {term : GSCSVariable} {newExpression : GSCSLinearExpression}

variable (m term newExpression) in
theorem substituteOutRow_foldl {L : List GSCSVariable} (hL : L.Nodup) : ∀ T : GSCSTableau,
    (∀ r ∈ L, ∃ e, T.rows.lookup r = some e) →
    (∀ r, (L.foldl (substituteOutRow m term newExpression) T).rows.lookup r =
      (T.rows.lookup r).map fun e => if r ∈ L then substituteExpression m term newExpression e else e) ∧
    (∀ r ∉ L, ∀ w, r ∈ (L.foldl (substituteOutRow m term newExpression) T).column w ↔
      r ∈ T.column w) ∧
    (∀ r ∈ L, ∀ e, T.rows.lookup r = some e → (∀ w, r ∈ T.column w ↔ w ∈ e.terms) →
      ∀ w ≠ term,
        (r ∈ (L.foldl (substituteOutRow m term newExpression) T).column w ↔
          w ∈ (substituteExpression m term newExpression e).terms ∨
            (w ∈ newExpression.terms ∧ w ∉ e.terms))) ∧
    (L.foldl (substituteOutRow m term newExpression) T).externalRows = T.externalRows ∧
    (L.foldl (substituteOutRow m term newExpression) T).externalParametricVariables =
      T.externalParametricVariables ∧
    (T.ColumnsNodup → (L.foldl (substituteOutRow m term newExpression) T).ColumnsNodup) ∧
    (∀ r ∈ (L.foldl (substituteOutRow m term newExpression) T).infeasibleRows,
      r ∈ T.infeasibleRows ∨ r ∈ L) ∧
    (∀ r, (r ∈ T.infeasibleRows ∨ (r ∈ L ∧ r.isRestricted ∧
        ∃ e, T.rows.lookup r = some e ∧ (substituteExpression m term newExpression e).constant < 0)) →
      r ∈ (L.foldl (substituteOutRow m term newExpression) T).infeasibleRows) := by
  induction L with
  | nil => intro T _; simp
  | cons x L ih =>
    intro T hrw
    obtain ⟨hx, hL⟩ := List.nodup_cons.mp hL
    obtain ⟨e, he⟩ := hrw x (by simp)
    have hs : substituteOutRow m term newExpression T x = { T with
        rows := T.rows.insert x (substituteExpression m term newExpression e)
        columns := (substituteOutTerm m term newExpression e x T.columns).2
        infeasibleRows := if x.isRestricted ∧
            (substituteExpression m term newExpression e).constant < 0
          then T.infeasibleRows ++ [x] else T.infeasibleRows } := by
      unfold substituteOutRow rowExpressionForVariable
      rw [he]
      simp only
      rw [substituteOutTerm_fst]
    have hother : ∀ r ≠ x, (substituteOutRow m term newExpression T x).rows.lookup r = T.rows.lookup r := by
      intro r hr
      rw [hs]
      simp only
      rw [AList.lookup_insert_ne hr]
    have hcl : ∀ r ≠ x, ∀ w, r ∈ (substituteOutRow m term newExpression T x).column w ↔ r ∈ T.column w := by
      intro r hr w
      rw [hs]
      exact substituteOutTerm_columns_ne hr
    obtain ⟨h1, h2, h3, h4, h5, h6, h7, h8⟩ := ih hL (substituteOutRow m term newExpression T x)
      fun r hr => by
        rw [hother r (fun h => hx (h ▸ hr))]
        exact hrw r (List.mem_cons_of_mem _ hr)
    simp only [List.foldl_cons]
    refine ⟨fun r => ?_, fun r hr w => ?_, fun r hr e' he' hc w hw => ?_, ?_, ?_, fun hn => ?_,
      fun r hr => ?_, fun r hr => ?_⟩
    · rw [h1]
      by_cases hrx : r = x
      · subst hrx
        rw [hs, he]
        simp [hx]
      · rw [hother r hrx]
        simp [hrx]
    · obtain ⟨hrx, hr⟩ := not_or.mp (List.mem_cons.not.mp hr)
      rw [h2 r hr, hcl r hrx]
    · by_cases hrx : r = x
      · subst hrx
        rw [he] at he'
        obtain rfl := Option.some.inj he'
        rw [h2 r hx, hs]
        exact substituteOutTerm_columns hc hw
      · refine h3 r ((List.mem_cons.mp hr).resolve_left hrx) e' ?_ ?_ w hw
        · rw [hother r hrx, he']
        · intro w'
          rw [hcl r hrx, hc]
    · rw [h4, hs]
    · rw [h5, hs]
    · refine h6 ?_
      rw [hs]
      exact substituteOutTerm_nodup hn
    · rcases h7 r hr with h | h
      · rw [hs] at h
        simp only at h
        split at h
        · rcases List.mem_append.mp h with h | h
          · exact Or.inl h
          · exact Or.inr (by simp [List.mem_singleton.mp h])
        · exact Or.inl h
      · exact Or.inr (List.mem_cons_of_mem _ h)
    · apply h8
      by_cases hrx : r = x
      · subst hrx
        left
        rw [hs]
        simp only
        rcases hr with h | ⟨-, hres, e', he', hneg⟩
        · split <;> simp [h]
        · rw [he] at he'
          obtain rfl := Option.some.inj he'
          rw [if_pos ⟨hres, hneg⟩]
          simp
      · rcases hr with h | ⟨h, hres, e', he', hneg⟩
        · left
          rw [hs]
          simp only
          split <;> simp [h]
        · exact Or.inr ⟨(List.mem_cons.mp h).resolve_left hrx, hres, e', by rw [hother r hrx, he'],
            hneg⟩

end Rows

end GSCSTableau

end GnustepGui.Cassowary
