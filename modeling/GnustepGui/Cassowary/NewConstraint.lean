import GnustepGui.Cassowary.Held

/-!
# `expressionForNewConstraint:`

In exact arithmetic the expression of a new constraint is the constraint's own expression with every
basic variable replaced by its row and with the variables of its role, or the negative of that: it has
no basic variable, its constant is not negative, and on the solutions of the tableau it has the value
of the constraint's equation up to a sign (`Prepared`). The weights of the error variables are in
the objective already.
-/

namespace GnustepGui.Cassowary

open GSCSLinearExpression GSCSTableau GSCassowarySolver Simplex Simplex.Form StateExcept

variable {m : Machine} {T : GSCSTableau} {v w : GSCSVariable} {e source : GSCSLinearExpression}

/-! ## Accumulating terms -/

section Accumulate

variable (hm : m.tol = 0)

include hm

theorem accumulate_spec (he : e.Reduced) (v : GSCSVariable) (c : ℚ) :
    (accumulate m e v c).Reduced ∧ (accumulate m e v c).form = e.form + c • term v ∧
      ∀ w ∈ (accumulate m e v c).terms, w = v ∨ w ∈ e.terms := by
  have hexisting : (if e.isTermForVariable v then e.coefficientForTerm v else 0) =
      e.coefficientForTerm v := by
    split
    · rfl
    · next h =>
      rw [isTermForVariable_iff] at h
      exact (coefficientForTerm_of_notMem e v h).symm
  unfold accumulate
  simp only [hexisting, hm, isApproxiatelyZero_exact]
  by_cases hz : e.coefficientForTerm v + c = 0
  · rw [if_pos hz]
    refine ⟨he.removeVariable v, ?_, fun w hw => Or.inr ((mem_removeVariable e v w).mp hw).2⟩
    rw [form_removeTerm]
    congr 2
    linarith
  · rw [if_neg hz, ← hm]
    refine ⟨he.addVariable _ _ _ (le_of_eq hm.symm), ?_, fun w hw => ?_⟩
    · rw [form_setTerm hm hz]
      congr 2
      ring
    · rcases (mem_addVariable _ _ _ _ _).mp hw with h | ⟨h, -⟩
      · exact Or.inr h
      · exact Or.inl h

theorem accumulate_foldl (k : ℚ) (source : GSCSLinearExpression) (ts : List GSCSVariable) :
    ∀ e : GSCSLinearExpression, e.Reduced →
      let e' := ts.foldl (fun e v => accumulate m e v (k * source.coefficientForTerm v)) e
      e'.Reduced ∧ e'.form = e.form + k • (ts.map fun t => source.coefficientForTerm t •
        (term t : Form GSCSVariable ℚ)).sum ∧ ∀ w ∈ e'.terms, w ∈ ts ∨ w ∈ e.terms := by
  induction ts with
  | nil =>
    intro e he
    exact ⟨he, by simp, fun w hw => Or.inr hw⟩
  | cons t ts ih =>
    intro e he
    obtain ⟨h1, h2, h3⟩ := accumulate_spec hm he t (k * source.coefficientForTerm t)
    obtain ⟨h4, h5, h6⟩ := ih _ h1
    refine ⟨h4, ?_, fun w hw => ?_⟩
    · rw [List.foldl_cons, h5, h2, List.map_cons, List.sum_cons, smul_add, smul_smul, add_assoc]
    · rcases h6 w hw with h | h
      · exact Or.inl (List.mem_cons_of_mem _ h)
      · rcases h3 w h with rfl | h
        · exact Or.inl List.mem_cons_self
        · exact Or.inr h

theorem addExpression_spec (he : e.Reduced) (k : ℚ) (source : GSCSLinearExpression) :
    (addExpression m source k e).Reduced ∧ (addExpression m source k e).form = e.form + k • source.form ∧
      ∀ w ∈ (addExpression m source k e).terms, w ∈ source.terms ∨ w ∈ e.terms := by
  obtain ⟨h1, h2, h3⟩ := accumulate_foldl hm k source source.termVariables
    (e.setConstant (e.constant + k * source.constant)) he
  refine ⟨h1, h2.trans ?_, fun w hw => ?_⟩
  · conv_rhs => rw [form_eq_sum source]
    rw [smul_add, ← add_assoc]
    congr 1
    exact Prod.ext (by simp) (by simp [form])
  · rcases h3 w hw with h | h
    · exact Or.inl ((mem_termVariables _ _).mp h)
    · exact Or.inr h

theorem expandTerm_spec (h : Sound T) (ce : GSCSLinearExpression) (he : e.Reduced)
    (v : GSCSVariable) : (expandTerm m T ce e v).Reduced ∧ (∀ w ∈ (expandTerm m T ce e v).terms, w ∈ e.terms ∨
        T.dictionary w = none ∧ (w = v ∨ T.dictionary.Mentions w)) ∧
      ∀ σ, T.dictionary.Solution σ → eval σ (expandTerm m T ce e v).form =
        eval σ e.form + ce.coefficientForTerm v * σ v := by
  unfold expandTerm rowExpressionForVariable
  cases hr : T.rows.lookup v with
  | none =>
    obtain ⟨h1, h2, h3⟩ := accumulate_spec hm he v (ce.coefficientForTerm v)
    refine ⟨h1, fun w hw => ?_, fun σ _ => ?_⟩
    · rcases h3 w hw with rfl | h
      · exact Or.inr ⟨dictionary_eq_none.mpr hr, Or.inl rfl⟩
      · exact Or.inl h
    · simp only [h2, map_add, map_smul, eval_term, smul_eq_mul]
  | some row =>
    obtain ⟨h1, h2, h3⟩ := addExpression_spec hm he (ce.coefficientForTerm v) row
    refine ⟨h1, fun w hw => ?_, fun σ hσ => ?_⟩
    · rcases h3 w hw with h' | h'
      · have hne := (h.mem_terms hr).mp h'
        exact Or.inr ⟨h.canonical v _ (dictionary_of_row hr) w hne, Or.inr (Or.inr ⟨v, _, dictionary_of_row hr, hne⟩)⟩
      · exact Or.inl h'
    · simp only [h2, map_add, map_smul, smul_eq_mul]
      rw [hσ v _ (dictionary_of_row hr)]

theorem expandTerms_spec (h : Sound T) (ce : GSCSLinearExpression) (address : Nat) :
    (expandTerms m T ce address).Reduced ∧ (∀ w ∈ (expandTerms m T ce address).terms,
        T.dictionary w = none ∧ (w ∈ ce.terms ∨ T.dictionary.Mentions w)) ∧ ∀ σ, T.dictionary.Solution σ →
        eval σ (expandTerms m T ce address).form = eval σ ce.form := by
  have hf : ∀ (ts : List GSCSVariable) (e : GSCSLinearExpression), e.Reduced →
      (ts.foldl (expandTerm m T ce) e).Reduced ∧ (∀ w ∈ (ts.foldl (expandTerm m T ce) e).terms, w ∈ e.terms ∨
        T.dictionary w = none ∧ (w ∈ ts ∨ T.dictionary.Mentions w)) ∧
      ∀ σ, T.dictionary.Solution σ → eval σ (ts.foldl (expandTerm m T ce) e).form =
        eval σ e.form + eval σ (ts.map fun t => ce.coefficientForTerm t • (term t : Form GSCSVariable ℚ)).sum := by
    intro ts
    induction ts with
    | nil =>
      intro e he
      exact ⟨he, fun w hw => Or.inl hw, fun σ _ => by simp⟩
    | cons t ts ih =>
      intro e he
      obtain ⟨h1, h2, h3⟩ := expandTerm_spec hm h ce he t
      obtain ⟨h4, h5, h6⟩ := ih _ h1
      refine ⟨h4, fun w hw => ?_, fun σ hσ => ?_⟩
      · rcases h5 w hw with h' | ⟨h', h''⟩
        · rcases h2 w h' with hw | ⟨hn, rfl | hw⟩
          · exact Or.inl hw
          · exact Or.inr ⟨hn, Or.inl List.mem_cons_self⟩
          · exact Or.inr ⟨hn, Or.inr hw⟩
        · exact Or.inr ⟨h', h''.imp_left (List.mem_cons_of_mem _)⟩
      · rw [List.foldl_cons, h6 σ hσ, h3 σ hσ, List.map_cons, List.sum_cons]
        simp only [map_add, map_smul, eval_term, smul_eq_mul]
        ring
  obtain ⟨h1, h2, h3⟩ := hf ce.termVariables _ (initWithConstant_reduced ce.constant address)
  refine ⟨h1, fun w hw => ?_, fun σ hσ => ?_⟩
  · rcases h2 w hw with h' | ⟨h', h''⟩
    · simp [initWithConstant] at h'
    · exact ⟨h', h''.imp_left (mem_termVariables _ _).mp⟩
  · refine (h3 σ hσ).trans ?_
    conv_rhs => rw [form_eq_sum ce]
    rw [map_add]
    congr 2

end Accumulate

/-! ## The weights of the error variables -/

theorem tidy_updateObjective {D : Dictionary GSCSVariable ℚ} (h : Tidy signs D)
    {f : Form GSCSVariable ℚ} (hc : Dictionary.Canonical (Function.update D .objective (some f)))
    (hf : ∀ v, f.2 v ≠ 0 → signs.Restricted v) : Tidy signs (Function.update D .objective (some f)) := by
  refine ⟨hc, fun r g hr => ?_, fun r g hr hs => ?_, fun r g hr hd => ?_⟩
  · rcases update_eq_some hr with ⟨-, rfl⟩ | ⟨-, h'⟩
    · exact fun _ => hf
    · exact h.closed r g h'
  · rcases update_eq_some hr with ⟨rfl, -⟩ | ⟨-, h'⟩
    · cases hs
    · exact h.slackRow r g h' hs
  · rcases update_eq_some hr with ⟨rfl, -⟩ | ⟨-, h'⟩
    · cases hd
    · exact h.dummyRow r g h' hd

variable {S : System GSCSVariable ℚ}

theorem Solves.addToObjective (h : Solves T S) {T' : GSCSTableau}
    {f k g : Form GSCSVariable ℚ} (hs : Sound T') (hf : T.dictionary .objective = some f)
    (hT' : T'.dictionary = Function.update T.dictionary .objective (some (f + k)))
    (hk : ∀ w, k.2 w ≠ 0 → T.dictionary w = none ∧ signs.Restricted w)
    (he : ∀ σ, T.dictionary.Solution σ → eval σ k = eval σ g) (hg : g.2 .objective = 0) :
    Solves T' ⟨S.equations, S.objective + g⟩ := by
  have hr := h.represents.addToObjective hf (fun w hw => (hk w hw).1) he hg
  refine ⟨hs, ?_, by rwa [hT']⟩
  rw [hT']
  refine tidy_updateObjective h.tidy hr.canonical fun w hw => ?_
  by_cases hfw : f.2 w = 0
  · rw [Prod.snd_add, Finsupp.add_apply, hfw, zero_add] at hw
    exact (hk w hw).2
  · exact h.tidy.closed _ f hf (Or.inr rfl) w hfw

theorem Solves.addErrorVariable (h : Solves T S) (hm : m.tol = 0)
    (hv : T.dictionary v = none) (hp : v.isPivotable = true) (c : ℚ) :
    Solves (T.addVariableToRow m v c .objective) ⟨S.equations, S.objective + c • term v⟩ ∧
      (∀ r, r ≠ .objective → (T.addVariableToRow m v c .objective).dictionary r = T.dictionary r) ∧
      ∀ w, (T.addVariableToRow m v c .objective).dictionary.Mentions w → w = v ∨ T.dictionary.Mentions w := by
  obtain ⟨f, hf⟩ := h.represents.row
  obtain ⟨row, hrow, rfl⟩ := dictionary_eq_some.mp hf
  obtain ⟨h1, h2⟩ := h.sound.addVariableToRow hm hrow (dictionary_eq_none.mp hv) c
  have ht : ∀ w, (c • term v : Form GSCSVariable ℚ).2 w ≠ 0 → w = v := by
    intro w hw
    by_contra hne
    simp [term_coeff_ne hne] at hw
  have hvz : v ≠ .objective := by
    rintro rfl
    cases hp
  refine ⟨h.addToObjective h1 hf h2 (fun w hw => ?_) (fun _ _ => rfl) ?_, fun r hr => ?_, fun w hw => ?_⟩
  · rw [ht w hw]
    exact ⟨hv, Or.inl hp⟩
  · by_contra hne
    exact hvz (ht _ hne).symm
  · rw [h2, Function.update_of_ne hr]
  · rw [h2] at hw
    rcases hw with ⟨g, hg⟩ | ⟨r, g, hg, hgw⟩
    · rcases update_eq_some hg with ⟨rfl, -⟩ | ⟨-, h'⟩
      · exact Or.inr (Or.inl ⟨_, hf⟩)
      · exact Or.inr (Or.inl ⟨g, h'⟩)
    · rcases update_eq_some hg with ⟨-, rfl⟩ | ⟨-, h'⟩
      · by_cases hfw : row.form.2 w = 0
        · rw [Prod.snd_add, Finsupp.add_apply, hfw, zero_add] at hgw
          exact Or.inl (ht w hgw)
        · exact Or.inr (Or.inr ⟨_, _, hf, hfw⟩)
      · exact Or.inr (Or.inr ⟨r, g, h', hgw⟩)

/-! ## The variables of the role -/

/-- The weights of the error variables of a role. -/
noncomputable def Role.cost (role : Role) (c : GSCSConstraint) : Form GSCSVariable ℚ :=
  c.strength.strength • (role.errors.map term).sum

/-- The state and the result after `augment`, of the expression `e`. -/
structure Augmented (m : Machine) (s s' : GSCassowarySolver) (S : System GSCSVariable ℚ)
    (c : GSCSConstraint) (e : GSCSLinearExpression) (r : NewConstraint) (role : Role) : Prop where
  state : s' = { s with tableau := s'.tableau, slackCounter := s'.slackCounter,
                        dummyCounter := s'.dummyCounter }
  fits : role.Fits m c
  marker : r.marker = role.marker
  errors : r.errors.getD [] = role.errors
  required : c.isRequired m.tol = true → r.errors = none
  nodup : role.own.Nodup
  fresh : ∀ v ∈ role.own, ¬ s.Known v ∧ s'.Known v
  grown : Grown s s'
  solves : Solves s'.tableau ⟨S.equations, S.objective + role.cost c⟩
  rows : ∀ r, r ≠ .objective → s'.tableau.dictionary r = s.tableau.dictionary r
  mentions : ∀ w, s'.tableau.dictionary.Mentions w → w ∈ role.own ∨ s.tableau.dictionary.Mentions w
  reduced : r.expression.Reduced
  form : r.expression.form = e.form + role.form
  terms : ∀ w ∈ r.expression.terms, w ∈ role.own ∨ w ∈ e.terms

variable {s : GSCassowarySolver}

theorem nonbasic_of_unknown (hk : ∀ v, s.tableau.dictionary.Mentions v → s.Known v) (hv : ¬ s.Known v) :
    s.tableau.dictionary v = none := by
  cases hd : s.tableau.dictionary v with
  | none => rfl
  | some f => exact absurd (hk v (Or.inl ⟨f, hd⟩)) hv

theorem augment_spec (hm : m.tol = 0) (hs : Solves s.tableau S) (hk : ∀ v, s.tableau.dictionary.Mentions v → s.Known v)
    (he : e.Reduced) (c : GSCSConstraint) :
    ∃ r s' role, augment m c e s = .ok r s' ∧ Augmented m s s' S c e r role := by
  have hu : ∀ n, s.slackCounter < n → ¬ s.Known (.slack n) := fun n hn => not_le.mpr hn
  have hnn : ∀ n, s.slackCounter < n → s.tableau.dictionary (.slack n) = none :=
    fun n hn => nonbasic_of_unknown hk (hu n hn)
  have hsl : (GSCSVariable.slack (s.slackCounter + 1)) ≠ .slack (s.slackCounter + 1 + 1) := by simp
  unfold augment
  cases hin : c.isInequality with
  | true =>
    obtain ⟨h1, h2, h3⟩ := accumulate_spec hm he (.slack (s.slackCounter + 1)) (-1)
    cases hreq : c.isRequired m.tol with
    | true =>
      refine ⟨_, _, .requiredInequality (s.slackCounter + 1), rfl, rfl, ⟨hin, hreq⟩, rfl, rfl,
        fun _ => rfl, by simp [Role.own], ?_, ⟨List.Subset.refl _, Nat.le_succ _, le_refl _,
        le_refl _⟩, ?_, fun _ _ => rfl, fun w hw => Or.inr hw, h1, ?_, fun w hw => ?_⟩
      · simp only [Role.own, List.mem_singleton, forall_eq]
        exact ⟨hu _ (Nat.lt_succ_self _), le_refl (s.slackCounter + 1)⟩
      · simpa [Role.cost, Role.errors] using hs
      · rw [h2, Role.form]
        simp
      · exact (h3 w hw).imp_left fun h => by simp [Role.own, h]
    | false =>
      obtain ⟨h4, h5, h6⟩ := accumulate_spec hm h1 (.slack (s.slackCounter + 1 + 1)) 1
      obtain ⟨h7, h8, h9⟩ := hs.addErrorVariable hm (hnn (s.slackCounter + 1 + 1) (by omega))
        rfl c.strength.strength
      refine ⟨_, _, .inequality (s.slackCounter + 1) (s.slackCounter + 1 + 1), rfl, rfl,
        ⟨hin, hreq⟩, rfl, rfl, fun h => ?_, by simp [Role.own], ?_, ⟨List.Subset.refl _,
        by show s.slackCounter ≤ s.slackCounter + 1 + 1; omega, le_refl _, le_refl _⟩, ?_, h8,
        fun w hw => ?_, h4, ?_, fun w hw => ?_⟩
      · rw [hreq] at h
        cases h
      · simp only [Role.own, List.forall_mem_cons]
        refine ⟨⟨hu _ (by omega), ?_⟩, ⟨hu _ (by omega), ?_⟩, by simp⟩
        · exact Nat.le_succ (s.slackCounter + 1)
        · exact le_refl (s.slackCounter + 1 + 1)
      · simpa [Role.cost, Role.errors] using h7
      · exact (h9 w hw).imp_left fun h => by simp [Role.own, h]
      · rw [h5, h2, Role.form, neg_one_smul, one_smul]
        abel
      · rcases h6 w hw with rfl | hw
        · exact Or.inl (by simp [Role.own])
        · exact (h3 w hw).imp_left fun h => by simp [Role.own, h]
  | false =>
    cases hreq : c.isRequired m.tol with
    | true =>
      obtain ⟨h1, h2, h3⟩ := accumulate_spec hm he (.dummy (s.dummyCounter + 1)) 1
      refine ⟨_, _, .requiredEquality (s.dummyCounter + 1), rfl, rfl, ⟨hin, hreq⟩, rfl, rfl,
        fun _ => rfl, by simp [Role.own], ?_, ⟨List.Subset.refl _, le_refl _, Nat.le_succ _,
        le_refl _⟩, ?_, fun _ _ => rfl, fun w hw => Or.inr hw, h1, ?_, fun w hw => ?_⟩
      · simp only [Role.own, List.mem_singleton, forall_eq]
        exact ⟨not_le.mpr (Nat.lt_succ_self s.dummyCounter), le_refl (s.dummyCounter + 1)⟩
      · simpa [Role.cost, Role.errors] using hs
      · rw [h2, Role.form]
        simp
      · exact (h3 w hw).imp_left fun h => by simp [Role.own, h]
    | false =>
      obtain ⟨h1, h2, h3⟩ := accumulate_spec hm he (.slack (s.slackCounter + 1)) (-1)
      obtain ⟨h4, h5, h6⟩ := accumulate_spec hm h1 (.slack (s.slackCounter + 1 + 1)) 1
      obtain ⟨h7, h8, h9⟩ := hs.addErrorVariable hm (hnn (s.slackCounter + 1) (by omega))
        rfl c.strength.strength
      obtain ⟨h10, h11, h12⟩ := h7.addErrorVariable (v := .slack (s.slackCounter + 1 + 1)) hm
        (by rw [h8 _ (by simp)]; exact hnn _ (by omega)) rfl c.strength.strength
      refine ⟨_, _, .equality (s.slackCounter + 1) (s.slackCounter + 1 + 1), rfl, rfl,
        ⟨hin, hreq⟩, rfl, rfl, fun h => ?_, by simp [Role.own], ?_, ⟨List.Subset.refl _,
        by show s.slackCounter ≤ s.slackCounter + 1 + 1; omega, le_refl _, le_refl _⟩, ?_,
        fun r hr => (h11 r hr).trans (h8 r hr), fun w hw => ?_, h4, ?_, fun w hw => ?_⟩
      · rw [hreq] at h
        cases h
      · simp only [Role.own, List.forall_mem_cons]
        refine ⟨⟨hu _ (by omega), ?_⟩, ⟨hu _ (by omega), ?_⟩, by simp⟩
        · exact Nat.le_succ (s.slackCounter + 1)
        · exact le_refl (s.slackCounter + 1 + 1)
      · simpa [Role.cost, Role.errors, smul_add, add_assoc] using h10
      · rcases h12 w hw with rfl | hw
        · exact Or.inl (by simp [Role.own])
        · exact (h9 w hw).imp_left fun h => by simp [Role.own, h]
      · rw [h5, h2, Role.form, neg_one_smul, one_smul]
        abel
      · rcases h6 w hw with rfl | hw
        · exact Or.inl (by simp [Role.own])
        · exact (h3 w hw).imp_left fun h => by simp [Role.own, h]

/-! ## The new expression -/

/-- The state and the result after `expressionForNewConstraint:`: the expression is `ε` times `base`,
the constraint's expression without basic variables, with the variables of the role. -/
structure Prepared (m : Machine) (s s' : GSCassowarySolver) (S : System GSCSVariable ℚ)
    (c : GSCSConstraint) (r : NewConstraint) (role : Role) (ε : ℚ) (base : Form GSCSVariable ℚ) :
    Prop where
  state : s' = { s with tableau := s'.tableau, slackCounter := s'.slackCounter,
                        dummyCounter := s'.dummyCounter, externalVariables := s'.externalVariables,
                        nextExpression := s'.nextExpression }
  fits : role.Fits m c
  marker : r.marker = role.marker
  errors : r.errors.getD [] = role.errors
  required : c.isRequired m.tol = true → r.errors = none
  nodup : role.own.Nodup
  fresh : ∀ v ∈ role.own, ¬ s.Known v ∧ s'.Known v
  grown : Grown s s'
  solves : Solves s'.tableau ⟨S.equations, S.objective + role.cost c⟩
  known : ∀ v, s'.tableau.dictionary.Mentions v → s'.Known v
  externals : ∀ v ∈ c.expression.terms, v ∈ s'.externalVariables
  sign : ε = 1 ∨ ε = -1
  reduced : r.expression.Reduced
  constant : 0 ≤ r.expression.constant
  terms : ∀ w ∈ r.expression.terms, s'.tableau.dictionary w = none ∧ s'.Known w
  form : r.expression.form = ε • (base + role.form)
  base_own : ∀ v ∈ role.own, base.2 v = 0
  base_eval : ∀ σ, s'.tableau.dictionary.Solution σ → eval σ base = eval σ c.expression.form

theorem recordExternal_foldl (T : GSCSTableau) (ts : List GSCSVariable) : ∀ vs : List GSCSVariable,
    vs ⊆ ts.foldl (recordExternal T) vs ∧ ∀ v ∈ ts, v.isExternal = true → T.isBasicVariable v = false →
      v ∈ ts.foldl (recordExternal T) vs := by
  induction ts with
  | nil => exact fun vs => ⟨List.Subset.refl _, by simp⟩
  | cons t ts ih =>
    intro vs
    obtain ⟨h1, h2⟩ := ih (recordExternal T vs t)
    have hs : vs ⊆ recordExternal T vs t := by
      intro x hx
      unfold recordExternal
      split
      · exact hx
      · split
        · exact List.mem_insert_of_mem hx
        · exact hx
    refine ⟨List.Subset.trans hs h1, fun v hv hext hb => ?_⟩
    rcases List.mem_cons.mp hv with rfl | hv
    · refine h1 ?_
      unfold recordExternal
      simp [hb, hext]
    · exact h2 v hv hext hb

theorem external_form_apart (c : GSCSConstraint) {v : GSCSVariable} (hv : v.isExternal = false) :
    c.expression.form.2 v = 0 := by
  rw [form_coeff]
  refine coefficientForTerm_of_notMem _ _ fun hmem => ?_
  rw [c.external v ((mem_termVariables _ _).mpr hmem)] at hv
  cases hv

theorem solution_of_weighted {T T' : GSCSTableau}
    {g : Form GSCSVariable ℚ} (h : Solves T S) (h' : Solves T' ⟨S.equations, S.objective + g⟩)
    {σ : GSCSVariable → ℚ} (hσ : T'.dictionary.Solution σ) :
    ∃ t, T.dictionary.Solution (Function.update σ .objective t) := by
  obtain ⟨he, -⟩ := (h'.represents.solution σ).mp hσ
  refine ⟨eval σ S.objective, (h.represents.solution _).mpr ⟨fun f hf => ?_, ?_⟩⟩
  · rw [eval_update_of_zero, he f hf]
    by_contra hne
    exact h.represents.apart (Or.inl ⟨f, hf, hne⟩)
  · rw [Function.update_self, eval_update_of_zero]
    by_contra hne
    exact h.represents.apart (Or.inr hne)

theorem expressionForNewConstraint_spec (hm : m.tol = 0) (hsol : Solves s.tableau S)
    (hkn : ∀ v, s.tableau.dictionary.Mentions v → s.Known v) (c : GSCSConstraint) :
    ∃ r s' role ε base, expressionForNewConstraint m c s = .ok r s' ∧ Prepared m s s' S c r role ε base := by
  obtain ⟨h1, h2, h3⟩ := expandTerms_spec hm hsol.sound c.expression s.nextExpression
  obtain ⟨h4, h5⟩ := recordExternal_foldl s.tableau c.expression.termVariables s.externalVariables
  obtain ⟨e, he⟩ : ∃ e, e = expandTerms m s.tableau c.expression s.nextExpression := ⟨_, rfl⟩
  rw [← he] at h1 h2 h3
  obtain ⟨s1, hs1⟩ : ∃ s1, s1 = { s with
      nextExpression := s.nextExpression + 1
      externalVariables := c.expression.termVariables.foldl (recordExternal s.tableau)
        s.externalVariables } := ⟨_, rfl⟩
  have hg : Grown s s1 := by
    rw [hs1]
    exact ⟨h4, le_refl _, le_refl _, le_refl _⟩
  have htab : s1.tableau = s.tableau := by rw [hs1]
  have hkn1 : ∀ v, s1.tableau.dictionary.Mentions v → s1.Known v := by
    rw [htab]
    exact fun v hv => hg.known (hkn v hv)
  have hexternals : ∀ v ∈ c.expression.terms, v ∈ s1.externalVariables := by
    intro v hv
    rw [← mem_termVariables] at hv
    have hext := c.external v hv
    cases hb : s.tableau.isBasicVariable v with
    | false =>
      rw [hs1]
      exact h5 v hv hext hb
    | true =>
      unfold isBasicVariable rowExpressionForVariable at hb
      obtain ⟨row, hrow⟩ := Option.isSome_iff_exists.mp hb
      have := hg.known (hkn v (Or.inl ⟨_, dictionary_of_row hrow⟩))
      cases v with
      | external n => exact this
      | _ => cases hext
  obtain ⟨r, s2, role, hr, ha⟩ := augment_spec hm (e := e) (s := s1)
    (by rw [htab]; exact hsol) hkn1 h1 c
  have hs2 : s2.externalVariables = s1.externalVariables := by rw [ha.state]
  have htms : ∀ w ∈ e.terms, s2.tableau.dictionary w = none ∧ s2.Known w := by
    intro w hw
    obtain ⟨hnn, hmem⟩ := h2 w hw
    have hwz : w ≠ .objective := by
      rintro rfl
      obtain ⟨f, hf⟩ := hsol.represents.row
      rw [hnn] at hf
      cases hf
    refine ⟨by rw [ha.rows w hwz, htab]; exact hnn, ?_⟩
    rcases hmem with hmem | hmem
    · have hin := hexternals w hmem
      have hext := c.external w ((mem_termVariables _ _).mpr hmem)
      cases w with
      | external n =>
        show GSCSVariable.external n ∈ s2.externalVariables
        rwa [hs2]
      | _ => cases hext
    · exact ha.grown.known (hg.known (hkn w hmem))
  have hbase_own : ∀ v ∈ role.own, e.form.2 v = 0 := by
    intro v hv
    rw [form_coeff]
    refine coefficientForTerm_of_notMem _ _ fun hmem => (ha.fresh v hv).1 ?_
    obtain ⟨-, h'⟩ := h2 v hmem
    rcases h' with h' | h'
    · have hin := hexternals v h'
      have hext := c.external v ((mem_termVariables _ _).mpr h')
      cases v with
      | external n => exact hin
      | _ => cases hext
    · exact hg.known (hkn v h')
  have hev : ∀ σ, s2.tableau.dictionary.Solution σ → eval σ e.form = eval σ c.expression.form := by
    intro σ hσ
    obtain ⟨t, ht⟩ := solution_of_weighted (T := s1.tableau) (by rw [htab]; exact hsol)
      ha.solves hσ
    rw [htab] at ht
    have := h3 _ ht
    obtain ⟨f, hf⟩ := hsol.represents.row
    rwa [eval_update_of_zero, eval_update_of_zero (external_form_apart c rfl)] at this
    by_contra hne
    rw [form_coeff] at hne
    have hz := (h2 .objective ((h1.mem_iff _).mpr hne)).1
    rw [hf] at hz
    cases hz
  have ho : ∀ w ∈ r.expression.terms, s2.tableau.dictionary w = none ∧ s2.Known w := by
    intro w hw
    rcases ha.terms w hw with h' | h'
    · obtain ⟨hu, hk⟩ := ha.fresh w h'
      refine ⟨?_, hk⟩
      have hwz : w ≠ .objective := by
        rintro rfl
        exact hu trivial
      rw [ha.rows w hwz]
      exact nonbasic_of_unknown hkn1 hu
    · exact htms w h'
  have hr' : expressionForNewConstraint m c s = .ok (if r.expression.constant < 0 then
      { r with expression := r.expression.normalize } else r) s2 := by
    have hnew : newExpressionAddress s =
        .ok s.nextExpression { s with nextExpression := s.nextExpression + 1 } := rfl
    unfold expressionForNewConstraint
    rw [bind_ok hnew, get_bind]
    simp only
    rw [modify_bind, ← he, ← hs1, bind_ok hr]
    rfl
  have hmen : ∀ v, s2.tableau.dictionary.Mentions v → s2.Known v := by
    intro v hv
    rcases ha.mentions v hv with h' | h'
    · exact (ha.fresh v h').2
    · exact ha.grown.known (hkn1 v h')
  have hst : s2 = { s with
      tableau := s2.tableau, slackCounter := s2.slackCounter, dummyCounter := s2.dummyCounter,
      externalVariables := s2.externalVariables, nextExpression := s2.nextExpression } := by
    rw [ha.state, hs1]
  by_cases hn : r.expression.constant < 0
  · refine ⟨_, s2, role, -1, e.form, hr', ?_⟩
    rw [if_pos hn]
    exact {
      state := hst, fits := ha.fits, marker := ha.marker, errors := ha.errors
      required := ha.required, nodup := ha.nodup
      fresh := fun v hv => ⟨fun hk => (ha.fresh v hv).1 (hg.known hk), (ha.fresh v hv).2⟩
      grown := hg.trans ha.grown, solves := ha.solves, known := hmen
      externals := fun v hv => by rw [hs2]; exact hexternals v hv
      sign := Or.inr rfl
      reduced := ha.reduced.multiply (-1) (by norm_num)
      constant := by
        show 0 ≤ r.expression.constant * -1
        linarith
      terms := fun w hw => ho w ((mem_multiply _ _ _).mp hw)
      form := by
        show (r.expression.multiplyConstantAndTermsBy (-1)).form = _
        rw [form_multiply, ha.form]
      base_own := hbase_own, base_eval := hev }
  · refine ⟨_, s2, role, 1, e.form, hr', ?_⟩
    rw [if_neg hn]
    exact {
      state := hst, fits := ha.fits, marker := ha.marker, errors := ha.errors
      required := ha.required, nodup := ha.nodup
      fresh := fun v hv => ⟨fun hk => (ha.fresh v hv).1 (hg.known hk), (ha.fresh v hv).2⟩
      grown := hg.trans ha.grown, solves := ha.solves, known := hmen
      externals := fun v hv => by rw [hs2]; exact hexternals v hv
      sign := Or.inl rfl
      reduced := ha.reduced
      constant := not_lt.mp hn
      terms := ho
      form := by rw [one_smul, ha.form]
      base_own := hbase_own, base_eval := hev }

end GnustepGui.Cassowary
