import GnustepGui.Cassowary.NewConstraint

/-!
# `tryAddingDirectly:`

`chooseSubject:` answers a variable that is not restricted, or, when there is none, a new slack
variable with a negative coefficient, or, when there are dummies only and the constant is 0, a dummy
without a column (`chooseSubject_some`). With each of them as the subject the tableau stays tidy and
takes up the equation of the expression (`Solves.addDirectly`).
-/

namespace GnustepGui.Cassowary

open GSCSLinearExpression GSCSTableau GSCassowarySolver Simplex Simplex.Form StateExcept

variable {m : Machine} {T : GSCSTableau} {v w : GSCSVariable} {e e' : GSCSLinearExpression}

/-! ## The subject -/

/-- A slack variable that becomes basic without a pivot. -/
structure NewSlack (T : GSCSTableau) (e : GSCSLinearExpression) (v : GSCSVariable) : Prop where
  pivotable : v.isPivotable = true
  negative : e.coefficientForTerm v < 0
  column : T.column v = [] ∨ T.column v = [.objective]

theorem pivotable_of_restricted (hr : v.isRestricted = true) (hd : v.isDummy = false) : v.isPivotable = true := by
  simp only [GSCSVariable.isRestricted, GSCSVariable.isDummy, GSCSVariable.isPivotable,
    Bool.or_eq_true, decide_eq_true_eq, decide_eq_false_iff_not] at *
  exact hr.resolve_left hd

theorem chooseSubjectLoop_found (ts : List GSCSVariable) (v : GSCSVariable) (new : Bool) :
    ∃ w, chooseSubjectLoop T e ts (some v) true new = some w ∧ (w = v ∨ w ∈ ts ∧ w.isRestricted = false) := by
  induction ts with
  | nil => exact ⟨v, rfl, Or.inl rfl⟩
  | cons t ts ih =>
    unfold chooseSubjectLoop
    split
    · next h =>
      simp only [Bool.and_eq_true, Bool.not_eq_true'] at h
      exact ⟨t, rfl, Or.inr ⟨List.mem_cons_self, h.1⟩⟩
    · obtain ⟨w, hw, h⟩ := ih
      exact ⟨w, hw, h.imp_right (And.imp_left (List.mem_cons_of_mem _))⟩

theorem chooseSubjectLoop_spec (ts : List GSCSVariable) : ∀ (subject : Option GSCSVariable) (new : Bool),
    (∃ w, chooseSubjectLoop T e ts subject false new = some w ∧ w ∈ ts ∧ w.isRestricted = false) ∨
    ((∀ w ∈ ts, w.isRestricted = true) ∧ (chooseSubjectLoop T e ts subject false new = subject ∨
        ∃ w, chooseSubjectLoop T e ts subject false new = some w ∧ w ∈ ts ∧ NewSlack T e w)) := by
  induction ts with
  | nil => exact fun subject new => Or.inr ⟨by simp, Or.inl rfl⟩
  | cons t ts ih =>
    intro subject new
    unfold chooseSubjectLoop
    by_cases hr : t.isRestricted = true
    · rw [if_pos hr]
      have hc : ∀ (subject' : Option GSCSVariable) (new' : Bool),
          (subject' = subject ∨ subject' = some t ∧ NewSlack T e t) →
          (∃ w, chooseSubjectLoop T e ts subject' false new' = some w ∧ w ∈ t :: ts ∧ w.isRestricted = false) ∨
          ((∀ w ∈ t :: ts, w.isRestricted = true) ∧ (chooseSubjectLoop T e ts subject' false new' = subject ∨
              ∃ w, chooseSubjectLoop T e ts subject' false new' = some w ∧ w ∈ t :: ts ∧ NewSlack T e w)) := by
        intro subject' new' hs
        rcases ih subject' new' with ⟨w, h1, h2, h3⟩ | ⟨h1, h2⟩
        · exact Or.inl ⟨w, h1, List.mem_cons_of_mem _ h2, h3⟩
        · refine Or.inr ⟨List.forall_mem_cons.mpr ⟨hr, h1⟩, ?_⟩
          rcases h2 with h2 | ⟨w, h2, h3, h4⟩
          · rcases hs with rfl | ⟨rfl, hn⟩
            · exact Or.inl h2
            · exact Or.inr ⟨t, h2, List.mem_cons_self, hn⟩
          · exact Or.inr ⟨w, h2, List.mem_cons_of_mem _ h3, h4⟩
      split
      · next h =>
        simp only [Bool.and_eq_true, Bool.or_eq_true, Bool.not_eq_true', decide_eq_true_eq] at h
        exact hc _ _ (Or.inr ⟨rfl, pivotable_of_restricted hr h.1.1.2, h.1.2, h.2⟩)
      · exact hc _ _ (Or.inl rfl)
    · rw [if_neg hr]
      rw [Bool.not_eq_true] at hr
      obtain ⟨w, hw, h⟩ := chooseSubjectLoop_found (T := T) (e := e) ts t new
      refine Or.inl ⟨w, hw, ?_⟩
      rcases h with rfl | ⟨h1, h2⟩
      · exact ⟨List.mem_cons_self, hr⟩
      · exact ⟨List.mem_cons_of_mem _ h1, h2⟩

theorem chooseDummyLoop_some (ts : List GSCSVariable) : ∀ {start result : Option GSCSVariable},
    chooseDummyLoop T ts start = some result → (∀ w ∈ ts, w.isDummy = true) ∧
      (result = start ∨ ∃ w, result = some w ∧ w ∈ ts ∧ T.hasColumnForVariable w = false) := by
  induction ts with
  | nil =>
    intro start result h
    exact ⟨by simp, Or.inl (Option.some.inj h).symm⟩
  | cons t ts ih =>
    intro start result h
    unfold chooseDummyLoop at h
    split at h
    · cases h
    · next hd =>
      simp only [Bool.not_eq_true', Bool.not_eq_false] at hd
      split at h
      · next hc =>
        simp only [Bool.not_eq_true'] at hc
        obtain ⟨h1, h2⟩ := ih h
        refine ⟨List.forall_mem_cons.mpr ⟨hd, h1⟩, Or.inr ?_⟩
        rcases h2 with rfl | ⟨w, h2, h3, h4⟩
        · exact ⟨t, rfl, List.mem_cons_self, hc⟩
        · exact ⟨w, h2, List.mem_cons_of_mem _ h3, h4⟩
      · obtain ⟨h1, h2⟩ := ih h
        refine ⟨List.forall_mem_cons.mpr ⟨hd, h1⟩, h2.imp_right ?_⟩
        rintro ⟨w, h2, h3, h4⟩
        exact ⟨w, h2, List.mem_cons_of_mem _ h3, h4⟩

theorem chooseDummyLoop_none (ts : List GSCSVariable) : ∀ {start : Option GSCSVariable},
    chooseDummyLoop T ts start = none → ∃ w ∈ ts, w.isDummy = false := by
  induction ts with
  | nil =>
    intro start h
    cases h
  | cons t ts ih =>
    intro start h
    unfold chooseDummyLoop at h
    split at h
    · next hd => exact ⟨t, List.mem_cons_self, by simpa using hd⟩
    · split at h <;>
      · obtain ⟨w, hw, hd⟩ := ih h
        exact ⟨w, List.mem_cons_of_mem _ hw, hd⟩

/-- The rules by which a subject is chosen. -/
inductive IsSubject (T : GSCSTableau) (e : GSCSLinearExpression) (v : GSCSVariable) : Prop
  | unrestricted (free : v.isRestricted = false)
  | slack (restricted : ∀ w ∈ e.terms, w.isRestricted = true) (new : NewSlack T e v)
  | dummy (dummies : ∀ w ∈ e.terms, w.isDummy = true) (constant : e.constant = 0)
      (column : T.column v = [])

theorem chooseSubject_some (hm : m.tol = 0) (h : chooseSubject m T e = some (v, e')) :
    v ∈ e.terms ∧ (e' = e ∨ e' = e.normalize) ∧ IsSubject T e v := by
  have hl := chooseSubjectLoop_spec (T := T) (e := e) e.termVariables none false
  simp only [mem_termVariables] at hl
  unfold chooseSubject at h
  split at h
  · next subject hs =>
    obtain ⟨rfl, rfl⟩ := Prod.mk.inj (Option.some.inj h)
    rw [hs] at hl
    rcases hl with ⟨w, h1, h2, h3⟩ | ⟨h1, h2 | ⟨w, h2, h3, h4⟩⟩
    · obtain rfl := Option.some.inj h1
      exact ⟨h2, Or.inl rfl, .unrestricted h3⟩
    · cases h2
    · obtain rfl := Option.some.inj h2
      exact ⟨h3, Or.inl rfl, .slack h1 h4⟩
  · split at h
    · cases h
    · next subject hd =>
      obtain ⟨h1, h2⟩ := chooseDummyLoop_some e.termVariables hd
      simp only [mem_termVariables] at h1 h2
      split at h
      · cases h
      · next hz =>
        rw [hm] at hz
        simp only [Bool.not_eq_true', Bool.not_eq_false, isApproxiatelyZero_exact] at hz
        rcases h2 with rfl | ⟨w, rfl, h3, h4⟩
        · cases h
        · obtain ⟨rfl, rfl⟩ := Prod.mk.inj (Option.some.inj h)
          refine ⟨h3, ?_, .dummy h1 hz ?_⟩
          · split
            · exact Or.inr rfl
            · exact Or.inl rfl
          · unfold hasColumnForVariable columnForVariable at h4
            unfold GSCSTableau.column
            rw [Option.isSome_eq_false_iff, Option.isNone_iff_eq_none] at h4
            rw [h4]
            rfl

/-- Without a subject every variable is restricted, and there is more than dummies, or a constant, or
each dummy has a column. -/
theorem chooseSubject_none (hm : m.tol = 0) (h : chooseSubject m T e = none) :
    (∀ w ∈ e.terms, w.isRestricted = true) ∧ ((∃ w ∈ e.terms, w.isDummy = false) ∨
      e.constant ≠ 0 ∨ chooseDummyLoop T e.termVariables none = some none) := by
  have hl := chooseSubjectLoop_spec (T := T) (e := e) e.termVariables none false
  simp only [mem_termVariables] at hl
  unfold chooseSubject at h
  split at h
  · cases h
  · next hs =>
    rw [hs] at hl
    rcases hl with ⟨w, h1, -⟩ | ⟨h1, -⟩
    · cases h1
    refine ⟨h1, ?_⟩
    split at h
    · next hd =>
      obtain ⟨w, h2, h3⟩ := chooseDummyLoop_none e.termVariables hd
      exact Or.inl ⟨w, (mem_termVariables _ _).mp h2, h3⟩
    · next subject hd =>
      split at h
      · next hz =>
        rw [hm] at hz
        simp only [Bool.not_eq_true', ← Bool.not_eq_true, isApproxiatelyZero_exact] at hz
        exact Or.inr (Or.inl hz)
      · cases subject with
        | none => exact Or.inr (Or.inr hd)
        | some w => cases h

/-! ## The row -/

theorem form_newSubject (hv : e.coefficientForTerm v ≠ 0) :
    (e.newSubject v).1.form = (-(1 / e.coefficientForTerm v)) • e.form + term v := by
  unfold newSubject
  simp only
  rw [form_removeTerm, form_multiply, multiply_coefficient]
  congr 1
  rw [show -(e.coefficientForTerm v * -(1 / e.coefficientForTerm v)) = 1 by field_simp, one_smul]

theorem eval_newSubject (hv : e.coefficientForTerm v ≠ 0) (σ : GSCSVariable → ℚ) :
    σ v = eval σ (e.newSubject v).1.form ↔ eval σ e.form = 0 := by
  rw [form_newSubject hv, map_add, map_smul, eval_term, smul_eq_mul]
  have hne : -(1 / e.coefficientForTerm v) ≠ 0 := neg_ne_zero.mpr (one_div_ne_zero hv)
  constructor
  · intro h
    have h0 : -(1 / e.coefficientForTerm v) * eval σ e.form = 0 := by linarith
    exact (mul_eq_zero.mp h0).resolve_left hne
  · intro h
    rw [h, mul_zero, zero_add]

theorem form_newSubject_normalize (hv : e.coefficientForTerm v ≠ 0) :
    (e.normalize.newSubject v).1.form = (e.newSubject v).1.form := by
  have hc : e.normalize.coefficientForTerm v = -e.coefficientForTerm v := by
    unfold GSCSLinearExpression.normalize
    rw [multiply_coefficient]
    ring
  have hf : e.normalize.form = (-1 : ℚ) • e.form := form_multiply _ _
  rw [form_newSubject (by rw [hc]; exact neg_ne_zero.mpr hv), form_newSubject hv, hc, hf, smul_smul]
  congr 2
  field_simp

variable {S : System GSCSVariable ℚ}

theorem objective_notMem (h : Solves T S) (ht : ∀ w ∈ e.terms, T.dictionary w = none) : e.form.2 .objective = 0 := by
  rw [form_coeff]
  refine coefficientForTerm_of_notMem _ _ fun hm => ?_
  obtain ⟨f, hf⟩ := h.represents.row
  rw [ht _ hm] at hf
  cases hf

theorem Solves.addDirectly (h : Solves T S) (hm : m.tol = 0) (hred : e.Reduced)
    (ht : ∀ w ∈ e.terms, T.dictionary w = none) (hfree : ∀ w ∈ e.terms, ¬ signs.objective w)
    (hcon : 0 ≤ e.constant) (hsub : chooseSubject m T e = some (v, e')) :
    Solves ((if T.hasColumnForVariable v then T.substituteOutVariable m v (e'.newSubject v).1
        else T).addRowForVariable v (e'.newSubject v).1) ⟨e.form :: S.equations, S.objective⟩ ∧
      ∀ w, ((if T.hasColumnForVariable v then T.substituteOutVariable m v (e'.newSubject v).1
        else T).addRowForVariable v (e'.newSubject v).1).dictionary.Mentions w →
          w ∈ e.terms ∨ T.dictionary.Mentions w := by
  obtain ⟨hv, he', hrl⟩ := chooseSubject_some hm hsub
  have hk := hred v hv
  obtain ⟨row, hrow⟩ : ∃ row, row = (e'.newSubject v).1 := ⟨_, rfl⟩
  rw [← hrow]
  have hmem : ∀ w, w ∈ row.terms ↔ w ≠ v ∧ w ∈ e.terms := by
    intro w
    rw [hrow]
    rcases he' with rfl | rfl
    · exact mem_newSubject _ _ _
    · rw [mem_newSubject]
      unfold GSCSLinearExpression.normalize
      rw [mem_multiply]
  have hf : row.form = (-(1 / e.coefficientForTerm v)) • e.form + term v := by
    rw [hrow]
    rcases he' with rfl | rfl
    · exact form_newSubject hk
    · rw [form_newSubject_normalize hk, form_newSubject hk]
  have hrw : row.Reduced := by
    rw [hrow]
    rcases he' with rfl | rfl
    · exact hred.newSubject v hv
    · refine (hred.multiply (-1) (by norm_num)).newSubject v ?_
      rwa [mem_multiply]
  have hcf : ∀ w, row.form.2 w ≠ 0 → w ≠ v ∧ w ∈ e.terms := by
    intro w hw
    rw [form_coeff] at hw
    exact (hmem w).mp ((hrw.mem_iff w).mpr hw)
  have hsl : row.form.2 v = 0 := by
    by_contra hne
    exact (hcf v hne).1 rfl
  have hadd : CanAdd T v row := ⟨dictionary_eq_none.mp (ht v hv),
    fun hvr => ((hmem v).mp hvr).1 rfl, fun w hw => dictionary_eq_none.mp (ht w ((hmem w).mp hw).2)⟩
  obtain ⟨h1, h2⟩ := h.sound.addDirectly hm hadd hrw
  have hev : ∀ σ, σ v = eval σ row.form ↔ eval σ e.form = 0 := by
    intro σ
    rw [hf, ← form_newSubject hk]
    exact eval_newSubject hk σ
  have hcon' : row.form.1 = -(1 / e.coefficientForTerm v) * e.constant := by
    rw [hf]
    simp
  have hnn : ∀ w, row.form.2 w ≠ 0 → T.dictionary w = none := fun w hw => ht w (hcf w hw).2
  refine ⟨⟨h1, ?_, ?_⟩, fun w hw => ?_⟩
  · rw [h2]
    -- by the rule: what the row may mention, and which rows mention the subject
    cases hrl with
    | unrestricted hu =>
      have hn : ¬ signs.Restricted v := by
        rw [signs_restricted, hu]
        simp
      refine h.tidy.addRow (ht v hv) hnn hsl (fun r g hg hr => ?_)
        (Or.inr fun r g hg ho => ?_) (fun hc => absurd hc ?_) (fun hs => absurd (Or.inl hs) hn)
        fun hd => absurd (Or.inr hd) hn
      · by_contra hne
        exact hn (h.tidy.closed r g hg (Or.inl hr) v hne)
      · by_contra hne
        exact hn (h.tidy.closed r g hg (Or.inr ho) v hne)
      · exact not_or.mpr ⟨hn, hfree v hv⟩
    | slack hres hnew =>
      have ha : ∀ w, row.form.2 w ≠ 0 → signs.Restricted w := fun w hw =>
        signs_restricted w |>.mpr (hres w (hcf w hw).2)
      refine h.tidy.addRow (ht v hv) hnn hsl (fun r g hg hr => ?_) (Or.inl ha)
        (fun _ => ha) (fun _ => ?_) fun hd => ?_
      · by_contra hne
        have hin := h.sound.mem_column.mpr ⟨g, hg, hne⟩
        rcases hnew.column with hcol | hcol
        · rw [hcol] at hin
          cases hin
        · rw [hcol, List.mem_singleton] at hin
          subst hin
          rcases hr with hr | hr <;> cases hr
      · rw [hcon']
        refine mul_nonneg ?_ hcon
        rw [neg_nonneg]
        exact one_div_nonpos.mpr hnew.negative.le
      · exact absurd hd (signs.slack_not_dummy v hnew.pivotable)
    | dummy hdum hz hcol =>
      have ha : ∀ w, row.form.2 w ≠ 0 → signs.Restricted w := fun w hw =>
        Or.inr (hdum w (hcf w hw).2)
      have hun : ∀ r g, T.dictionary r = some g → g.2 v = 0 := by
        intro r g hg
        by_contra hne
        have hin := h.sound.mem_column.mpr ⟨g, hg, hne⟩
        rw [hcol] at hin
        cases hin
      refine h.tidy.addRow (ht v hv) hnn hsl (fun r g hg _ => hun r g hg) (Or.inl ha)
        (fun _ => ha) (fun hs => absurd (hdum v hv) (signs.slack_not_dummy v hs)) fun _ => ?_
      exact ⟨by rw [hcon', hz, mul_zero], fun w hw => hdum w (hcf w hw).2⟩
  · rw [h2]
    exact h.represents.addRow (ht v hv) hnn hsl (fun σ _ => hev σ) (objective_notMem h ht)
  · rw [h2] at hw
    rcases Dictionary.mentions_addRow hsl hw with rfl | hw | hw
    · exact Or.inl hv
    · exact Or.inr hw
    · exact Or.inl (hcf w hw).2

end GnustepGui.Cassowary
