import GnustepGui.Cassowary.Optimize

/-!
# Tableaux made of rows

A tableau to which rows are added one by one is sound when each row is about variables that are not basic, and feasible
when each row is. The value of a basic variable is read off its row.
-/

namespace GnustepGui.Cassowary

open GSCSLinearExpression GSCSTableau Simplex Simplex.Form

variable {T : GSCSTableau}

def ofRows (rows : List (GSCSVariable × GSCSLinearExpression)) : GSCSTableau :=
  rows.foldl (fun T p => T.addRowForVariable p.1 p.2) .empty

/-- The row is about variables that are not basic, and no row mentions its variable. -/
def Joins (T : GSCSTableau) (v : GSCSVariable) (e : GSCSLinearExpression) : Prop :=
  T.rows.lookup v = none ∧ T.column v = [] ∧
    ∀ t ∈ e.termVariables, t ≠ v ∧ T.rows.lookup t = none ∧ e.coefficientForTerm t ≠ 0

instance (T : GSCSTableau) (v : GSCSVariable) (e : GSCSLinearExpression) : Decidable (Joins T v e) :=
  inferInstanceAs (Decidable (_ ∧ _ ∧ ∀ t ∈ e.termVariables, _))

def AllJoin : GSCSTableau → List (GSCSVariable × GSCSLinearExpression) → Prop
  | _, [] => True
  | T, p :: rows => Joins T p.1 p.2 ∧ AllJoin (T.addRowForVariable p.1 p.2) rows

instance decidableAllJoin : (T : GSCSTableau) → (rows : List (GSCSVariable × GSCSLinearExpression)) →
    Decidable (AllJoin T rows)
  | _, [] => isTrue trivial
  | T, p :: rows =>
    have := decidableAllJoin (T.addRowForVariable p.1 p.2) rows
    inferInstanceAs (Decidable (Joins T p.1 p.2 ∧ AllJoin (T.addRowForVariable p.1 p.2) rows))

/-- A row as it has to be in a feasible tableau. -/
def RowTidy (v : GSCSVariable) (e : GSCSLinearExpression) : Prop :=
  (v.isRestricted = true ∨ v.type = .objective → ∀ t ∈ e.termVariables, t.isRestricted = true) ∧
    (v.isPivotable = true → 0 ≤ e.constant) ∧
      (v.isDummy = true → e.constant = 0 ∧ ∀ t ∈ e.termVariables, t.isDummy = true)

instance (v : GSCSVariable) (e : GSCSLinearExpression) : Decidable (RowTidy v e) :=
  inferInstanceAs (Decidable ((_ → ∀ t ∈ e.termVariables, _) ∧ (_ → _) ∧ (_ → _ ∧ ∀ t ∈ e.termVariables, _)))

theorem Sound.join {v : GSCSVariable} {e : GSCSLinearExpression} (h : Sound T) (hj : Joins T v e) :
    Sound (T.addRowForVariable v e) := by
  obtain ⟨hn, hc, htms⟩ := hj
  have htr (t : GSCSVariable) (ht : t ∈ e.terms) := htms t ((mem_termVariables e t).mpr ht)
  exact (h.addRow ⟨hn, fun hs => (htr v hs).1 rfl, fun t ht => (htr t ht).2.1⟩ (fun t ht => (htr t ht).2.2) hc).1

theorem sound_empty : Sound .empty :=
  ⟨⟨fun r v => by simp [column, GSCSTableau.empty], fun r e v hr => by simp [GSCSTableau.empty] at hr,
    fun v => by simp [GSCSTableau.empty], fun r e v hr => by simp [GSCSTableau.empty] at hr⟩,
    fun v => List.nodup_nil, fun r e hr => by simp [GSCSTableau.empty] at hr⟩

theorem sound_ofRows {rows : List (GSCSVariable × GSCSLinearExpression)} (h : AllJoin .empty rows) :
    Sound (ofRows rows) := by
  have hf : ∀ (rows : List (GSCSVariable × GSCSLinearExpression)) (T : GSCSTableau), Sound T →
      AllJoin T rows → Sound (rows.foldl (fun T p => T.addRowForVariable p.1 p.2) T) := by
    intro rows
    induction rows with
    | nil => exact fun T hT _ => hT
    | cons p rows ih => exact fun T hT hj => ih _ (hT.join hj.1) hj.2
  exact hf rows .empty sound_empty h

theorem tidy_of_entries (h : Sound T) (ha : ∀ p ∈ T.rows.entries, RowTidy p.1 p.2) : Tidy signs T.dictionary := by
  have hr {r : GSCSVariable} {f : Form GSCSVariable ℚ} (hf : T.dictionary r = some f) :
      ∃ e, e.form = f ∧ RowTidy r e ∧ ∀ v, f.2 v ≠ 0 → v ∈ e.termVariables := by
    obtain ⟨e, he, rfl⟩ := dictionary_eq_some.mp hf
    refine ⟨e, rfl, ha ⟨r, e⟩ (List.mem_dlookup_iff T.rows.nodupKeys |>.mp he), fun v hv => ?_⟩
    exact (mem_termVariables e v).mpr ((h.mem_terms he).mpr hv)
  refine ⟨h.canonical, fun r f hf hc v hv => ?_, fun r f hf hs => ?_, fun r f hf hd => ?_⟩
  · obtain ⟨e, rfl, htd, ht⟩ := hr hf
    refine (signs_restricted v).mpr (htd.1 ?_ v (ht v hv))
    exact hc.imp (signs_restricted r).mp id
  · obtain ⟨e, rfl, htd, -⟩ := hr hf
    exact htd.2.1 hs
  · obtain ⟨e, rfl, htd, ht⟩ := hr hf
    obtain ⟨hcon, ha⟩ := htd.2.2 hd
    exact ⟨hcon, fun v hv => ha v (ht v hv)⟩

theorem eval_termwise (σ : GSCSVariable → ℚ) (e : GSCSLinearExpression) :
    eval σ e.form = e.constant + (e.termVariables.map fun v => e.coefficientForTerm v * σ v).sum := by
  have hs : e.form.2.support ⊆ e.termVariables.toFinset := by
    intro v hv
    rw [List.mem_toFinset, mem_termVariables]
    by_contra hn
    rw [Finsupp.mem_support_iff, form_coeff] at hv
    exact hv (coefficientForTerm_of_notMem e v hn)
  rw [eval_eq, form_const, Finsupp.sum_of_support_subset _ hs (fun v c => c * σ v) fun v _ => zero_mul _,
    List.sum_toFinset _ (nodup_termVariables e)]
  simp only [form_coeff]

theorem value_of_row {σ : GSCSVariable → ℚ} (hσ : T.dictionary.Solution σ) {r : GSCSVariable} {e : GSCSLinearExpression}
    {terms : List (GSCSVariable × ℚ)} (he : T.rows.lookup r = some e)
    (ht : e.termVariables.map (fun v => (v, e.coefficientForTerm v)) = terms) :
    σ r = e.constant + (terms.map fun p => p.2 * σ p.1).sum := by
  rw [hσ r _ (dictionary_of_row he), eval_termwise, ← ht, List.map_map]
  rfl

end GnustepGui.Cassowary
