import GnustepGui.Cassowary.ExitVariable

/-!
# `removeConstraintFromTableau:`

The weights of the error variables leave the objective, the marker is made basic and its row is
dropped, and no other variable of the constraint is left in the tableau. If no dummy row was passed
over for a slack row (`RemovesCleanly`), the invariant holds for the remaining constraints
(`removeConstraintFromTableau_keeps`).
-/

namespace GnustepGui.Cassowary

open GSCSLinearExpression GSCSTableau GSCassowarySolver Simplex Simplex.Form StateExcept

variable {m : Machine} {s s' : GSCassowarySolver} {T : GSCSTableau} {v w marker : GSCSVariable}
  {S : System GSCSVariable ℚ} {held : List (Held m)} {extra : List (Form GSCSVariable ℚ)} {κ : ℚ}
  {c : GSCSConstraint}

/-! ## The weights -/

/-- A tableau whose objective row alone changed. -/
structure Reweighted (T T' : GSCSTableau) (vs : List GSCSVariable) : Prop where
  rows : ∀ r, r ≠ .objective → T'.dictionary r = T.dictionary r
  mentions : ∀ w, T'.dictionary.Mentions w → w ∈ vs ∨ T.dictionary.Mentions w

theorem Solves.removeError (h : Solves T S) (hm : m.tol = 0) (hv : v.isPivotable = true)
    (weight : ℚ) : Solves (removeErrorFromObjective m weight T v) ⟨S.equations, S.objective + (-weight) • term v⟩ ∧
      Reweighted T (removeErrorFromObjective m weight T v) [v] := by
  unfold removeErrorFromObjective rowExpressionForVariable
  cases hrow : T.rows.lookup v with
  | none =>
    obtain ⟨h1, h2, h3⟩ := h.addErrorVariable hm (dictionary_eq_none.mpr hrow) hv (-weight)
    exact ⟨h1, h2, fun w hw => (h3 w hw).imp_left List.mem_singleton.mpr⟩
  | some errorRow =>
    obtain ⟨f, hf⟩ := h.represents.row
    obtain ⟨row, hz, rfl⟩ := dictionary_eq_some.mp hf
    have hd := dictionary_of_row hrow
    have htms : ∀ w, ((-weight) • errorRow.form).2 w ≠ 0 → errorRow.form.2 w ≠ 0 := by
      intro w hw h0
      rw [Prod.smul_snd, Finsupp.smul_apply, h0, smul_zero] at hw
      exact hw rfl
    obtain ⟨h1, h2⟩ := h.sound.addNewExpressionToRow hm hz
      (fun t ht => h.sound.index.basic v errorRow t hrow ht) (-weight)
    have hvz : v ≠ .objective := by
      rintro rfl
      cases hv
    refine ⟨h.addToObjective h1 hf h2 (fun w hw => ?_) (fun σ hσ => ?_) ?_, fun r hr => ?_, fun w hw => ?_⟩
    · exact ⟨h.sound.canonical v _ hd w (htms w hw), h.tidy.closed v _ hd (Or.inl (Or.inl hv)) w (htms w hw)⟩
    · rw [map_smul, map_smul, eval_term, hσ v _ hd]
    · simp [term_coeff_ne hvz.symm]
    · rw [h2, Function.update_of_ne hr]
    · rw [h2] at hw
      rcases hw with ⟨g, hg⟩ | ⟨r, g, hg, hgw⟩
      · rcases update_eq_some hg with ⟨rfl, -⟩ | ⟨-, h'⟩
        · exact Or.inr (Or.inl ⟨_, hf⟩)
        · exact Or.inr (Or.inl ⟨g, h'⟩)
      · rcases update_eq_some hg with ⟨-, rfl⟩ | ⟨-, h'⟩
        · by_cases hfw : row.form.2 w = 0
          · rw [Prod.snd_add, Finsupp.add_apply, hfw, zero_add] at hgw
            exact Or.inr (Or.inr ⟨v, _, hd, htms w hgw⟩)
          · exact Or.inr (Or.inr ⟨_, _, hf, hfw⟩)
        · exact Or.inr (Or.inr ⟨r, g, h', hgw⟩)

theorem Solves.removeErrors (hm : m.tol = 0) (weight : ℚ) (vs : List GSCSVariable) :
    ∀ {T : GSCSTableau} {S : System GSCSVariable ℚ}, Solves T S → (∀ v ∈ vs, v.isPivotable = true) →
      Solves (vs.foldl (removeErrorFromObjective m weight) T)
          ⟨S.equations, S.objective + (-weight) • (vs.map term).sum⟩ ∧
        Reweighted T (vs.foldl (removeErrorFromObjective m weight) T) vs := by
  induction vs with
  | nil =>
    intro T S h _
    exact ⟨by simpa using h, fun _ _ => rfl, fun w hw => Or.inr hw⟩
  | cons v vs ih =>
    intro T S h hv
    obtain ⟨h1, h2⟩ := h.removeError hm (hv v List.mem_cons_self) weight
    obtain ⟨h3, h4⟩ := ih h1 fun x hx => hv x (List.mem_cons_of_mem _ hx)
    refine ⟨?_, fun r hr => (h4.rows r hr).trans (h2.rows r hr), fun w hw => ?_⟩
    · rw [List.map_cons, List.sum_cons, smul_add, ← add_assoc]
      exact h3
    · rcases h4.mentions w hw with hw | hw
      · exact Or.inl (List.mem_cons_of_mem _ hw)
      · rcases h2.mentions w hw with hw | hw
        · exact Or.inl (by rw [List.mem_singleton.mp hw]; exact List.mem_cons_self)
        · exact Or.inr hw

/-! ## The marker -/

theorem Solves.removeUnused (h : Solves T S) (hv : v.isExternal = false) (hS : ¬ S.Mentions v) (hvz : v ≠ .objective) :
    Solves (T.removeColumn m v) S ∧ (T.removeColumn m v).dictionary = T.dictionary := by
  have hn := h.represents.not_mentions hS hvz
  have hc : T.dictionary.clear v = T.dictionary := by
    refine Dictionary.clear_eq_self fun r f hr => ?_
    by_contra hne
    exact hn (Or.inr ⟨r, f, hr, hne⟩)
  obtain ⟨h1, h2⟩ := h.clearColumn (m := m) hv (by rw [hc]; exact h.represents)
  exact ⟨h1, h2.trans hc⟩

/-- What `removeMarker` is given: one equation has the marker for itself. -/
structure IsMarker (S : System GSCSVariable ℚ) (marker : GSCSVariable) (g : Form GSCSVariable ℚ)
    (rest : List (Form GSCSVariable ℚ)) : Prop where
  restricted : marker.isRestricted = true
  perm : S.equations.Perm (g :: rest)
  coeff : g.2 marker ≠ 0
  others : ∀ e ∈ rest, e.2 marker = 0
  objective : S.objective.2 marker = 0

/-- A dummy row that mentions a dummy marker is not passed over. -/
def CleanExit (m : Machine) (T : GSCSTableau) (marker : GSCSVariable) : Prop :=
  marker.isDummy = true → T.isBasicVariable marker = false →
    (∃ r ∈ T.column marker, r.isDummy = true) →
      ∀ exit, exitVariableForMarker m T marker = some exit → exit.isDummy = true

theorem isBasicVariable_iff : T.isBasicVariable v = true ↔ ∃ f, T.dictionary v = some f := by
  unfold isBasicVariable rowExpressionForVariable
  rw [Option.isSome_iff_exists]
  exact ⟨fun ⟨e, he⟩ => ⟨_, dictionary_of_row he⟩, fun ⟨f, hf⟩ =>
    let ⟨e, he, _⟩ := dictionary_eq_some.mp hf
    ⟨e, he⟩⟩

variable {g : Form GSCSVariable ℚ}

theorem IsMarker.ne_objective {rest : List (Form GSCSVariable ℚ)}
    (hm : IsMarker S marker g rest) : marker ≠ .objective := by
  rintro rfl
  cases hm.restricted

/-- A tableau in which the marker is basic; without its row it is tidy. -/
structure MarkerBasic (T T' : GSCSTableau) (S : System GSCSVariable ℚ) (marker : GSCSVariable) :
    Prop where
  sound : Sound T'
  represents : Represents T'.dictionary .objective S
  row : ∃ f, T'.dictionary marker = some f
  tidy : Tidy signs (T'.dictionary.erase marker)
  mentions : ∀ w, T'.dictionary.Mentions w → T.dictionary.Mentions w

theorem makeMarkerBasic_spec (hm : m.tol = 0)
    {rest : List (Form GSCSVariable ℚ)} (h : Solves s.tableau S) (hmk : IsMarker S marker g rest)
    (hr : ∀ w, S.objective.2 w ≠ 0 → signs.Restricted w)
    (hrw : ∀ r g, s.tableau.dictionary r = some g → signs.objective r → r = .objective)
    (hc : CleanExit m s.tableau marker) :
    ∃ T', makeMarkerBasic m marker s = .ok () { s with tableau := T' } ∧
      MarkerBasic s.tableau T' S marker := by
  unfold makeMarkerBasic
  rw [get_bind]
  cases hb : s.tableau.isBasicVariable marker with
  | true =>
    exact ⟨s.tableau, rfl, h.sound, h.represents, isBasicVariable_iff.mp hb, h.tidy.erase marker, fun w hw => hw⟩
  | false =>
    have hn : s.tableau.dictionary marker = none := by
      cases hd : s.tableau.dictionary marker with
      | none => rfl
      | some f =>
        rw [isBasicVariable_iff.mpr ⟨f, hd⟩] at hb
        cases hb
    cases hx : exitVariableForMarker m s.tableau marker with
    | none =>
      -- some row besides the objective row mentions the marker
      obtain ⟨r, k, hrz, hk, hne⟩ := h.represents.mentioning_row hn
        (hmk.perm.mem_iff.mpr List.mem_cons_self) hmk.coeff
      exact absurd (exitVariableForMarker_none h.sound hx hk hrz) hne
    | some exit =>
      obtain ⟨row, hrow, ht, hxz, hexit⟩ := exitVariableForMarker_some h.sound hx
      obtain ⟨T1, h1, h2, h3, h4⟩ := h.sound.pivot hm hrow ht
      refine ⟨T1, ?_, h2, ?_, ⟨solveFor exit marker row.form, ?_⟩, ?_, fun w hw => ?_⟩
      · rw [if_neg (by simp)]
        exact pivot_run h1
      · refine h.represents.of_solution ?_ ?_ fun σ => ?_
        · rw [h4]
          exact h3.canonical_pivot
        · obtain ⟨k, hk⟩ := h.represents.row
          rw [h4, Dictionary.pivot_other hmk.ne_objective.symm hxz.symm, hk]
          exact ⟨_, rfl⟩
        · rw [h4]
          exact h3.solution_iff
      · rw [h4, Dictionary.pivot_entry]
      · rw [h4]
        refine h.pivotMarker hmk.objective hr hrw h3 hexit fun hd hex => ?_
        obtain ⟨r, k, hk, hrd, hne⟩ := hex
        exact hc hd hb ⟨r, h.sound.mem_column.mpr ⟨k, hk, hne⟩, hrd⟩ exit hx
      · rw [h4] at hw
        exact h3.mentions_pivot hw

theorem removeMarker_spec (hm : m.tol = 0)
    {rest : List (Form GSCSVariable ℚ)} (h : Solves s.tableau S) (hmk : IsMarker S marker g rest)
    (hres : ∀ w, S.objective.2 w ≠ 0 → signs.Restricted w)
    (hrw : ∀ r g, s.tableau.dictionary r = some g → signs.objective r → r = .objective)
    (hc : CleanExit m s.tableau marker) :
    ∃ T', removeMarker m marker s = .ok () { s with tableau := T' } ∧
      Solves T' ⟨rest, S.objective⟩ ∧
      ∀ w, T'.dictionary.Mentions w → s.tableau.dictionary.Mentions w := by
  obtain ⟨T1, hrun, hb⟩ := makeMarkerBasic_spec hm h hmk hres hrw hc
  obtain ⟨f1, hr1⟩ := hb.row
  obtain ⟨row1, hl1, -⟩ := dictionary_eq_some.mp hr1
  obtain ⟨T2, h5, h6, h7⟩ := hb.sound.removeRow hl1
  have hs2 : Solves T2 ⟨rest, S.objective⟩ := by
    refine ⟨h6, ?_, ?_⟩
    · rw [h7]
      exact hb.tidy
    · rw [h7]
      exact hb.represents.eraseMarker hr1 hmk.ne_objective hmk.perm hmk.coeff hmk.others hmk.objective
  have hu : ¬ System.Mentions ⟨rest, S.objective⟩ marker := by
    rintro (⟨e, he, hne⟩ | hne)
    · exact hne (hmk.others e he)
    · exact hne hmk.objective
  obtain ⟨h8, h9⟩ := hs2.removeUnused (m := m) (internal_of_restricted hmk.restricted) hu hmk.ne_objective
  have hmn : ∀ w, T2.dictionary.Mentions w → s.tableau.dictionary.Mentions w := by
    intro w hw
    rw [h7] at hw
    exact hb.mentions w (Dictionary.mentions_erase hw)
  refine ⟨if T2.hasColumnForVariable marker then T2.removeColumn m marker else T2, ?_, ?_,
    fun w hw => hmn w ?_⟩
  · unfold removeMarker
    rw [bind_ok hrun, get_bind, if_pos (isBasicVariable_iff.mpr ⟨f1, hr1⟩), bind_ok (removeRow_run h5)]
    rfl
  · split
    · exact h8
    · exact hs2
  · split at hw
    · rwa [h9] at hw
    · exact hw

/-! ## The constraint -/

theorem find?_eraseP {α : Type*} {p q : α → Bool} (h : ∀ x, p x = true → q x = false) (l : List α) :
    (l.eraseP p).find? q = l.find? q := by
  induction l with
  | nil => rfl
  | cons x l ih =>
    cases hp : p x with
    | true => rw [List.eraseP_cons_of_pos hp, List.find?_cons_of_neg (by simp [h x hp])]
    | false =>
      rw [List.eraseP_cons_of_neg (by simp [hp])]
      cases hq : q x with
      | true => rw [List.find?_cons_of_pos hq, List.find?_cons_of_pos hq]
      | false =>
        rw [List.find?_cons_of_neg (by simp [hq]), List.find?_cons_of_neg (by simp [hq]), ih]

theorem perm_eraseP_of_find? {α : Type*} {p : α → Bool} {l : List α} {x : α}
    (h : l.find? p = some x) : l.Perm (x :: l.eraseP p) := by
  induction l with
  | nil => cases h
  | cons y l ih =>
    cases hp : p y with
    | true =>
      rw [List.find?_cons_of_pos hp, Option.some.injEq] at h
      rw [List.eraseP_cons_of_pos hp, h]
    | false =>
      rw [List.find?_cons_of_neg (by simp [hp])] at h
      rw [List.eraseP_cons_of_neg (by simp [hp])]
      exact ((ih h).cons y).trans (List.Perm.swap x y _)

/-- The held constraints without the one that is removed. -/
def withoutConstraint (c : GSCSConstraint) (held : List (Held m)) : List (Held m) :=
  held.eraseP fun x => x.constraint = c

section Rest

variable {x : Held m} {rest : List (Held m)} (h : Keeps m s held extra κ)
  (hperm : held.Perm (x :: rest))

include h hperm

theorem Keeps.own_nodup : x.role.own.Nodup ∧ ∀ v ∈ x.role.own, ∀ y ∈ rest, v ∉ y.role.own := by
  have hnd := (hperm.flatMap_right fun y : Held m => y.role.own).nodup_iff.mp h.nodup
  rw [List.flatMap_cons, List.nodup_append'] at hnd
  refine ⟨hnd.1, fun v hv y hy hm => ?_⟩
  exact hnd.2.2 hv (List.mem_flatMap.mpr ⟨y, hy, hm⟩)

theorem Keeps.not_mentioned_rest (hv : v ∈ x.role.own) : ¬ (systemOf rest extra κ).Mentions v := by
  have hin : x ∈ held := hperm.mem_iff.mpr List.mem_cons_self
  have hu := (h.own_nodup hperm).2 v hv
  rintro (⟨f, hf, hne⟩ | hne)
  · rcases List.mem_append.mp hf with hf | hf
    · obtain ⟨y, hy, rfl⟩ := List.mem_map.mp hf
      rcases Held.mem_of_form_ne hne with hm | hm
      · have hext := y.constraint.external v ((mem_termVariables _ _).mpr hm)
        rw [internal_of_restricted (Role.restricted_of_mem hv)] at hext
        cases hext
      · exact hu y hy hm
    · exact (h.extraApart f hf v hne).2 x hin hv
  · obtain ⟨y, hy, hm⟩ := mem_of_objective_ne hne
    exact hu y hy (y.role.errors_subset hm)

omit h in
theorem systemOf_perm : (systemOf held extra κ).equations.Perm (x.form :: (systemOf rest extra κ).equations) :=
  (hperm.map Held.form).append_right extra

omit h in
theorem systemOf_objective : (systemOf held extra κ).objective = (systemOf rest extra κ).objective + x.cost := by
  simp only [systemOf]
  rw [(hperm.map Held.cost).sum_eq, List.map_cons, List.sum_cons]
  abel

end Rest

/-- When the constraint is removed, a dummy row that mentions its dummy marker is not passed over. -/
def RemovesCleanly (m : Machine) (s : GSCassowarySolver) (c : GSCSConstraint) : Prop :=
  ∀ marker, s.markerVariables.lookup c = some marker → CleanExit m s.tableau marker

theorem Solves.removeUnusedAll (vs : List GSCSVariable) : ∀ {T : GSCSTableau}, Solves T S →
    (∀ v ∈ vs, v.isExternal = false ∧ ¬ S.Mentions v ∧ v ≠ .objective) →
    Solves (vs.foldl (fun T v => T.removeColumn m v) T) S ∧
      (vs.foldl (fun T v => T.removeColumn m v) T).dictionary = T.dictionary := by
  induction vs with
  | nil => exact fun h _ => ⟨h, rfl⟩
  | cons v vs ih =>
    intro T h hv
    obtain ⟨h1, h2, h3⟩ := hv v List.mem_cons_self
    obtain ⟨h4, h5⟩ := h.removeUnused (m := m) h1 h2 h3
    obtain ⟨h6, h7⟩ := ih h4 fun x hx => hv x (List.mem_cons_of_mem _ hx)
    exact ⟨h6, h7.trans h5⟩

theorem Role.errors_of_dummy {role : Role} (h : role.marker.isDummy = true) : role.errors = [] := by
  cases role with
  | requiredInequality s => rfl
  | inequality s em => cases h
  | requiredEquality d => rfl
  | equality ep em => cases h

theorem objective_of_known (hkn : ∀ v, s.tableau.dictionary.Mentions v → s.Known v)
    {f : Form GSCSVariable ℚ} (hv : s.tableau.dictionary v = some f) (ho : signs.objective v) : v = .objective := by
  have hk := hkn v (Or.inl ⟨f, hv⟩)
  cases v with
  | objective => rfl
  | artificialObjective n => exact hk.elim
  | _ => cases ho

theorem removeConstraintFromTableau_keeps (hm : m.tol = 0) (h : Keeps m s held extra κ)
    (hcln : RemovesCleanly m s c) (hr : removeConstraintFromTableau m c s = .ok () s') :
    Keeps m s' (withoutConstraint c held) extra κ ∧ (∃ x ∈ held, x.constraint = c) ∧
      s'.externalVariables = s.externalVariables ∧ s'.values = s.values := by
  unfold removeConstraintFromTableau at hr
  rw [get_bind] at hr
  cases hmar : s.markerVariables.lookup c with
  | none =>
    rw [hmar] at hr
    cases hr
  | some marker =>
    obtain ⟨x, hx, rfl, herr⟩ := h.markers c marker hmar
    have hin : x ∈ held := List.mem_of_find?_eq_some hx
    have hxc : x.constraint = c := by simpa using List.find?_some hx
    simp only [hmar, herr] at hr
    rw [← hxc] at hr
    obtain ⟨h1, h2⟩ := h.solves.removeErrors hm x.constraint.strength.strength x.role.errors
      fun v hv => Role.pivotable_of_mem_errors hv
    have hperm : held.Perm (x :: withoutConstraint c held) := perm_eraseP_of_find? hx
    have hobj : (systemOf held extra κ).objective + (-x.constraint.strength.strength) • (x.role.errors.map term).sum =
          (systemOf (withoutConstraint c held) extra κ).objective := by
      rw [systemOf_objective hperm, neg_smul]
      exact add_neg_cancel_right _ _
    rw [hobj] at h1
    obtain ⟨T1, hT1⟩ : ∃ T1, T1 = x.role.errors.foldl
      (removeErrorFromObjective m x.constraint.strength.strength) s.tableau := ⟨_, rfl⟩
    rw [← hT1] at h1 h2
    obtain ⟨s2, hs2⟩ : ∃ s2, s2 = { s with
        tableau := T1
        markerVariables := s.markerVariables.erase x.constraint } := ⟨_, rfl⟩
    have hkn2 : ∀ v, s2.tableau.dictionary.Mentions v → s2.Known v := by
      rw [hs2]
      intro v hv
      rcases h2.mentions v hv with hv | hv
      · exact h.knownRole x hin v (x.role.errors_subset hv)
      · exact h.known v hv
    have hown : ∀ v ∈ x.role.own, v.isExternal = false ∧
        ¬ (systemOf (withoutConstraint c held) extra κ).Mentions v ∧ v ≠ .objective := by
      intro v hv
      have hres := Role.restricted_of_mem hv
      refine ⟨internal_of_restricted hres, h.not_mentioned_rest hperm hv, ?_⟩
      rintro rfl
      cases hres
    have hmk : IsMarker ⟨(systemOf held extra κ).equations,
        (systemOf (withoutConstraint c held) extra κ).objective⟩ x.role.marker x.form
        (systemOf (withoutConstraint c held) extra κ).equations := by
      have hn := (hown _ x.role.marker_mem).2.1
      refine ⟨Role.restricted_of_mem x.role.marker_mem, systemOf_perm hperm, ?_, fun e he => ?_, ?_⟩
      · rw [Held.coefficient_of_mem x.role.marker_mem]
        exact Role.form_marker (h.own_nodup hperm).1
      · by_contra hne
        exact hn (Or.inl ⟨e, he, hne⟩)
      · by_contra hne
        exact hn (Or.inr hne)
    have hcln2 : CleanExit m s2.tableau x.role.marker := by
      intro hd
      have hT : s2.tableau = s.tableau := by
        rw [hs2, hT1, Role.errors_of_dummy hd]
        rfl
      rw [hT]
      exact hcln _ hmar hd
    obtain ⟨T3, hr3, h3, hmn3⟩ := removeMarker_spec hm (s := s2) (by rw [hs2]; exact h1) hmk
      (objective_restricted (withoutConstraint c held) extra κ) (fun r g hg ho => objective_of_known hkn2 hg ho) hcln2
    obtain ⟨h4, h5⟩ := h3.removeUnusedAll (m := m) (x.role.errors.filter (· ≠ x.role.marker))
      fun v hv => hown v (x.role.errors_subset (List.mem_filter.mp hv).1)
    have hs' : s' = { s2 with
        tableau := (x.role.errors.filter (· ≠ x.role.marker)).foldl (fun T v => T.removeColumn m v) T3
        errorVariables := s2.errorVariables.erase x.constraint } := by
      have h0 : modifyTableau (fun T => x.role.errors.foldl
          (removeErrorFromObjective m x.constraint.strength.strength) T) s =
          .ok () { s with tableau := T1 } := by
        rw [hT1]
        rfl
      rw [bind_ok h0, modify_bind, ← hs2, bind_ok hr3] at hr
      exact (EStateM.Result.ok.inj hr).2.symm
    have hmr : s'.markerVariables = s.markerVariables.erase c := by rw [hs', hs2, hxc]
    have her : s'.errorVariables = s.errorVariables.erase c := by rw [hs', hs2, hxc]
    have hkn' : ∀ v, s.Known v → s'.Known v := by
      rw [hs', hs2]
      exact fun v hv => hv
    have hsub : ∀ y ∈ withoutConstraint c held, y ∈ held := fun y hy => List.mem_of_mem_eraseP hy
    refine ⟨?_, ⟨x, hin, hxc⟩, by rw [hs', hs2], by rw [hs', hs2]⟩
    exact {
      solves := by
        rw [hs']
        exact h4
      known := fun v hv => by
        rw [hs'] at hv
        have hv3 : T3.dictionary.Mentions v := by rwa [← h5]
        have := hkn2 v (hmn3 v hv3)
        rw [hs2] at this
        exact hkn' v this
      nodup := h.nodup.sublist ((List.eraseP_sublist).flatMap _)
      knownRole := fun y hy v hv => hkn' v (h.knownRole y (hsub y hy) v hv)
      extraApart := fun f hf v hv => by
        obtain ⟨hk, hn⟩ := h.extraApart f hf v hv
        exact ⟨hkn' v hk, fun y hy => hn y (hsub y hy)⟩
      externals := fun y hy v hv => by
        rw [hs', hs2]
        exact h.externals y (hsub y hy) v hv
      markers := fun c' marker hl => by
        rw [hmr] at hl
        have hc : c' ≠ c := by
          rintro rfl
          rw [AList.lookup_erase] at hl
          cases hl
        rw [AList.lookup_erase_ne hc] at hl
        obtain ⟨y, h6, h7, h8⟩ := h.markers c' marker hl
        refine ⟨y, ?_, h7, ?_⟩
        · unfold withoutConstraint
          rw [find?_eraseP, h6]
          intro z hz
          simp only [decide_eq_true_eq] at hz
          rw [hz]
          exact decide_eq_false (Ne.symm hc)
        · rw [her, AList.lookup_erase_ne hc]
          exact h8
      required := fun c' hreq => by
        rw [her]
        by_cases hc : c' = c
        · rw [hc, AList.lookup_erase]
        · rw [AList.lookup_erase_ne hc]
          exact h.required c' hreq }

end GnustepGui.Cassowary
