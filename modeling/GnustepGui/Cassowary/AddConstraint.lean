import GnustepGui.Cassowary.ArtificialVariable

/-!
# `addConstraintToTableau:`

A call that returns keeps the invariant with one more held constraint (`addConstraintToTableau_keeps`):
the equation of the new row is the constraint's own, up to a sign and modulo the rows before it.
-/

namespace GnustepGui.Cassowary

open GSCSLinearExpression GSCSTableau GSCassowarySolver Simplex Simplex.Form StateExcept

variable {m : Machine} {s s' s1 : GSCassowarySolver} {held : List (Held m)}
  {extra : List (Form GSCSVariable ℚ)} {κ : ℚ} {c : GSCSConstraint} {r : NewConstraint} {role : Role}
  {ε : ℚ} {base : Form GSCSVariable ℚ}

theorem Keeps.system_known (h : Keeps m s held extra κ) {v : GSCSVariable}
    (hv : (systemOf held extra κ).Mentions v) : s.Known v := by
  rcases hv with ⟨f, hf, hne⟩ | hne
  · rcases List.mem_append.mp hf with hf | hf
    · obtain ⟨x, hx, rfl⟩ := List.mem_map.mp hf
      rcases Held.mem_of_form_ne hne with hm | hm
      · have hin := h.externals x hx v hm
        have hext := x.constraint.external v ((mem_termVariables _ _).mpr hm)
        cases v with
        | external n => exact hin
        | _ => cases hext
      · exact h.knownRole x hx v hm
    · exact (h.extraApart f hf v hne).1
  · obtain ⟨x, hx, hm⟩ := mem_of_objective_ne hne
    exact h.knownRole x hx v (x.role.errors_subset hm)

/-- The new held constraint. -/
def Prepared.record {S : System GSCSVariable ℚ} (hp : Prepared m s s1 S c r role ε base) : Held m :=
  ⟨c, role, 0, hp.fits⟩

/-- The equation of the new expression is that of the held constraint. -/
theorem Prepared.represents (hp : Prepared m s s1 (systemOf held extra κ) c r role ε base)
    {T : GSCSTableau} (h : Solves T ⟨r.expression.form :: (systemOf held extra κ).equations,
      (systemOf held extra κ).objective + role.cost c⟩) : Solves T (systemOf (hp.record :: held) extra κ) := by
  have hε : ε ≠ 0 := by rcases hp.sign with rfl | rfl <;> norm_num
  have hfr : hp.record.form = c.expression.form + role.form := by
    show ((0 : ℚ), (0 : GSCSVariable →₀ ℚ)) + c.expression.form + role.form = _
    rw [show ((0 : ℚ), (0 : GSCSVariable →₀ ℚ)) = 0 from rfl, zero_add]
  have ho : (systemOf (hp.record :: held) extra κ).objective = (systemOf held extra κ).objective + role.cost c := by
    simp only [systemOf, List.map_cons, List.sum_cons]
    rw [add_assoc, add_comm _ (role.cost c)]
    rfl
  have he : (systemOf (hp.record :: held) extra κ).equations =
      (c.expression.form + role.form) :: (systemOf held extra κ).equations := by
    rw [← hfr]
    rfl
  refine ⟨h.sound, h.tidy, h.represents.congr (fun σ => ?_) ?_⟩
  · unfold System.Holds
    rw [he, ho, List.forall_mem_cons, List.forall_mem_cons, and_assoc, and_assoc]
    refine and_congr_left fun hr => ?_
    have hσ := (hp.solves.represents.solution σ).mpr hr
    rw [hp.form, map_smul, map_add, map_add, hp.base_eval σ hσ, smul_eq_mul, mul_eq_zero, or_iff_right hε]
  · rintro (⟨f, hf, hne⟩ | hne)
    · rw [he] at hf
      rcases List.mem_cons.mp hf with rfl | hf
      · refine hne ?_
        have hrl : role.form.2 .objective = 0 := by
          by_contra hc
          exact (hp.fresh _ (Role.mem_of_form_ne hc)).1 trivial
        rw [Prod.snd_add, Finsupp.add_apply, hrl, external_form_apart c rfl, add_zero]
      · exact hp.solves.represents.apart (Or.inl ⟨f, hf, hne⟩)
    · rw [ho] at hne
      exact hp.solves.represents.apart (Or.inr hne)

theorem Role.required_of_errors (h : role.Fits m c) (he : role.errors = []) : c.isRequired m.tol = true := by
  cases role with
  | requiredInequality s => exact h.2
  | inequality s em => cases he
  | requiredEquality d => exact h.2
  | equality ep em => cases he

/-- The maps after the marker and the error variables were recorded. -/
structure Recorded (s s' : GSCassowarySolver) (c : GSCSConstraint) (r : NewConstraint) : Prop where
  markerVariables : s'.markerVariables = s.markerVariables.insert c r.marker
  errorVariables : s'.errorVariables = r.errors.elim s.errorVariables fun errors =>
    s.errorVariables.insert c errors

/-- The invariant after the row was added. -/
theorem Prepared.keeps (hp : Prepared m s s1 (systemOf held extra κ) c r role ε base)
    (h : Keeps m s held extra κ) (hs : Solves s'.tableau ⟨r.expression.form ::
      (systemOf held extra κ).equations, (systemOf held extra κ).objective + role.cost c⟩)
    (hkn : ∀ v, s'.tableau.dictionary.Mentions v → s'.Known v) (hg : Grown s1 s')
    (hrc : Recorded s s' c r) : Keeps m s' (hp.record :: held) extra κ where
  solves := hp.represents hs
  known := hkn
  nodup := by
    rw [List.flatMap_cons, List.nodup_append']
    refine ⟨hp.nodup, h.nodup, fun v hv hm => ?_⟩
    obtain ⟨x, hx, hvx⟩ := List.mem_flatMap.mp hm
    exact (hp.fresh v hv).1 (h.knownRole x hx v hvx)
  knownRole := by
    rw [List.forall_mem_cons]
    refine ⟨fun v hv => hg.known (hp.fresh v hv).2, fun x hx v hv => ?_⟩
    exact hg.known (hp.grown.known (h.knownRole x hx v hv))
  extraApart := by
    intro f hf v hv
    obtain ⟨hk, hn⟩ := h.extraApart f hf v hv
    refine ⟨hg.known (hp.grown.known hk), List.forall_mem_cons.mpr ⟨fun hv' => ?_, hn⟩⟩
    exact (hp.fresh v hv').1 hk
  externals := by
    rw [List.forall_mem_cons]
    refine ⟨fun v hv => hg.externalVariables (hp.externals v hv), fun x hx v hv => ?_⟩
    exact hg.externalVariables (hp.grown.externalVariables (h.externals x hx v hv))
  markers := by
    intro c' marker hl
    rw [hrc.markerVariables] at hl
    rw [hrc.errorVariables]
    by_cases hc : c' = c
    · subst hc
      rw [AList.lookup_insert] at hl
      refine ⟨hp.record, List.find?_cons_of_pos (by simp [Prepared.record]), ?_, ?_⟩
      · rw [← Option.some.inj hl, hp.marker]
        rfl
      · show _ = role.errors
        rw [← hp.errors]
        cases he : r.errors with
        | none =>
          have hr := Role.required_of_errors hp.fits (by rw [← hp.errors, he]; rfl)
          rw [Option.elim_none, h.required c' hr]
        | some errors => rw [Option.elim_some, AList.lookup_insert]
    · rw [AList.lookup_insert_ne hc] at hl
      obtain ⟨x, h1, h2, h3⟩ := h.markers c' marker hl
      refine ⟨x, ?_, h2, ?_⟩
      · have hne : decide (hp.record.constraint = c') = false := decide_eq_false (Ne.symm hc)
        rw [List.find?_cons_of_neg (by rw [hne]; exact Bool.false_ne_true)]
        exact h1
      · rw [← h3]
        cases r.errors with
        | none => rfl
        | some errors => rw [Option.elim_some, AList.lookup_insert_ne hc]
  required := by
    intro c' hr
    rw [hrc.errorVariables]
    cases he : r.errors with
    | none => exact h.required c' hr
    | some errors =>
      have hc : c' ≠ c := by
        rintro rfl
        rw [hp.required hr] at he
        cases he
      rw [Option.elim_some, AList.lookup_insert_ne hc]
      exact h.required c' hr

theorem registerEditInfo_run (c : GSCSConstraint) (marker : GSCSVariable)
    (errors : Option (List GSCSVariable)) (s : GSCassowarySolver) :
    ∃ infos, registerEditInfoForConstraint c marker errors s = .ok () { s with editInfos := infos } := by
  unfold registerEditInfoForConstraint
  rw [get_bind]
  cases c.editVariable with
  | none => exact ⟨s.editInfos, rfl⟩
  | some v =>
    simp only
    split
    · exact ⟨s.editInfos, rfl⟩
    · exact ⟨_, rfl⟩

/-- The row was added, directly or with an artificial variable. -/
structure RowAdded (s1 s2 : GSCassowarySolver) (S : System GSCSVariable ℚ)
    (f : Form GSCSVariable ℚ) : Prop where
  state : s2 = { s1 with tableau := s2.tableau, artificialCounter := s2.artificialCounter,
                         nextExpression := s2.nextExpression }
  counter : s1.artificialCounter ≤ s2.artificialCounter
  solves : Solves s2.tableau ⟨f :: S.equations, S.objective⟩
  mentions : ∀ w, s2.tableau.dictionary.Mentions w → f.2 w ≠ 0 ∨ s1.tableau.dictionary.Mentions w

variable {S : System GSCSVariable ℚ}

theorem RowAdded.grown {f : Form GSCSVariable ℚ} {s2 : GSCassowarySolver} (h : RowAdded s1 s2 S f) : Grown s1 s2 := by
  have hext : s2.externalVariables = s1.externalVariables := by rw [h.state]
  have hs : s2.slackCounter = s1.slackCounter := by rw [h.state]
  have hd : s2.dummyCounter = s1.dummyCounter := by rw [h.state]
  exact ⟨by rw [hext]; exact List.Subset.refl _, by rw [hs], by rw [hd], h.counter⟩

/-- The two ways to add the row. -/
def addRow (m : Machine) (e : GSCSLinearExpression) : SolverM Unit := do
  if !(← tryAddingDirectly m e) then addWithArtificialVariable m e

/-- What is wanted of the expression of a new row. -/
structure Addable (s : GSCassowarySolver) (e : GSCSLinearExpression) : Prop where
  reduced : e.Reduced
  constant : 0 ≤ e.constant
  terms : ∀ w ∈ e.terms, s.tableau.dictionary w = none ∧ s.Known w

theorem Addable.free {e : GSCSLinearExpression} (he : Addable s e)
    (h : Solves s.tableau S) : ∀ w ∈ e.terms, ¬ signs.objective w := by
  intro w hw ho
  obtain ⟨hn, hk⟩ := he.terms w hw
  cases w with
  | objective =>
    obtain ⟨f, hf⟩ := h.represents.row
    rw [hn] at hf
    cases hf
  | artificialObjective n => exact hk
  | _ => cases ho

theorem addRow_ok (hm : m.tol = 0) (h : Solves s.tableau S) (hS : ∀ v, S.Mentions v → s.Known v)
    (hk : ∀ v, s.tableau.dictionary.Mentions v → s.Known v) {e : GSCSLinearExpression}
    (he : Addable s e) (hr : addRow m e s = .ok () s') : RowAdded s s' S e.form := by
  unfold addRow tryAddingDirectly at hr
  obtain ⟨direct, s2, h1, h2⟩ := bind_eq_ok hr
  rw [get_bind] at h1
  cases hs : chooseSubject m s.tableau e with
  | some choice =>
    obtain ⟨v, e'⟩ := choice
    rw [hs] at h1
    obtain ⟨h3, h4⟩ := h.addDirectly hm he.reduced (fun w hw => (he.terms w hw).1) (he.free h)
      he.constant hs
    obtain ⟨rfl, rfl⟩ := EStateM.Result.ok.inj h1
    obtain ⟨-, rfl⟩ := EStateM.Result.ok.inj h2
    exact ⟨rfl, le_refl _, h3, fun w hw => (h4 w hw).imp_left (mem_terms_iff he.reduced).mp⟩
  | none =>
    rw [hs] at h1
    obtain ⟨rfl, rfl⟩ := EStateM.Result.ok.inj h1
    have hsp := addWithArtificialVariable_spec hm h hS hk he.reduced he.terms
      (chooseSubject_none hm hs).1 he.constant
    have h2' : addWithArtificialVariable m e s = .ok () s' := h2
    rw [h2'] at hsp
    obtain ⟨hf, h3, h4⟩ := hsp
    unfold ArtificialFrame at hf
    refine ⟨?_, ?_, h3, h4⟩
    · rw [hf]
    · rw [hf]
      exact Nat.le_succ _

/-- What is recorded of a constraint whose row was added. -/
def recordConstraint (c : GSCSConstraint) (r : NewConstraint) : SolverM Unit := do
  modify fun s => { s with
    markerVariables := s.markerVariables.insert c r.marker
    errorVariables := r.errors.elim s.errorVariables fun errors =>
      s.errorVariables.insert c errors }
  if c.isEditConstraint then registerEditInfoForConstraint c r.marker r.errors

theorem addConstraintToTableau_eq (m : Machine) (c : GSCSConstraint) :
    addConstraintToTableau m c = expressionForNewConstraint m c >>= fun r =>
      addRow m r.expression >>= fun _ => recordConstraint c r := by
  unfold addConstraintToTableau
  congr 1
  funext r
  unfold addRow
  rw [bind_assoc]
  congr 1
  funext direct
  cases direct <;> rfl

theorem recordConstraint_run (c : GSCSConstraint) (r : NewConstraint) (s : GSCassowarySolver) :
    ∃ infos, recordConstraint c r s = .ok () { s with
      markerVariables := s.markerVariables.insert c r.marker
      errorVariables := r.errors.elim s.errorVariables fun errors => s.errorVariables.insert c errors
      editInfos := infos } := by
  unfold recordConstraint
  rw [modify_bind]
  split
  · exact registerEditInfo_run c r.marker r.errors _
  · exact ⟨s.editInfos, rfl⟩

theorem addConstraintToTableau_keeps (hm : m.tol = 0) (h : Keeps m s held extra κ)
    (hrun : addConstraintToTableau m c s = .ok () s') :
    ∃ x : Held m, x.constraint = c ∧ x.offset = 0 ∧ Keeps m s' (x :: held) extra κ := by
  rw [addConstraintToTableau_eq] at hrun
  obtain ⟨r, s1, role, ε, base, hr, hp⟩ := expressionForNewConstraint_spec hm h.solves h.known c
  rw [bind_ok hr] at hrun
  obtain ⟨u, s2, ha, hrun⟩ := bind_eq_ok hrun
  have hS : ∀ v, System.Mentions ⟨(systemOf held extra κ).equations,
      (systemOf held extra κ).objective + role.cost c⟩ v → s1.Known v := by
    rintro v (⟨f, hf, hne⟩ | hne)
    · exact hp.grown.known (h.system_known (Or.inl ⟨f, hf, hne⟩))
    · by_cases ho : (systemOf held extra κ).objective.2 v = 0
      · simp only [Prod.snd_add, Finsupp.add_apply, ho, zero_add] at hne
        have hmem := Held.mem_of_cost_ne (h := (⟨c, role, 0, hp.fits⟩ : Held m)) hne
        exact (hp.fresh v (role.errors_subset hmem)).2
      · exact hp.grown.known (h.system_known (Or.inr ho))
  have had := addRow_ok hm hp.solves hS hp.known ⟨hp.reduced, hp.constant, hp.terms⟩ ha
  have hk2 : ∀ w, s2.tableau.dictionary.Mentions w → s2.Known w := by
    intro w hw
    rcases had.mentions w hw with hne | hw
    · exact had.grown.known (hp.terms w ((mem_terms_iff hp.reduced).mpr hne)).2
    · exact had.grown.known (hp.known w hw)
  obtain ⟨infos, hrec⟩ := recordConstraint_run c r s2
  rw [hrec] at hrun
  obtain ⟨-, rfl⟩ := EStateM.Result.ok.inj hrun
  have hmar : s2.markerVariables = s.markerVariables := by rw [had.state, hp.state]
  have he : s2.errorVariables = s.errorVariables := by rw [had.state, hp.state]
  have hg := had.grown
  refine ⟨hp.record, rfl, rfl, hp.keeps h had.solves hk2
    ⟨hg.externalVariables, hg.slackCounter, hg.dummyCounter, hg.artificialCounter⟩ ⟨?_, ?_⟩⟩
  · rw [← hmar]
  · rw [← he]

end GnustepGui.Cassowary
