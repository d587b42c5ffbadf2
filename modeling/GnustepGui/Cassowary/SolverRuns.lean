import GnustepGui.Cassowary.Optimality

/-!
# Runs of additions and removals

Every state after a call has the invariant with the constraints added and not removed since, and the
values reported are optimal for them, if each removal was clean (`optimal_of_cleanRun`). Without
that they need not be: after `x = 5`, `x = 5` and `2 ≤ x` the removal of the first equation leaves
`x = 2` (`not_optimal_after_removal`).
-/

namespace GnustepGui.Cassowary

open GSCSLinearExpression GSCSTableau GSCassowarySolver Simplex Simplex.Form StateExcept

variable {m : Machine} {s s' : GSCassowarySolver} {held : List (Held m)}
  {extra : List (Form GSCSVariable ℚ)} {κ : ℚ}

/-! ## `resolve` -/

theorem Keeps.reshaped (h : Keeps m s held extra κ) (hon : OnTableau s s')
    (hr : Reshaped s.tableau s'.tableau) : Keeps m s' held extra κ := by
  unfold OnTableau at hon
  obtain ⟨T, hT⟩ : ∃ T, T = s'.tableau := ⟨_, rfl⟩
  rw [← hT] at hon hr
  subst hon
  exact ⟨hr.solves h.solves, fun v hv => h.known v (hr.mentions v hv), h.nodup, h.knownRole,
    h.extraApart, h.externals, h.markers, h.required⟩

theorem Keeps.withValues (h : Keeps m s held extra κ) (values : GSCSVariable → ℚ) :
    Keeps m { s with values := values } held extra κ :=
  ⟨h.solves, h.known, h.nodup, h.knownRole, h.extraApart, h.externals, h.markers, h.required⟩

/-- The values kept in the external variables are those of the tableau. -/
def UpToDate (s : GSCassowarySolver) : Prop :=
  ∀ v ∈ s.externalVariables, s.values v = s.tableau.dictionary.basic v

theorem setExternalVariables_run (s : GSCassowarySolver) : ∃ values,
    setExternalVariables s = .ok () { s with values := values } ∧
      UpToDate { s with values := values } ∧ (UpToDate s → values = s.values) := by
  refine ⟨_, rfl, fun v hv => ?_, fun h => ?_⟩
  · show (if v ∈ s.externalVariables then s.tableau.rowConstant v else s.values v) = _
    rw [if_pos hv, rowConstant_eq_basic]
  · funext v
    split
    · next hv => rw [rowConstant_eq_basic, h v hv]
    · rfl

theorem resolve_keeps (hm : m.tol = 0) (h : Keeps m s held extra κ) (hr : resolve m s = .ok () s') :
    Keeps m s' held extra κ ∧ Minimised s'.tableau ∧ UpToDate s' := by
  unfold resolve optimize at hr
  obtain ⟨u, s1, ho, hs⟩ := bind_eq_ok hr
  have hsp := optimizeLoop_spec hm .objective m.fuel s h.solves.sound h.solves.tidy
  rw [ho] at hsp
  obtain ⟨hon, hrs, hmin⟩ := hsp
  obtain ⟨values, hv, hu, -⟩ := setExternalVariables_run s1
  rw [hv] at hs
  obtain ⟨-, rfl⟩ := EStateM.Result.ok.inj hs
  exact ⟨(h.reshaped hon hrs).withValues values, hmin, hu⟩

/-! ## Calls -/

/-- The constraints held after a call. -/
def heldBy (held : List GSCSConstraint) : SolverCall → List GSCSConstraint
  | .addConstraint c => c :: held
  | .addConstraints cs => cs.foldl (fun held c => c :: held) held
  | .removeConstraint c => held.erase c
  | .removeConstraints cs => cs.foldl List.erase held
  | .suggestEditVariable _ _ => held

def heldAfter (calls : List SolverCall) : List GSCSConstraint := calls.foldl heldBy []

def SolverCall.AddsOrRemoves : SolverCall → Prop
  | suggestEditVariable _ _ => False
  | _ => True

def CleanLoop (m : Machine) : List GSCSConstraint → GSCassowarySolver → Prop
  | [], _ => True
  | c :: cs, s => RemovesCleanly m s c ∧
      ∀ s', removeConstraintFromTableau m c s = .ok () s' → CleanLoop m cs s'

/-- Every removal the call makes is clean. -/
def SolverCall.Clean (m : Machine) (s : GSCassowarySolver) : SolverCall → Prop
  | removeConstraint c => RemovesCleanly m s c
  | removeConstraints cs => CleanLoop m cs s
  | _ => True

def CleanRun (m : Machine) : List SolverCall → GSCassowarySolver → Prop
  | [], _ => True
  | call :: calls, s => call.Clean m s ∧ ∀ s', call.perform m s = .ok () s' → CleanRun m calls s'

/-- The state between two calls. -/
structure Settled (m : Machine) (s : GSCassowarySolver) (held : List (Held m)) : Prop where
  keeps : Keeps m s held [] 0
  offsets : ∀ x ∈ held, x.offset = 0
  minimised : Minimised s.tableau
  upToDate : UpToDate s

theorem Settled.optimal (h : Settled m s held) : Optimal m.tol (held.map Held.constraint) s.values := by
  have hc : held.map Held.current = held.map Held.constraint := by
    refine List.map_congr_left fun x hx => ?_
    rw [Held.current, h.offsets x hx, GSCSConstraint.shifted_zero]
  rw [← hc]
  exact h.keeps.optimal solvable_nil h.minimised h.upToDate

theorem constraints_without (c : GSCSConstraint) (held : List (Held m)) :
    (withoutConstraint c held).map Held.constraint = (held.map Held.constraint).erase c := by
  unfold withoutConstraint
  induction held with
  | nil => rfl
  | cons x held ih =>
    by_cases hx : x.constraint = c
    · rw [List.eraseP_cons_of_pos (by simpa using hx), List.map_cons, hx, List.erase_cons_head]
    · rw [List.eraseP_cons_of_neg (by simpa using hx), List.map_cons, List.map_cons, ih,
        List.erase_cons_tail (by simpa using hx)]

theorem addConstraintsLoop_keeps (hm : m.tol = 0) (cs : List GSCSConstraint) :
    ∀ {s : GSCassowarySolver} {held : List (Held m)}, Keeps m s held extra κ →
      (∀ x ∈ held, x.offset = 0) → addConstraintsLoop m cs s = .ok () s' →
      ∃ held', Keeps m s' held' extra κ ∧ (∀ x ∈ held', x.offset = 0) ∧
        held'.map Held.constraint = cs.foldl (fun held c => c :: held) (held.map Held.constraint) := by
  induction cs with
  | nil =>
    intro s held h ho hr
    obtain ⟨-, rfl⟩ := EStateM.Result.ok.inj hr
    exact ⟨held, h, ho, rfl⟩
  | cons c cs ih =>
    intro s held h ho hr
    unfold addConstraintsLoop at hr
    obtain ⟨u, s1, ha, hr⟩ := bind_eq_ok hr
    obtain ⟨x, hx, hx0, h1⟩ := addConstraintToTableau_keeps hm h ha
    obtain ⟨held', h2, h3, h4⟩ := ih h1 (List.forall_mem_cons.mpr ⟨hx0, ho⟩) hr
    exact ⟨held', h2, h3, by rw [h4, List.map_cons, hx]; rfl⟩

theorem removeConstraintsLoop_keeps (hm : m.tol = 0) (cs : List GSCSConstraint) :
    ∀ {s : GSCassowarySolver} {held : List (Held m)}, Keeps m s held extra κ →
      (∀ x ∈ held, x.offset = 0) → CleanLoop m cs s → removeConstraintsLoop m cs s = .ok () s' →
      ∃ held', Keeps m s' held' extra κ ∧ (∀ x ∈ held', x.offset = 0) ∧
        held'.map Held.constraint = cs.foldl List.erase (held.map Held.constraint) := by
  induction cs with
  | nil =>
    intro s held h ho _ hr
    obtain ⟨-, rfl⟩ := EStateM.Result.ok.inj hr
    exact ⟨held, h, ho, rfl⟩
  | cons c cs ih =>
    intro s held h ho hc hr
    unfold removeConstraintsLoop at hr
    obtain ⟨u, s1, hrm, hr⟩ := bind_eq_ok hr
    obtain ⟨h1, -, -, -⟩ := removeConstraintFromTableau_keeps hm h hc.1 hrm
    obtain ⟨held', h2, h3, h4⟩ := ih h1
      (fun x hx => ho x (List.mem_of_mem_eraseP hx)) (hc.2 s1 hrm) hr
    exact ⟨held', h2, h3, by rw [h4, constraints_without]; rfl⟩

/-- The step lemma. -/
theorem Settled.perform (hm : m.tol = 0) (h : Settled m s held) {call : SolverCall}
    (hca : call.AddsOrRemoves) (hc : call.Clean m s) (hrun : call.perform m s = .ok () s') :
    ∃ held', Settled m s' held' ∧ held'.map Held.constraint = heldBy (held.map Held.constraint) call := by
  -- a call is a change of the tableau and then `resolve`
  have hrsv : ∀ {s1 : GSCassowarySolver} {held' : List (Held m)}, Keeps m s1 held' [] 0 →
      (∀ x ∈ held', x.offset = 0) → resolve m s1 = .ok () s' → Settled m s' held' := by
    intro s1 held' h1 ho hr
    obtain ⟨h2, h3, h4⟩ := resolve_keeps hm h1 hr
    exact ⟨h2, ho, h3, h4⟩
  cases call with
  | addConstraint c =>
    obtain ⟨u, s1, ha, hr⟩ := bind_eq_ok hrun
    obtain ⟨x, hx, hx0, h1⟩ := addConstraintToTableau_keeps hm h.keeps ha
    exact ⟨x :: held, hrsv h1 (List.forall_mem_cons.mpr ⟨hx0, h.offsets⟩) hr,
      by rw [List.map_cons, hx]; rfl⟩
  | addConstraints cs =>
    cases cs with
    | nil =>
      obtain ⟨-, rfl⟩ := EStateM.Result.ok.inj hrun
      exact ⟨held, h, rfl⟩
    | cons c cs =>
      obtain ⟨u, s1, ha, hr⟩ := bind_eq_ok hrun
      obtain ⟨held', h1, h2, h3⟩ := addConstraintsLoop_keeps hm (c :: cs) h.keeps h.offsets ha
      exact ⟨held', hrsv h1 h2 hr, h3⟩
  | removeConstraint c =>
    obtain ⟨u, s1, hrm, hr⟩ := bind_eq_ok hrun
    obtain ⟨h1, -, -, -⟩ := removeConstraintFromTableau_keeps hm h.keeps hc hrm
    exact ⟨_, hrsv h1 (fun x hx => h.offsets x (List.mem_of_mem_eraseP hx)) hr, constraints_without c held⟩
  | removeConstraints cs =>
    cases cs with
    | nil =>
      obtain ⟨-, rfl⟩ := EStateM.Result.ok.inj hrun
      exact ⟨held, h, rfl⟩
    | cons c cs =>
      obtain ⟨u, s1, hrm, hr⟩ := bind_eq_ok hrun
      obtain ⟨held', h1, h2, h3⟩ := removeConstraintsLoop_keeps hm (c :: cs) h.keeps h.offsets hc hrm
      exact ⟨held', hrsv h1 h2 hr, h3⟩
  | suggestEditVariable number value => exact hca.elim

/-! ## Runs -/

theorem init_row {r : GSCSVariable} {e : GSCSLinearExpression}
    (h : GSCSTableau.init.rows.lookup r = some e) : r = .objective ∧ e = initWithConstant 0 0 := by
  unfold GSCSTableau.init at h
  rw [addRow_rows] at h
  by_cases hr : r = .objective
  · subst hr
    rw [AList.lookup_insert] at h
    exact ⟨rfl, (Option.some.inj h).symm⟩
  · rw [AList.lookup_insert_ne hr] at h
    simp [GSCSTableau.empty] at h

theorem init_dictionary : GSCSTableau.init.dictionary .objective = some 0 := by
  have hr : GSCSTableau.init.rows.lookup .objective = some (initWithConstant 0 0) := by
    unfold GSCSTableau.init
    rw [addRow_rows, AList.lookup_insert]
  rw [dictionary_of_row hr]
  congr 1

theorem init_eq_zero {r : GSCSVariable} {f : Form GSCSVariable ℚ}
    (h : GSCSTableau.init.dictionary r = some f) : r = .objective ∧ f = 0 := by
  obtain ⟨e, he, -⟩ := dictionary_eq_some.mp h
  obtain ⟨rfl, -⟩ := init_row he
  rw [init_dictionary] at h
  exact ⟨rfl, (Option.some.inj h).symm⟩

theorem init_settled (m : Machine) (values : GSCSVariable → ℚ) : Settled m (GSCassowarySolver.init values) [] := by
  have hz : ∀ {r f}, GSCSTableau.init.dictionary r = some f → r = .objective ∧ f = 0 := init_eq_zero
  have hc : GSCSTableau.init.dictionary.Canonical := by
    intro r f hr v hv
    rw [(hz hr).2] at hv
    exact absurd rfl hv
  have hsol : Solves GSCSTableau.init (systemOf ([] : List (Held m)) [] 0) := by
    refine ⟨⟨init_crossIndexed.1, init_crossIndexed.2, fun r e he => ?_⟩, ⟨hc, fun r f hr _ v hv => ?_,
      fun r f hr hs => ?_, fun r f hr hd => ?_⟩, hc, ⟨0, init_dictionary⟩, fun σ => ?_, ?_⟩
    · rw [(init_row he).2]
      exact initWithConstant_reduced 0 0
    · rw [(hz hr).2] at hv
      exact absurd rfl hv
    · obtain ⟨rfl, -⟩ := hz hr
      cases hs
    · obtain ⟨rfl, -⟩ := hz hr
      cases hd
    · have ho : eval σ (systemOf ([] : List (Held m)) [] 0).objective = 0 := by
        rw [eval_objective]
        simp
      constructor
      · intro h
        refine ⟨by simp [systemOf], ?_⟩
        rw [ho, h _ _ init_dictionary, map_zero]
      · rintro ⟨-, h⟩ r f hr
        obtain ⟨rfl, rfl⟩ := hz hr
        rw [h, ho, map_zero]
    · rintro (⟨f, hf, -⟩ | hne)
      · simp [systemOf] at hf
      · obtain ⟨x, hx, -⟩ := mem_of_objective_ne hne
        cases hx
  refine ⟨⟨hsol, fun v hv => ?_, by simp, by simp, by simp, by simp, fun c marker hl => ?_,
    fun c _ => ?_⟩, by simp, fun f hf v _ => ?_, fun v hv => ?_⟩
  · rcases hv with ⟨f, hf⟩ | ⟨r, f, hr, hne⟩
    · obtain ⟨rfl, -⟩ := hz hf
      trivial
    · rw [(hz hr).2] at hne
      exact absurd rfl hne
  · simp [GSCassowarySolver.init] at hl
  · simp [GSCassowarySolver.init]
  · rw [(hz hf).2]
    exact le_refl _
  · cases hv

theorem settled_of_run (hm : m.tol = 0) (calls : List SolverCall) :
    ∀ {s : GSCassowarySolver} {held : List (Held m)}, Settled m s held →
      (∀ call ∈ calls, call.AddsOrRemoves) → CleanRun m calls s → performCalls m calls s = .ok () s' →
      ∃ held', Settled m s' held' ∧ held'.map Held.constraint = calls.foldl heldBy (held.map Held.constraint) := by
  induction calls with
  | nil =>
    intro s held h _ _ hr
    obtain ⟨-, rfl⟩ := EStateM.Result.ok.inj hr
    exact ⟨held, h, rfl⟩
  | cons call calls ih =>
    intro s held h hc hcn hr
    obtain ⟨u, s1, hca, hr⟩ := bind_eq_ok hr
    obtain ⟨held1, h1, h2⟩ := h.perform hm (hc call List.mem_cons_self) hcn.1 hca
    obtain ⟨held', h3, h4⟩ := ih h1 (fun x hx => hc x (List.mem_cons_of_mem _ hx))
      (hcn.2 s1 hca) hr
    exact ⟨held', h3, by rw [h4, h2]; rfl⟩

theorem CleanRun.front {front back : List SolverCall} : ∀ {s : GSCassowarySolver},
    CleanRun m (front ++ back) s → CleanRun m front s := by
  induction front with
  | nil => exact fun _ => trivial
  | cons call front ih => exact fun h => ⟨h.1, fun s' hs' => ih (h.2 s' hs')⟩

/-- The value a solution of `solve` gives a variable. -/
def resultForVariable (results : List (GSCSVariable × ℚ)) (v : GSCSVariable) : ℚ :=
  (results.lookup v).getD 0

theorem Optimal.congr {tol : ℚ} {cs : List GSCSConstraint} {ρ τ : GSCSVariable → ℚ}
    (h : Optimal tol cs ρ) (hρ : ∀ c ∈ cs, ∀ v ∈ c.expression.terms, ρ v = τ v) : Optimal tol cs τ := by
  have hv : ∀ c ∈ cs, c.expression.valueAt ρ = c.expression.valueAt τ := fun c hc => valueAt_congr (hρ c hc)
  have ht : totalError tol cs τ = totalError tol cs ρ := by
    unfold totalError
    refine congrArg List.sum (List.map_congr_left fun c hc => ?_)
    unfold GSCSConstraint.error
    rw [hv c hc]
  refine ⟨fun c hc hr => ?_, fun x hx => ?_⟩
  · have := h.required c hc hr
    unfold GSCSConstraint.Satisfied at this ⊢
    rwa [← hv c hc]
  · rw [ht]
    exact h.least x hx

theorem lookup_map (vs : List GSCSVariable) (values : GSCSVariable → ℚ) {v : GSCSVariable}
    (hv : v ∈ vs) : (vs.map fun v => (v, values v)).lookup v = some (values v) := by
  induction vs with
  | nil => cases hv
  | cons w vs ih =>
    rw [List.map_cons, List.lookup_cons]
    by_cases hw : v = w
    · subst hw
      simp
    · rw [beq_false_of_ne hw]
      exact ih ((List.mem_cons.mp hv).resolve_left hw)

theorem Settled.solve_optimal (h : Settled m s held) : ∃ results, solve s = .ok results s ∧
      Optimal m.tol (held.map Held.constraint) (resultForVariable results) := by
  obtain ⟨values, hr, -, hs⟩ := setExternalVariables_run s
  obtain rfl := hs h.upToDate
  refine ⟨s.externalVariables.map fun v => (v, s.values v), ?_, h.optimal.congr fun c hc v hv => ?_⟩
  · unfold solve
    rw [bind_ok hr]
    rfl
  · obtain ⟨x, hx, rfl⟩ := List.mem_map.mp hc
    unfold resultForVariable
    rw [lookup_map _ _ (h.keeps.externals x hx v hv)]
    rfl

theorem optimal_of_cleanRun (hm : m.tol = 0) (values : GSCSVariable → ℚ) (calls : List SolverCall)
    (hcalls : ∀ call ∈ calls, call.AddsOrRemoves)
    (hclean : CleanRun m calls (GSCassowarySolver.init values)) (front back : List SolverCall)
    (hfront : calls = front ++ back) (s : GSCassowarySolver)
    (hrun : performCalls m front (GSCassowarySolver.init values) = .ok () s) :
    Optimal m.tol (heldAfter front) s.values ∧ ∃ results, solve s = .ok results s ∧
      Optimal m.tol (heldAfter front) (resultForVariable results) := by
  subst hfront
  obtain ⟨held, h1, h2⟩ := settled_of_run hm front (init_settled m values)
    (fun call hc => hcalls call (List.mem_append_left _ hc)) hclean.front hrun
  rw [show heldAfter front = held.map Held.constraint from h2.symm]
  exact ⟨h1.optimal, h1.solve_optimal⟩

/-! ## Two histories -/

variable {m' : Machine} {calls calls' : List SolverCall}

/-- Additions and clean removals lead from a fresh solver to the state. -/
structure Reaches (m : Machine) (calls : List SolverCall) (s : GSCassowarySolver) : Prop where
  exact : m.tol = 0
  addsOrRemoves : ∀ call ∈ calls, call.AddsOrRemoves
  run : ∃ values, CleanRun m calls (.init values) ∧ performCalls m calls (.init values) = .ok () s

theorem Reaches.optimal (h : Reaches m calls s) : Optimal 0 (heldAfter calls) s.values := by
  obtain ⟨values, hcn, hr⟩ := h.run
  obtain ⟨held, hs, hh⟩ := settled_of_run h.exact calls (init_settled m values) h.addsOrRemoves hcn hr
  rw [show heldAfter calls = held.map Held.constraint from hh.symm, ← h.exact]
  exact hs.optimal

theorem totalError_perm {cs cs' : List GSCSConstraint} (hp : cs.Perm cs') (ρ : GSCSVariable → ℚ) :
    totalError 0 cs ρ = totalError 0 cs' ρ := (hp.map _).sum_eq

theorem Optimal.perm {cs cs' : List GSCSConstraint} {ρ : GSCSVariable → ℚ} (h : Optimal 0 cs ρ)
    (hp : cs.Perm cs') : Optimal 0 cs' ρ where
  required c hc := h.required c (hp.mem_iff.mpr hc)
  least τ hτ := by
    rw [← totalError_perm hp, ← totalError_perm hp]
    exact h.least τ fun c hc => hτ c (hp.mem_iff.mp hc)

section Example

/-- Exact arithmetic, with sets enumerated as they are stored. -/
def exactMachine : Machine := ⟨0, fun l => l, fun l => List.Perm.refl l, 10⟩

/-- A required constraint of the given type on `x - c`. -/
def requiredConstraint (number : Nat) (type : GSCSConstraintType) (c : ℚ) : GSCSConstraint where
  address := .given number
  type := type
  strength := .strengthRequired
  expression := ⟨number, -c, .singleton (.external 0) 1⟩
  editVariable := none
  external := by
    intro v hv
    rw [mem_termVariables] at hv
    have : v = .external 0 := by simpa [← AList.insert_empty] using hv
    rw [this]
    rfl

/-- `x = 5`, `x = 5` again, `2 ≤ x`, and the first taken back. -/
def redundantCalls : List SolverCall :=
  [.addConstraint (requiredConstraint 1 .linear 5), .addConstraint (requiredConstraint 2 .linear 5),
    .addConstraint (requiredConstraint 3 .linearInequity 2),
    .removeConstraint (requiredConstraint 1 .linear 5)]

/-- The slack row of `2 ≤ x` is chosen for the marker of the first equation, and not the dummy row of
the second. -/
theorem not_optimal_after_removal : ∃ s,
    performCalls exactMachine redundantCalls (GSCassowarySolver.init fun _ => 0) = .ok () s ∧
      ¬ Optimal exactMachine.tol (heldAfter redundantCalls) s.values := by
  refine ⟨_, eq_ok_of_returned (by decide +kernel), fun h => ?_⟩
  have hs := h.required (requiredConstraint 2 .linear 5) (by decide +kernel) (by decide +kernel)
  unfold GSCSConstraint.Satisfied at hs
  rw [if_neg (by decide)] at hs
  exact absurd hs (by decide +kernel)

/-- `x = 5`, `2 ≤ x`, and the equation taken back: no dummy row mentions its marker. -/
def plainCalls : List SolverCall :=
  [.addConstraint (requiredConstraint 1 .linear 5),
    .addConstraint (requiredConstraint 3 .linearInequity 2),
    .removeConstraint (requiredConstraint 1 .linear 5)]

theorem plainCalls_clean : CleanRun exactMachine plainCalls (GSCassowarySolver.init fun _ => 0) := by
  refine ⟨trivial, fun s1 h1 => ⟨trivial, fun s2 h2 => ⟨?_, fun s3 _ => trivial⟩⟩⟩
  obtain rfl := stateOf_of_ok h1
  obtain rfl := stateOf_of_ok h2
  intro marker hm _ _ hex
  obtain rfl : GSCSVariable.dummy 1 = marker := Option.some.inj (Eq.trans (by decide +kernel) hm)
  exact absurd hex (by decide +kernel)

theorem optimal_after_plainCalls : ∃ s,
    performCalls exactMachine plainCalls (GSCassowarySolver.init fun _ => 0) = .ok () s ∧
      Optimal exactMachine.tol (heldAfter plainCalls) s.values := by
  have hr := eq_ok_of_returned
    (show returned (performCalls exactMachine plainCalls (GSCassowarySolver.init fun _ => 0)) = true by
      decide +kernel)
  exact ⟨_, hr, (optimal_of_cleanRun rfl _ plainCalls
    (by simp [plainCalls, SolverCall.AddsOrRemoves]) plainCalls_clean plainCalls []
    (List.append_nil _).symm _ hr).1⟩

end Example

end GnustepGui.Cassowary
