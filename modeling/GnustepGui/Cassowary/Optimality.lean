import GnustepGui.Cassowary.RemoveConstraint

/-!
# Optimal values

What a solver is for: values of the external variables that satisfy the required constraints and
among those have the least sum of strength times error (`Optimal`). A tableau that represents the
held constraints and whose objective row has no negative coefficient gives optimal values
(`Keeps.optimal`).
-/

namespace GnustepGui.Cassowary

open GSCSLinearExpression GSCSTableau GSCassowarySolver Simplex Simplex.Form StateExcept

/-! ## The purpose -/

/-- The value of an expression for given values of its variables. -/
def GSCSLinearExpression.valueAt (e : GSCSLinearExpression) (ρ : GSCSVariable → ℚ) : ℚ :=
  e.constant + (e.termVariables.map fun v => e.coefficientForTerm v * ρ v).sum

namespace GSCSConstraint

def Satisfied (ρ : GSCSVariable → ℚ) (c : GSCSConstraint) : Prop :=
  if c.isInequality then 0 ≤ c.expression.valueAt ρ else c.expression.valueAt ρ = 0

/-- By how much the values miss a constraint. -/
def error (ρ : GSCSVariable → ℚ) (c : GSCSConstraint) : ℚ :=
  if c.isInequality then max (-c.expression.valueAt ρ) 0 else |c.expression.valueAt ρ|

/-- The constraint with another constant. -/
def shifted (c : GSCSConstraint) (offset : ℚ) : GSCSConstraint :=
  { c with
    expression := c.expression.setConstant (c.expression.constant + offset)
    external := c.external }

@[simp] theorem shifted_zero (c : GSCSConstraint) : c.shifted 0 = c := by
  simp [shifted, setConstant]

end GSCSConstraint

def SatisfiesRequired (tol : ℚ) (cs : List GSCSConstraint) (ρ : GSCSVariable → ℚ) : Prop :=
  ∀ c ∈ cs, c.isRequired tol = true → c.Satisfied ρ

/-- The sum of strength times error over the constraints that are not required. -/
def totalError (tol : ℚ) (cs : List GSCSConstraint) (ρ : GSCSVariable → ℚ) : ℚ :=
  (cs.map fun c => if c.isRequired tol then 0 else c.strength.strength * c.error ρ).sum

structure Optimal (tol : ℚ) (cs : List GSCSConstraint) (ρ : GSCSVariable → ℚ) : Prop where
  required : SatisfiesRequired tol cs ρ
  least : ∀ τ, SatisfiesRequired tol cs τ → totalError tol cs ρ ≤ totalError tol cs τ

theorem valueAt_eq_eval (e : GSCSLinearExpression) (ρ : GSCSVariable → ℚ) : e.valueAt ρ = eval ρ e.form := by
  conv_rhs => rw [form_eq_sum e]
  rw [map_add, map_list_sum, List.map_map]
  unfold valueAt
  congr 1
  · rw [eval_eq_const fun _ h => absurd rfl h]
  · congr 1
    refine List.map_congr_left fun v _ => ?_
    simp

variable {m : Machine}

namespace Held

/-- The constraint as it stands after the suggestions. -/
def current (h : Held m) : GSCSConstraint := h.constraint.shifted h.offset

theorem eval_form (h : Held m) (σ : GSCSVariable → ℚ) :
    eval σ h.form = h.current.expression.valueAt σ + eval σ h.role.form := by
  unfold form
  rw [map_add]
  congr 1
  rw [valueAt_eq_eval]
  have : h.current.expression.form = (h.offset, 0) + h.constraint.expression.form :=
    Prod.ext (add_comm _ _) (by simp [current, GSCSConstraint.shifted, GSCSLinearExpression.form])
  rw [this]

end Held

/-! ## The variables of a role -/

namespace Role

theorem eval_form (role : Role) (σ : GSCSVariable → ℚ) : eval σ role.form = match role with
    | requiredInequality s => -σ (.slack s)
    | inequality s em => σ (.slack em) - σ (.slack s)
    | requiredEquality d => σ (.dummy d)
    | equality ep em => σ (.slack em) - σ (.slack ep) := by
  cases role <;> simp [form]

/-- Values of the variables of a role for a given value of the expression. -/
def assign : Role → ℚ → GSCSVariable → ℚ
  | requiredInequality _, e, _ => max e 0
  | inequality s _, e, v => if v = .slack s then max e 0 else max (-e) 0
  | requiredEquality _, _, _ => 0
  | equality ep _, e, v => if v = .slack ep then max e 0 else max (-e) 0

theorem assign_feasible (role : Role) (e : ℚ) (v : GSCSVariable) : 0 ≤ role.assign e v := by
  cases role <;> simp only [assign] <;> (try split) <;> simp

theorem assign_dummy {role : Role} {v : GSCSVariable} (h : v ∈ role.own) (hd : v.isDummy = true)
    (e : ℚ) : role.assign e v = 0 := by
  cases role with
  | requiredEquality d => rfl
  | _ =>
    exfalso
    simp only [own, List.mem_cons, List.not_mem_nil, or_false] at h
    rcases h with rfl | rfl <;> cases hd

theorem errors_of_required {role : Role} {c : GSCSConstraint} (h : role.Fits m c)
    (hr : c.isRequired m.tol = true) : role.errors = [] := by
  cases role with
  | requiredInequality s => rfl
  | requiredEquality d => rfl
  | inequality s em =>
    rw [h.2] at hr
    cases hr
  | equality ep em =>
    rw [h.2] at hr
    cases hr

theorem max_sub_max (e : ℚ) : max e 0 - max (-e) 0 = e := by
  rcases le_total 0 e with h | h
  · rw [max_eq_left h, max_eq_right (by linarith)]
    ring
  · rw [max_eq_right h, max_eq_left (by linarith)]
    ring

theorem max_add_max (e : ℚ) : max e 0 + max (-e) 0 = |e| := by
  rcases le_total 0 e with h | h
  · rw [max_eq_left h, max_eq_right (by linarith), abs_of_nonneg h]
    ring
  · rw [max_eq_right h, max_eq_left (by linarith), abs_of_nonpos h]
    ring

end Role

namespace Held

variable {h : Held m} {σ : GSCSVariable → ℚ}

/-- With the assigned values the equation holds, if the constraint is satisfied or not required. -/
theorem eval_assigned (hn : h.role.own.Nodup)
    (hσ : ∀ v ∈ h.role.own, σ v = h.role.assign (h.current.expression.valueAt σ) v)
    (hreq : h.constraint.isRequired m.tol = true → h.current.Satisfied σ) : eval σ h.form = 0 := by
  rw [eval_form, Role.eval_form]
  obtain ⟨e, he⟩ : ∃ e, e = h.current.expression.valueAt σ := ⟨_, rfl⟩
  unfold GSCSConstraint.Satisfied at hreq
  rw [← he] at hσ hreq ⊢
  have hf := h.fits
  cases hr : h.role with
  | requiredInequality s =>
    rw [hr] at hσ hf
    have hp : 0 ≤ e := by
      have := hreq hf.2
      rwa [if_pos (show h.current.isInequality = true from hf.1)] at this
    simp only [Role.own, List.forall_mem_cons, Role.assign] at hσ
    simp only [hσ.1]
    rw [max_eq_left hp]
    ring
  | inequality s em =>
    rw [hr] at hσ hn
    simp only [Role.own, List.forall_mem_cons, Role.assign] at hσ
    simp only [Role.own, List.nodup_cons, List.mem_singleton] at hn
    simp only [hσ.1, hσ.2.1, if_neg (Ne.symm hn.1), if_true]
    linarith [Role.max_sub_max e]
  | requiredEquality d =>
    rw [hr] at hσ hf
    have hz : e = 0 := by
      have := hreq hf.2
      rwa [show h.current.isInequality = false from hf.1, if_neg Bool.false_ne_true] at this
    simp only [Role.own, List.forall_mem_cons, Role.assign] at hσ
    simp only [hσ.1, hz, add_zero]
  | equality ep em =>
    rw [hr] at hσ hn
    simp only [Role.own, List.forall_mem_cons, Role.assign] at hσ
    simp only [Role.own, List.nodup_cons, List.mem_singleton] at hn
    simp only [hσ.1, hσ.2.1, if_neg (Ne.symm hn.1), if_true]
    linarith [Role.max_sub_max e]

theorem satisfied (hσ : eval σ h.form = 0) (hfs : signs.Feasible σ)
    (hreq : h.constraint.isRequired m.tol = true) : h.current.Satisfied σ := by
  rw [eval_form, Role.eval_form] at hσ
  unfold GSCSConstraint.Satisfied
  have hf := h.fits
  cases hr : h.role with
  | requiredInequality s =>
    rw [hr] at hσ hf
    rw [if_pos (show h.current.isInequality = true from hf.1)]
    have := hfs.1 (.slack s) rfl
    simp only at hσ
    linarith
  | requiredEquality d =>
    rw [hr] at hσ hf
    rw [show h.current.isInequality = false from hf.1, if_neg Bool.false_ne_true]
    have := hfs.2 (.dummy d) rfl
    simp only at hσ
    linarith
  | inequality s em =>
    rw [hr] at hf
    rw [hf.2] at hreq
    cases hreq
  | equality ep em =>
    rw [hr] at hf
    rw [hf.2] at hreq
    cases hreq

theorem error_le (hσ : eval σ h.form = 0) (hfs : signs.Feasible σ) (hreq : h.constraint.isRequired m.tol = false) :
    h.current.error σ ≤ (h.role.errors.map σ).sum := by
  rw [eval_form, Role.eval_form] at hσ
  unfold GSCSConstraint.error
  have hf := h.fits
  cases hr : h.role with
  | requiredInequality s =>
    rw [hr] at hf
    rw [hf.2] at hreq
    cases hreq
  | requiredEquality d =>
    rw [hr] at hf
    rw [hf.2] at hreq
    cases hreq
  | inequality s em =>
    rw [hr] at hσ hf
    rw [if_pos (show h.current.isInequality = true from hf.1)]
    have h1 := hfs.1 (.slack s) rfl
    have h2 := hfs.1 (.slack em) rfl
    simp only [Role.errors, List.map_cons, List.map_nil, List.sum_cons, List.sum_nil] at hσ ⊢
    exact max_le (by linarith) (by linarith)
  | equality ep em =>
    rw [hr] at hσ hf
    rw [show h.current.isInequality = false from hf.1, if_neg Bool.false_ne_true]
    have h1 := hfs.1 (.slack ep) rfl
    have h2 := hfs.1 (.slack em) rfl
    simp only [Role.errors, List.map_cons, List.map_nil, List.sum_cons, List.sum_nil] at hσ ⊢
    exact abs_le.mpr ⟨by linarith, by linarith⟩

theorem error_assigned (hn : h.role.own.Nodup)
    (hσ : ∀ v ∈ h.role.own, σ v = h.role.assign (h.current.expression.valueAt σ) v)
    (hreq : h.constraint.isRequired m.tol = false) : (h.role.errors.map σ).sum = h.current.error σ := by
  unfold GSCSConstraint.error
  obtain ⟨e, he⟩ : ∃ e, e = h.current.expression.valueAt σ := ⟨_, rfl⟩
  rw [← he] at hσ ⊢
  have hf := h.fits
  cases hr : h.role with
  | requiredInequality s =>
    rw [hr] at hf
    rw [hf.2] at hreq
    cases hreq
  | requiredEquality d =>
    rw [hr] at hf
    rw [hf.2] at hreq
    cases hreq
  | inequality s em =>
    rw [hr] at hσ hn hf
    rw [if_pos (show h.current.isInequality = true from hf.1)]
    simp only [Role.own, List.forall_mem_cons, Role.assign] at hσ
    simp only [Role.own, List.nodup_cons, List.mem_singleton] at hn
    simp [Role.errors, hσ.2.1, Ne.symm hn.1]
  | equality ep em =>
    rw [hr] at hσ hn hf
    rw [show h.current.isInequality = false from hf.1, if_neg Bool.false_ne_true]
    simp only [Role.own, List.forall_mem_cons, Role.assign] at hσ
    simp only [Role.own, List.nodup_cons, List.mem_singleton] at hn
    simp only [Role.errors, List.map_cons, List.map_nil, List.sum_cons, List.sum_nil, hσ.1, hσ.2.1,
      if_neg (Ne.symm hn.1), if_true, add_zero]
    exact Role.max_add_max e

theorem eval_cost (h : Held m) (σ : GSCSVariable → ℚ) :
    eval σ h.cost = h.constraint.strength.strength * (h.role.errors.map σ).sum := by
  unfold cost
  rw [map_smul, map_list_sum, List.map_map, smul_eq_mul]
  congr 3
  funext v
  simp

end Held

theorem eval_objective (held : List (Held m)) (extra : List (Form GSCSVariable ℚ)) (κ : ℚ)
    (σ : GSCSVariable → ℚ) : eval σ (systemOf held extra κ).objective =
      κ + (held.map fun h => h.constraint.strength.strength * (h.role.errors.map σ).sum).sum := by
  unfold systemOf
  rw [map_add, map_list_sum, List.map_map, eval_eq_const fun _ h => absurd rfl h]
  congr 2
  exact List.map_congr_left fun h _ => h.eval_cost σ

/-! ## Minimal objective rows -/

/-- The objective row has no negative coefficient of a slack variable. -/
def Minimised (T : GSCSTableau) : Prop :=
  ∀ f, T.dictionary .objective = some f → ∀ v, v.isPivotable = true → 0 ≤ f.2 v

variable {T : GSCSTableau} {S : System GSCSVariable ℚ}

theorem Solves.basic_equations (h : Solves T S) : ∀ f ∈ S.equations, eval T.dictionary.basic f = 0 :=
  ((h.represents.solution _).mp h.sound.canonical.solution_basic).1

/-- The basic solution has the least objective of all feasible solutions. -/
theorem Solves.minimal (h : Solves T S) (hm : Minimised T) {σ : GSCSVariable → ℚ}
    (hσ : ∀ f ∈ S.equations, eval σ f = 0) (hfs : signs.Feasible σ) :
    eval T.dictionary.basic S.objective ≤ eval σ S.objective := by
  obtain ⟨f, hf⟩ := h.represents.row
  have hb := ((h.represents.solution _).mp h.sound.canonical.solution_basic).2
  have ho : S.objective.2 .objective = 0 := by
    by_contra hne
    exact h.represents.apart (Or.inr hne)
  have hs : T.dictionary.Solution (Function.update σ .objective (eval σ S.objective)) := by
    rw [h.represents.solution]
    refine ⟨fun g hg => ?_, ?_⟩
    · rw [eval_update_of_zero, hσ g hg]
      by_contra hne
      exact h.represents.apart (Or.inl ⟨g, hg, hne⟩)
    · rw [Function.update_self, eval_update_of_zero ho]
  have hfs' : signs.Feasible (Function.update σ .objective (eval σ S.objective)) := by
    refine ⟨fun v hv => ?_, fun v hv => ?_⟩
    · rw [Function.update_of_ne]
      · exact hfs.1 v hv
      · rintro rfl
        cases hv
    · rw [Function.update_of_ne]
      · exact hfs.2 v hv
      · rintro rfl
        cases hv
  have hle := const_le (h.tidy.closed _ f hf (Or.inr rfl)) (hm f hf) hfs'
  rw [← hs _ f hf, Function.update_self, ← Dictionary.basic_row hf] at hle
  rwa [← hb]

/-! ## Values of all variables for given external ones -/

/-- The extra equations can be solved for any values of the external variables. -/
def Solvable (extra : List (Form GSCSVariable ℚ)) : Prop :=
  ∀ τ : GSCSVariable → ℚ, ∃ σ, (∀ v, v.isExternal = true → σ v = τ v) ∧ signs.Feasible σ ∧
    ∀ f ∈ extra, eval σ f = 0

theorem solvable_nil : Solvable [] := by
  intro τ
  have hz : ∀ v, signs.Restricted v → (if v.isExternal then τ v else 0) = 0 := by
    intro v hv
    rw [internal_of_restricted ((signs_restricted v).mp hv)]
    exact if_neg Bool.false_ne_true
  exact ⟨fun v => if v.isExternal then τ v else 0, fun v hv => if_pos hv,
    ⟨fun v hv => (hz v (Or.inl hv)).ge, fun v hv => hz v (Or.inr hv)⟩, by simp⟩

theorem find?_own {held : List (Held m)} (hn : (held.flatMap fun h => h.role.own).Nodup)
    {h : Held m} (hin : h ∈ held) {v : GSCSVariable} (hv : v ∈ h.role.own) :
    held.find? (fun h => v ∈ h.role.own) = some h := by
  induction held with
  | nil => cases hin
  | cons x held ih =>
    rw [List.flatMap_cons, List.nodup_append'] at hn
    rcases List.mem_cons.mp hin with rfl | hin
    · exact List.find?_cons_of_pos (by simpa using hv)
    · rw [List.find?_cons_of_neg]
      · exact ih hn.2.1 hin
      · intro hx
        simp only [decide_eq_true_eq] at hx
        exact hn.2.2 hx (List.mem_flatMap.mpr ⟨h, hin, hv⟩)

variable {s : GSCassowarySolver} {held : List (Held m)} {extra : List (Form GSCSVariable ℚ)} {κ : ℚ}

variable {c : GSCSConstraint}

theorem valueAt_congr {σ τ : GSCSVariable → ℚ}
    (h : ∀ v ∈ c.expression.terms, σ v = τ v) : c.expression.valueAt σ = c.expression.valueAt τ := by
  unfold GSCSLinearExpression.valueAt
  congr 2
  refine List.map_congr_left fun v hv => ?_
  rw [h v ((mem_termVariables _ _).mp hv)]

theorem external_of_mem {v : GSCSVariable} (h : v ∈ c.expression.terms) :
    v.isExternal = true := c.external v ((mem_termVariables _ _).mpr h)

/-- A feasible solution with the least error variables, for values that satisfy what is required. -/
theorem Keeps.assignment (h : Keeps m s held extra κ) (hextra : Solvable extra)
    {τ : GSCSVariable → ℚ} (hτ : SatisfiesRequired m.tol (held.map Held.current) τ) :
    ∃ σ, (∀ v, v.isExternal = true → σ v = τ v) ∧ signs.Feasible σ ∧
      (∀ f ∈ (systemOf held extra κ).equations, eval σ f = 0) ∧ ∀ x ∈ held, x.constraint.isRequired m.tol = false →
        (x.role.errors.map σ).sum = x.current.error τ := by
  obtain ⟨σ0, h1, h2, h3⟩ := hextra τ
  obtain ⟨σ, hσ⟩ : ∃ σ : GSCSVariable → ℚ, σ = fun v =>
      (held.find? fun x => v ∈ x.role.own).elim (σ0 v) fun x =>
        x.role.assign (x.current.expression.valueAt τ) v := ⟨_, rfl⟩
  have ho : ∀ x ∈ held, ∀ v ∈ x.role.own, σ v = x.role.assign (x.current.expression.valueAt τ) v := by
    intro x hx v hv
    rw [hσ]
    simp only [find?_own h.nodup hx hv, Option.elim_some]
  have hother : ∀ v, (∀ x ∈ held, v ∉ x.role.own) → σ v = σ0 v := by
    intro v hv
    have : held.find? (fun x => v ∈ x.role.own) = none := by
      rw [List.find?_eq_none]
      exact fun x hx => by simpa using hv x hx
    rw [hσ]
    simp only [this, Option.elim_none]
  have hexternal : ∀ v, v.isExternal = true → σ v = τ v := by
    intro v hv
    rw [hother v fun x _ hm => ?_, h1 v hv]
    rw [internal_of_restricted (Role.restricted_of_mem hm)] at hv
    cases hv
  have hval : ∀ x ∈ held, x.current.expression.valueAt σ = x.current.expression.valueAt τ :=
    fun x _ => valueAt_congr fun v hv => hexternal v (external_of_mem hv)
  have hc : ∀ v, (∃ x ∈ held, v ∈ x.role.own) ∨ σ v = σ0 v := by
    intro v
    by_cases hv : ∃ x ∈ held, v ∈ x.role.own
    · exact Or.inl hv
    · push Not at hv
      exact Or.inr (hother v hv)
  have ha : ∀ x ∈ held, ∀ v ∈ x.role.own, σ v = x.role.assign (x.current.expression.valueAt σ) v := by
    intro x hx v hv
    rw [hval x hx]
    exact ho x hx v hv
  have hnd : ∀ x ∈ held, x.role.own.Nodup := (List.nodup_flatMap.mp h.nodup).1
  refine ⟨σ, hexternal, ⟨fun v hv => ?_, fun v hv => ?_⟩, fun f hf => ?_, fun x hx hr => ?_⟩
  · rcases hc v with ⟨x, hx, hm⟩ | he
    · rw [ho x hx v hm]
      exact x.role.assign_feasible _ _
    · rw [he]
      exact h2.1 v hv
  · rcases hc v with ⟨x, hx, hm⟩ | he
    · rw [ho x hx v hm]
      exact Role.assign_dummy hm hv _
    · rw [he]
      exact h2.2 v hv
  · rcases List.mem_append.mp hf with hf | hf
    · obtain ⟨x, hx, rfl⟩ := List.mem_map.mp hf
      refine Held.eval_assigned (hnd x hx) (ha x hx) fun hr => ?_
      have := hτ x.current (List.mem_map_of_mem hx) hr
      unfold GSCSConstraint.Satisfied at this ⊢
      rwa [hval x hx]
    · rw [← h3 f hf]
      exact eval_congr fun v hv => hother v (h.extraApart f hf v hv).2
  · rw [Held.error_assigned (hnd x hx) (ha x hx) hr]
    unfold GSCSConstraint.error
    rw [hval x hx]

/-! ## Optimality -/

theorem Role.pair {role : Role} (hf : role.Fits m c)
    (hr : c.isRequired m.tol = false) (hn : role.own.Nodup) : ∃ a b, a ≠ b ∧
      (a ∈ role.own ∧ a.isDummy = false) ∧ (b ∈ role.own ∧ b.isDummy = false) ∧ role.form.2 a + role.form.2 b = 0 ∧
      0 < ((role.errors.map (term : _ → Form GSCSVariable ℚ)).sum).2 a +
        ((role.errors.map (term : _ → Form GSCSVariable ℚ)).sum).2 b := by
  cases role with
  | requiredInequality s =>
    rw [hf.2] at hr
    cases hr
  | requiredEquality d =>
    rw [hf.2] at hr
    cases hr
  | inequality s em =>
    simp only [own, List.nodup_cons, List.mem_singleton] at hn
    refine ⟨.slack s, .slack em, hn.1, ⟨by simp [own], rfl⟩, ⟨by simp [own], rfl⟩, ?_, ?_⟩
    · simp [form, term_coeff_self, term_coeff_ne hn.1, term_coeff_ne (Ne.symm hn.1)]
    · simp [errors, term_coeff_self, term_coeff_ne hn.1]
  | equality ep em =>
    simp only [own, List.nodup_cons, List.mem_singleton] at hn
    refine ⟨.slack ep, .slack em, hn.1, ⟨by simp [own], rfl⟩, ⟨by simp [own], rfl⟩, ?_, ?_⟩
    · simp [form, term_coeff_self, term_coeff_ne hn.1, term_coeff_ne (Ne.symm hn.1)]
    · simp [errors, term_coeff_self, term_coeff_ne hn.1, term_coeff_ne (Ne.symm hn.1)]

theorem feasible_grown {β : GSCSVariable → ℚ} (h : signs.Feasible β) {a b : GSCSVariable}
    (ha : a.isDummy = false) (hb : b.isDummy = false) (hab : a ≠ b) :
    signs.Feasible (Function.update (Function.update β a (β a + 1)) b (β b + 1)) := by
  refine ⟨fun v hv => ?_, fun v hv => ?_⟩
  · have hp := h.1 v hv
    by_cases hvb : v = b
    · subst hvb
      rw [Function.update_self]
      linarith
    · rw [Function.update_of_ne hvb]
      by_cases hva : v = a
      · subst hva
        rw [Function.update_self]
        linarith
      · rwa [Function.update_of_ne hva]
  · have hvb : v ≠ b := by
      rintro rfl
      rw [signs_dummy, hb] at hv
      cases hv
    have hva : v ≠ a := by
      rintro rfl
      rw [signs_dummy, ha] at hv
      cases hv
    rw [Function.update_of_ne hvb, Function.update_of_ne hva]
    exact h.2 v hv

theorem Keeps.strength_nonneg (h : Keeps m s held extra κ) (hm : Minimised s.tableau) {x : Held m}
    (hx : x ∈ held) (hr : x.constraint.isRequired m.tol = false) : 0 ≤ x.constraint.strength.strength := by
  obtain ⟨before, after, rfl⟩ := List.append_of_mem hx
  have hp : (before ++ x :: after).Perm (x :: (before ++ after)) := List.perm_middle
  obtain ⟨a, b, hab, ⟨ha, had⟩, ⟨hb, hbd⟩, hfr, he⟩ := Role.pair x.fits hr (h.own_nodup hp).1
  obtain ⟨β, hβ⟩ : ∃ β, β = s.tableau.dictionary.basic := ⟨_, rfl⟩
  have hfs := h.solves.tidy.feasible_basic
  have heq := h.solves.basic_equations
  rw [← hβ] at hfs heq
  have hev : ∀ f : Form GSCSVariable ℚ, eval (Function.update (Function.update β a (β a + 1)) b (β b + 1)) f =
        eval β f + (f.2 a + f.2 b) := by
    intro f
    rw [eval_update, eval_update, Function.update_of_ne hab.symm]
    ring
  have hrs : ∀ {v}, v ∈ x.role.own → ∀ f ∈ (systemOf (before ++ after) extra κ).equations, f.2 v = 0 := by
    intro v hv f hf
    by_contra hne
    exact h.not_mentioned_rest hp hv (Or.inl ⟨f, hf, hne⟩)
  have ho : ∀ {v}, v ∈ x.role.own → (systemOf (before ++ after) extra κ).objective.2 v = 0 := by
    intro v hv
    by_contra hne
    exact h.not_mentioned_rest hp hv (Or.inr hne)
  have hle := h.solves.minimal hm (fun f hf => ?_) (feasible_grown hfs had hbd hab)
  · rw [← hβ, hev, systemOf_objective hp] at hle
    simp only [Prod.snd_add, Finsupp.add_apply, ho ha, ho hb, zero_add, Held.cost, Prod.smul_snd,
      Finsupp.smul_apply, smul_eq_mul] at hle
    rw [← mul_add] at hle
    exact nonneg_of_mul_nonneg_left (by linarith) he
  · rw [hev, heq f hf, zero_add]
    rcases List.mem_cons.mp ((systemOf_perm hp).mem_iff.mp hf) with rfl | hf
    · rw [Held.coefficient_of_mem ha, Held.coefficient_of_mem hb, hfr]
    · rw [hrs ha f hf, hrs hb f hf, add_zero]

theorem Keeps.optimal (h : Keeps m s held extra κ) (hextra : Solvable extra)
    (hm : Minimised s.tableau) {ρ : GSCSVariable → ℚ}
    (hρ : ∀ v ∈ s.externalVariables, ρ v = s.tableau.dictionary.basic v) : Optimal m.tol (held.map Held.current) ρ := by
  obtain ⟨β, hβ⟩ : ∃ β, β = s.tableau.dictionary.basic := ⟨_, rfl⟩
  have hf := h.solves.tidy.feasible_basic
  have heq := h.solves.basic_equations
  rw [← hβ] at hf heq hρ
  have hfr : ∀ x ∈ held, eval β x.form = 0 := fun x hx =>
    heq _ (List.mem_append_left _ (List.mem_map_of_mem hx))
  have hval : ∀ x ∈ held, x.current.expression.valueAt ρ = x.current.expression.valueAt β :=
    fun x hx => valueAt_congr fun v hv => hρ v (h.externals x hx v hv)
  have hs : ∀ x ∈ held, x.constraint.isRequired m.tol = true → x.current.Satisfied ρ := by
    intro x hx hr
    have := Held.satisfied (hfr x hx) hf hr
    unfold GSCSConstraint.Satisfied at this ⊢
    rwa [hval x hx]
  refine ⟨fun c hc hr => ?_, fun τ hτ => ?_⟩
  · obtain ⟨x, hx, rfl⟩ := List.mem_map.mp hc
    exact hs x hx hr
  · obtain ⟨σ, -, hσfeasible, hσeqs, hσerr⟩ := h.assignment hextra hτ
    have hle := h.solves.minimal hm hσeqs hσfeasible
    rw [← hβ, eval_objective, eval_objective, add_le_add_iff_left] at hle
    unfold totalError
    rw [List.map_map, List.map_map]
    refine le_trans (List.sum_le_sum fun x hx => ?_) (hle.trans (List.sum_le_sum fun x hx => ?_))
    · show (if x.constraint.isRequired m.tol then 0 else x.constraint.strength.strength *
        x.current.error ρ) ≤ _
      cases hr : x.constraint.isRequired m.tol with
      | true => rw [if_pos rfl, Role.errors_of_required x.fits hr]; simp
      | false =>
        rw [if_neg Bool.false_ne_true]
        refine mul_le_mul_of_nonneg_left ?_ (h.strength_nonneg hm hx hr)
        have := Held.error_le (hfr x hx) hf hr
        unfold GSCSConstraint.error at this ⊢
        rwa [hval x hx]
    · show _ ≤ (if x.constraint.isRequired m.tol then 0 else x.constraint.strength.strength *
        x.current.error τ)
      cases hr : x.constraint.isRequired m.tol with
      | true => rw [if_pos rfl, Role.errors_of_required x.fits hr]; simp
      | false => rw [if_neg Bool.false_ne_true, hσerr x hx hr]

end GnustepGui.Cassowary
