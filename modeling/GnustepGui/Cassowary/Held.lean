import GnustepGui.Cassowary.Optimize
import GnustepGui.Library.System

/-!
# The constraints a solver holds

A held constraint is a constraint with the slack, dummy and error variables it was given (`Role`) and
what suggestions have added to its constant. The held constraints are a linear system:

    required inequality    0 = expression - slack
    inequality             0 = expression - slack + eMinus
    required equality      0 = expression + dummy
    equality               0 = expression - ePlus + eMinus

and the objective is the sum of strength times error variables. `Keeps s held extra κ` is the
invariant: the tableau of `s` is tidy and represents this system, with `extra` equations and with `κ`
added to the objective, and the maps of markers and of error variables agree with it.
-/

namespace GnustepGui.Cassowary

open GSCSLinearExpression GSCSTableau GSCassowarySolver Simplex Simplex.Form

theorem internal_of_restricted {v : GSCSVariable} (h : v.isRestricted = true) : v.isExternal = false := by
  cases v <;> first | rfl | cases h

/-- The variables `expressionForNewConstraint:` gives a constraint, by their numbers. -/
inductive Role
  | requiredInequality (slack : Nat)
  | inequality (slack eMinus : Nat)
  | requiredEquality (dummy : Nat)
  | equality (ePlus eMinus : Nat)
deriving DecidableEq

namespace Role

def Fits (m : Machine) (c : GSCSConstraint) : Role → Prop
  | requiredInequality _ => c.isInequality = true ∧ c.isRequired m.tol = true
  | inequality _ _ => c.isInequality = true ∧ c.isRequired m.tol = false
  | requiredEquality _ => c.isInequality = false ∧ c.isRequired m.tol = true
  | equality _ _ => c.isInequality = false ∧ c.isRequired m.tol = false

def marker : Role → GSCSVariable
  | requiredInequality s => .slack s
  | inequality s _ => .slack s
  | requiredEquality d => .dummy d
  | equality ep _ => .slack ep

def errors : Role → List GSCSVariable
  | requiredInequality _ => []
  | inequality _ em => [.slack em]
  | requiredEquality _ => []
  | equality ep em => [.slack ep, .slack em]

def own : Role → List GSCSVariable
  | requiredInequality s => [.slack s]
  | inequality s em => [.slack s, .slack em]
  | requiredEquality d => [.dummy d]
  | equality ep em => [.slack ep, .slack em]

noncomputable def form : Role → Form GSCSVariable ℚ
  | requiredInequality s => -term (.slack s)
  | inequality s em => term (.slack em) - term (.slack s)
  | requiredEquality d => term (.dummy d)
  | equality ep em => term (.slack em) - term (.slack ep)

variable {role : Role} {v : GSCSVariable}

theorem marker_mem (role : Role) : role.marker ∈ role.own := by
  cases role <;> simp [marker, own]

theorem errors_subset (role : Role) : role.errors ⊆ role.own := by
  cases role <;> simp [errors, own]

theorem restricted_of_mem (h : v ∈ role.own) : v.isRestricted = true := by
  cases role <;> simp [own] at h <;> (try rcases h with rfl | rfl) <;>
    simp_all [GSCSVariable.isRestricted, GSCSVariable.type]

theorem pivotable_of_mem_errors (h : v ∈ role.errors) : v.isPivotable = true := by
  cases role <;> simp [errors] at h <;> (try rcases h with rfl | rfl) <;>
    simp_all [GSCSVariable.isPivotable, GSCSVariable.type]

theorem mem_of_form_ne (h : role.form.2 v ≠ 0) : v ∈ role.own := by
  by_contra hv
  apply h
  cases role <;> simp [own] at hv <;> simp [form, term, Finsupp.single_apply] <;> grind

theorem form_marker (hn : role.own.Nodup) : role.form.2 role.marker ≠ 0 := by
  cases role <;> simp [own] at hn <;>
    simp [form, marker, term, Finsupp.single_apply] <;> grind

end Role

/-- A held constraint; `offset` is what suggestions have added to its constant. -/
structure Held (m : Machine) where
  constraint : GSCSConstraint
  role : Role
  offset : ℚ
  fits : role.Fits m constraint

namespace Held

variable {m : Machine} (h : Held m)

noncomputable def form : Form GSCSVariable ℚ :=
  (h.offset, 0) + h.constraint.expression.form + h.role.form

noncomputable def cost : Form GSCSVariable ℚ :=
  h.constraint.strength.strength • (h.role.errors.map term).sum

variable {h} {v : GSCSVariable}

theorem coefficient_of_mem (hv : v ∈ h.role.own) : h.form.2 v = h.role.form.2 v := by
  have hn : v ∉ h.constraint.expression.terms := by
    intro hm
    have hext := h.constraint.external v ((mem_termVariables _ v).mpr hm)
    rw [internal_of_restricted (Role.restricted_of_mem hv)] at hext
    cases hext
  simp [form, coefficientForTerm_of_notMem _ _ hn]

theorem mem_of_form_ne (hv : h.form.2 v ≠ 0) : v ∈ h.constraint.expression.terms ∨ v ∈ h.role.own := by
  by_contra hc
  push Not at hc
  refine hv ?_
  have hr : h.role.form.2 v = 0 := by
    by_contra hne
    exact hc.2 (Role.mem_of_form_ne hne)
  simp [form, hr, coefficientForTerm_of_notMem _ _ hc.1]

theorem sum_terms_coefficient (vs : List GSCSVariable) (hv : v ∉ vs) :
    ((vs.map (term : GSCSVariable → Form GSCSVariable ℚ)).sum).2 v = 0 := by
  induction vs with
  | nil => simp
  | cons w vs ih =>
    rw [List.mem_cons, not_or] at hv
    rw [List.map_cons, List.sum_cons, Prod.snd_add, Finsupp.add_apply, ih hv.2, term_coeff_ne hv.1, add_zero]

theorem mem_of_cost_ne (hv : h.cost.2 v ≠ 0) : v ∈ h.role.errors := by
  by_contra hc
  refine hv ?_
  rw [cost, Prod.smul_snd, Finsupp.smul_apply, sum_terms_coefficient _ hc, smul_zero]

end Held

variable {m : Machine}

/-- The system of the held constraints. -/
noncomputable def systemOf (held : List (Held m)) (extra : List (Form GSCSVariable ℚ)) (κ : ℚ) :
    System GSCSVariable ℚ where
  equations := held.map Held.form ++ extra
  objective := (κ, 0) + (held.map Held.cost).sum

theorem mem_of_objective_ne {held : List (Held m)} {extra : List (Form GSCSVariable ℚ)} {κ : ℚ}
    {v : GSCSVariable} (h : (systemOf held extra κ).objective.2 v ≠ 0) : ∃ x ∈ held, v ∈ x.role.errors := by
  replace h : ((held.map Held.cost).sum).2 v ≠ 0 := by simpa [systemOf] using h
  induction held with
  | nil => simp at h
  | cons x held ih =>
    rw [List.map_cons, List.sum_cons, Prod.snd_add, Finsupp.add_apply] at h
    by_cases hx : x.cost.2 v = 0
    · rw [hx, zero_add] at h
      obtain ⟨y, hy, hm⟩ := ih h
      exact ⟨y, List.mem_cons_of_mem _ hy, hm⟩
    · exact ⟨x, List.mem_cons_self, Held.mem_of_cost_ne hx⟩

theorem objective_restricted (held : List (Held m)) (extra : List (Form GSCSVariable ℚ)) (κ : ℚ)
    (v : GSCSVariable) (h : (systemOf held extra κ).objective.2 v ≠ 0) : signs.Restricted v := by
  obtain ⟨y, -, hm⟩ := mem_of_objective_ne h
  exact Or.inl (Role.pivotable_of_mem_errors hm)

/-- A tidy tableau that represents a system. -/
structure Solves (T : GSCSTableau) (S : System GSCSVariable ℚ) : Prop where
  sound : Sound T
  tidy : Tidy signs T.dictionary
  represents : Represents T.dictionary .objective S

theorem Reshaped.solves {T T' : GSCSTableau} {S : System GSCSVariable ℚ} (h : Reshaped T T')
    (hT : Solves T S) : Solves T' S :=
  ⟨h.sound, h.tidy, hT.represents.of_solution h.tidy.canonical (h.row rfl hT.represents.row)
    h.solution⟩

/-- The variables a solver has made or met. -/
def GSCassowarySolver.Known (s : GSCassowarySolver) : GSCSVariable → Prop
  | .external n => .external n ∈ s.externalVariables
  | .slack n => n ≤ s.slackCounter
  | .dummy n => n ≤ s.dummyCounter
  | .artificial n => n ≤ s.artificialCounter
  | .objective => True
  | .plain _ => False
  | .artificialObjective _ => False

/-- The solver has met and made at least what it had. -/
structure Grown (s s' : GSCassowarySolver) : Prop where
  externalVariables : s.externalVariables ⊆ s'.externalVariables
  slackCounter : s.slackCounter ≤ s'.slackCounter
  dummyCounter : s.dummyCounter ≤ s'.dummyCounter
  artificialCounter : s.artificialCounter ≤ s'.artificialCounter

theorem Grown.trans {s s' s'' : GSCassowarySolver} (h : Grown s s') (h' : Grown s' s'') : Grown s s'' :=
  ⟨List.Subset.trans h.externalVariables h'.externalVariables, h.slackCounter.trans h'.slackCounter,
    h.dummyCounter.trans h'.dummyCounter, h.artificialCounter.trans h'.artificialCounter⟩

theorem Grown.known {s s' : GSCassowarySolver} (h : Grown s s') {v : GSCSVariable} (hv : s.Known v) : s'.Known v := by
  cases v with
  | external n => exact h.externalVariables hv
  | slack n => exact le_trans hv h.slackCounter
  | dummy n => exact le_trans hv h.dummyCounter
  | artificial n => exact le_trans hv h.artificialCounter
  | objective => trivial
  | plain n => exact hv.elim
  | artificialObjective n => exact hv.elim

structure Keeps (m : Machine) (s : GSCassowarySolver) (held : List (Held m))
    (extra : List (Form GSCSVariable ℚ)) (κ : ℚ) : Prop where
  solves : Solves s.tableau (systemOf held extra κ)
  known : ∀ v, s.tableau.dictionary.Mentions v → s.Known v
  nodup : (held.flatMap fun h => h.role.own).Nodup
  knownRole : ∀ h ∈ held, ∀ v ∈ h.role.own, s.Known v
  extraApart : ∀ f ∈ extra, ∀ v, f.2 v ≠ 0 → s.Known v ∧ ∀ h ∈ held, v ∉ h.role.own
  externals : ∀ h ∈ held, ∀ v ∈ h.constraint.expression.terms, v ∈ s.externalVariables
  markers : ∀ c marker, s.markerVariables.lookup c = some marker →
    ∃ h, held.find? (fun x => x.constraint = c) = some h ∧ h.role.marker = marker ∧
      (s.errorVariables.lookup c).getD [] = h.role.errors
  required : ∀ c : GSCSConstraint, c.isRequired m.tol = true → s.errorVariables.lookup c = none

end GnustepGui.Cassowary
