import GnustepGui.Library.Feasible

/-!
# Pivot rules that do not cycle

The row of `exit` is solved for `entry`, which has a negative coefficient in the row to be minimised; `exit` is found by
the ratio test. A pivot on a row with a positive constant lowers the objective. A pivot on a row with the constant 0
leaves the basic solution as it is, and then Bland's rule takes the first candidates in an order of the variables: a
sequence of pivots of both kinds comes to no basis twice (`Trace.not_returns`) and ends (`Trace.not_endless`).
-/

namespace Simplex

open Form Dictionary

variable {V K : Type*} [Field K] [LinearOrder K] [IsStrictOrderedRing K] {S : Signs V} {z entry exit : V}
  {D : Dictionary V K} {f g : Form V K} {rank : V → ℕ}

/-! ## A pivot -/

/-- `g` is the row to be minimised and `f` the row that `exit` has. -/
structure Pivots (S : Signs V) (z entry exit : V) (g f : Form V K) (D : Dictionary V K) : Prop where
  objective : D z = some g
  entry_slack : S.slack entry
  entry_neg : g.2 entry < 0
  exit_slack : S.slack exit
  canPivot : CanPivot D entry exit f
  exit_neg : f.2 entry < 0

/-- The first candidates in the order are taken; it matters for the rows with the constant 0 only. -/
structure Bland (S : Signs V) (rank : V → ℕ) (entry exit : V) (g : Form V K) (D : Dictionary V K) : Prop where
  entry_first : ∀ v, S.slack v → g.2 v < 0 → rank entry ≤ rank v
  exit_first : ∀ r h, D r = some h → S.slack r → h.1 = 0 → h.2 entry < 0 → rank exit ≤ rank r

namespace Pivots

variable [DecidableEq V] (h : Pivots S z entry exit g f D)

include h

omit [IsStrictOrderedRing K] [DecidableEq V] in
/-- The objective stays basic. -/
theorem z_ne (hz : ¬ S.slack z) : z ≠ entry ∧ z ≠ exit :=
  ⟨fun he => hz (he ▸ h.entry_slack), fun he => hz (he ▸ h.exit_slack)⟩

omit [IsStrictOrderedRing K] in
theorem basic_pivot (hz : ¬ S.slack z) :
    (D.pivot entry exit f).basic z = D.basic z + g.2 entry * (-f.1 / f.2 entry) := by
  obtain ⟨he, hexit⟩ := h.z_ne hz
  have hr : D.pivot entry exit f z = some (substitute entry (solveFor exit entry f) g) := by
    rw [pivot_other he hexit, h.objective]
    rfl
  rw [basic_row hr, basic_row h.objective, substitute_const, solveFor_const]

theorem basic_le (hz : ¬ S.slack z) (hf : 0 ≤ f.1) : (D.pivot entry exit f).basic z ≤ D.basic z := by
  have hr : 0 ≤ -f.1 / f.2 entry := div_nonneg_of_nonpos (neg_nonpos.mpr hf) h.exit_neg.le
  have hc := mul_nonpos_of_nonpos_of_nonneg h.entry_neg.le hr
  rw [h.basic_pivot hz]
  linarith

theorem basic_lt (hz : ¬ S.slack z) (hf : 0 < f.1) : (D.pivot entry exit f).basic z < D.basic z := by
  have hr : 0 < -f.1 / f.2 entry := div_pos_of_neg_of_neg (neg_neg_of_pos hf) h.exit_neg
  have hc := mul_neg_of_neg_of_pos h.entry_neg hr
  rw [h.basic_pivot hz]
  linarith

omit [IsStrictOrderedRing K] in
theorem nonbasic_pivot_iff (v : V) : D.pivot entry exit f v = none ↔ (D v = none ∧ v ≠ entry) ∨ v = exit := by
  by_cases he : v = entry
  · subst he
    rw [pivot_entry]
    refine iff_of_false (Option.some_ne_none _) ?_
    rintro (⟨-, hne⟩ | hexit)
    · exact hne rfl
    · exact h.canPivot.exit_ne_entry hexit.symm
  · by_cases hexit : v = exit
    · subst hexit
      exact iff_of_true h.canPivot.pivot_exit (.inr rfl)
    · rw [pivot_other he hexit, Option.map_eq_none_iff]
      simp [he, hexit]

omit [IsStrictOrderedRing K] in
theorem basic_eq (hf : f.1 = 0) : (D.pivot entry exit f).basic = D.basic := by
  have hc := h.canPivot.canonical
  refine h.canPivot.canonical_pivot.solution_unique h.canPivot.canonical_pivot.solution_basic
    (h.canPivot.solution_iff.mpr hc.solution_basic) fun v hv => ?_
  rw [basic_nonbasic hv]
  rcases (h.nonbasic_pivot_iff v).mp hv with ⟨hD, -⟩ | rfl
  · rw [basic_nonbasic hD]
  · rw [basic_row h.canPivot.row, hf]

end Pivots

/-! ## Traces -/

/-- Dictionaries with what is chosen in each of them. -/
structure Trace (V K : Type*) [Field K] where
  D : ℕ → Dictionary V K
  entry : ℕ → V
  exit : ℕ → V
  objectiveRow : ℕ → Form V K
  row : ℕ → Form V K

/-- The pivot from one dictionary to the next; it is not degenerate, or it is the one of Bland's rule. -/
structure Trace.Step [DecidableEq V] (R : Trace V K) (S : Signs V) (rank : V → ℕ) (z : V) (i : ℕ) : Prop where
  tidy : Tidy S (R.D i)
  pivots : Pivots S z (R.entry i) (R.exit i) (R.objectiveRow i) (R.row i) (R.D i)
  next : R.D (i + 1) = (R.D i).pivot (R.entry i) (R.exit i) (R.row i)
  regular : 0 < (R.row i).1 ∨ Bland S rank (R.entry i) (R.exit i) (R.objectiveRow i) (R.D i)

namespace Trace

variable [DecidableEq V] {R : Trace V K} {n : ℕ}

/-- The variables that are not basic are the same at both ends. -/
def Returns (R : Trace V K) (n : ℕ) : Prop := ∀ v, R.D n v = none ↔ R.D 0 v = none

/-- How a variable changes when the variable that enters at a time is raised by one. -/
noncomputable def change (R : Trace V K) (i : ℕ) (v : V) : K :=
  (R.D i).extend (Pi.single (R.entry i) 1) v - (R.D i).basic v

section

omit [LinearOrder K] [IsStrictOrderedRing K]

theorem change_nonbasic {i : ℕ} {v : V} (hv : R.D i v = none) :
    R.change i v = if v = R.entry i then 1 else 0 := by
  rw [change, extend_nonbasic hv, basic_nonbasic hv, sub_zero, Pi.single_apply]

theorem change_basic {i : ℕ} {v : V} {h : Form V K} (hv : R.D i v = some h) : R.change i v = h.2 (R.entry i) := by
  rw [change, extend_basic hv, basic_row hv, eval_single]
  ring

end

section Finite

variable (hR : ∀ i < n, R.Step S rank z i)

include hR

variable {i : ℕ}

section

omit [IsStrictOrderedRing K]

theorem canonical (hn : 0 < n) (hi : i ≤ n) : (R.D i).Canonical := by
  cases i with
  | zero => exact (hR 0 hn).tidy.canonical
  | succ i =>
    rw [(hR i hi).next]
    exact (hR i hi).pivots.canPivot.canonical_pivot

theorem row_nonneg (hi : i < n) : 0 ≤ (R.row i).1 :=
  (hR i hi).tidy.slackRow _ _ (hR i hi).pivots.canPivot.row (hR i hi).pivots.exit_slack

theorem solution_iff (hi : i ≤ n) (σ : V → K) : (R.D i).Solution σ ↔ (R.D 0).Solution σ := by
  induction i with
  | zero => rfl
  | succ i ih => rw [(hR i hi).next, (hR i hi).pivots.canPivot.solution_iff, ih (Nat.le_of_succ_le hi)]

end

/-- The objective does not grow. -/
theorem basic_le (hz : ¬ S.slack z) {i j : ℕ} (hi : i ≤ j) (hj : j ≤ n) : (R.D j).basic z ≤ (R.D i).basic z := by
  induction j, hi using Nat.le_induction with
  | base => rfl
  | succ j hi ih =>
    refine le_trans ?_ (ih (Nat.le_of_succ_le hj))
    rw [(hR j hj).next]
    exact (hR j hj).pivots.basic_le hz (row_nonneg hR hj)

omit [IsStrictOrderedRing K] in
theorem basic_end (hn : 0 < n) (h : R.Returns n) : (R.D n).basic = (R.D 0).basic := by
  have hc := canonical hR hn le_rfl
  refine hc.solution_unique hc.solution_basic
    ((solution_iff hR le_rfl _).mpr (hR 0 hn).tidy.canonical.solution_basic) fun v hv => ?_
  rw [basic_nonbasic hv, basic_nonbasic ((h v).mp hv)]

theorem degenerate (hz : ¬ S.slack z) (h : R.Returns n) (hi : i < n) : (R.row i).1 = 0 := by
  by_contra hne
  have hp := lt_of_le_of_ne (row_nonneg hR hi) (Ne.symm hne)
  have hlo : (R.D (i + 1)).basic z < (R.D i).basic z := by
    rw [(hR i hi).next]
    exact (hR i hi).pivots.basic_lt hz hp
  have hs := basic_le hR hz (Nat.zero_le i) hi.le
  have he := basic_le hR hz hi le_rfl
  rw [basic_end hR (Nat.zero_lt_of_lt hi) h] at he
  linarith

theorem basic_eq (hz : ¬ S.slack z) (h : R.Returns n) (hi : i ≤ n) : (R.D i).basic = (R.D 0).basic := by
  induction i with
  | zero => rfl
  | succ i ih => rw [(hR i hi).next, (hR i hi).pivots.basic_eq (degenerate hR hz h hi), ih (Nat.le_of_succ_le hi)]

theorem bland (hz : ¬ S.slack z) (h : R.Returns n) (hi : i < n) :
    Bland S rank (R.entry i) (R.exit i) (R.objectiveRow i) (R.D i) := by
  rcases (hR i hi).regular with hp | hb
  · exact absurd (degenerate hR hz h hi) hp.ne'
  · exact hb

/-! ### Variables that move -/

section

omit [IsStrictOrderedRing K]

theorem nonbasic_succ_iff (hi : i < n) (v : V) :
    R.D (i + 1) v = none ↔ (R.D i v = none ∧ v ≠ R.entry i) ∨ v = R.exit i := by
  rw [(hR i hi).next, (hR i hi).pivots.nonbasic_pivot_iff]

theorem nonbasic_of_le {v : V} (hv : ∀ m < n, v ≠ R.entry m) {i j : ℕ} (hij : i ≤ j) (hj : j ≤ n)
    (hi : R.D i v = none) : R.D j v = none := by
  induction j, hij using Nat.le_induction with
  | base => exact hi
  | succ j hij ih => exact (nonbasic_succ_iff hR hj v).mpr (.inl ⟨ih (Nat.le_of_succ_le hj), hv j hj⟩)

theorem basic_of_le {v : V} (hv : ∀ m < n, v ≠ R.exit m) {i j : ℕ} (hij : i ≤ j) (hj : j ≤ n)
    (hi : R.D i v ≠ none) : R.D j v ≠ none := by
  induction j, hij using Nat.le_induction with
  | base => exact hi
  | succ j hij ih =>
    intro hn
    rcases (nonbasic_succ_iff hR hj v).mp hn with ⟨hn, -⟩ | hexit
    · exact ih (Nat.le_of_succ_le hj) hn
    · exact hv j hj hexit

theorem moves (h : R.Returns n) {v : V} {i j : ℕ} (hi : i ≤ n) (hj : j ≤ n) (hb : R.D i v ≠ none)
    (hnon : R.D j v = none) : (∃ m < n, R.entry m = v) ∧ ∃ m < n, R.exit m = v := by
  constructor
  · by_contra hn
    push Not at hn
    have hne : ∀ m < n, v ≠ R.entry m := fun m hm => (hn m hm).symm
    have he := nonbasic_of_le hR hne hj le_rfl hnon
    exact hb (nonbasic_of_le hR hne (Nat.zero_le i) hi ((h v).mp he))
  · by_contra hn
    push Not at hn
    have hne : ∀ m < n, v ≠ R.exit m := fun m hm => (hn m hm).symm
    have he := basic_of_le hR hne hi le_rfl hb
    have hs : R.D 0 v ≠ none := fun hnn => he ((h v).mpr hnn)
    exact basic_of_le hR hne (Nat.zero_le j) hj hs hnon

theorem entry_nonbasic (hi : i < n) : R.D i (R.entry i) = none := (hR i hi).pivots.canPivot.entry_nonbasic

theorem exit_basic (hi : i < n) : R.D i (R.exit i) ≠ none := by
  rw [(hR i hi).pivots.canPivot.row]
  exact Option.some_ne_none _

theorem entry_basic (hi : i < n) : R.D (i + 1) (R.entry i) ≠ none := by
  rw [(hR i hi).next, pivot_entry]
  exact Option.some_ne_none _

/-! ### Bland's rule -/

theorem change_objective {i j : ℕ} (hi : i < n) (hj : j < n) : (R.objectiveRow i).2 (R.entry i) =
      (R.objectiveRow j).2.sum fun v c => c * R.change i v := by
  have hc := (hR i hi).tidy.canonical
  have hr := (solution_iff hR hj.le _).mpr ((solution_iff hR hi.le _).mp
    (hc.solution_extend (Pi.single (R.entry i) 1))) z _ (hR j hj).pivots.objective
  have hb := (solution_iff hR hj.le _).mpr ((solution_iff hR hi.le _).mp hc.solution_basic) z _
    (hR j hj).pivots.objective
  rw [← change_basic (hR i hi).pivots.objective, change, hr, hb, eval_eq, eval_eq, add_sub_add_left_eq_sub]
  rw [Finsupp.sum, Finsupp.sum, ← Finset.sum_sub_distrib]
  exact Finset.sum_congr rfl fun v _ => (mul_sub _ _ _).symm

end

theorem not_returns (hz : ¬ S.slack z) (hrn : Function.Injective rank) (hn : 0 < n) : ¬ R.Returns n := by
  intro h
  -- the last variable that moves, when it enters and when it leaves
  obtain ⟨j, hj, hl⟩ := (Finset.range n).exists_max_image (fun m => rank (R.entry m))
    ⟨0, Finset.mem_range.mpr hn⟩
  rw [Finset.mem_range] at hj
  have hmax : ∀ m < n, rank (R.entry m) ≤ rank (R.entry j) := fun m hm => hl m (Finset.mem_range.mpr hm)
  obtain ⟨-, i, hi, hexit⟩ := moves hR h (Nat.succ_le_of_lt hj) hj.le (entry_basic hR hj) (entry_nonbasic hR hj)
  have hbl := (bland hR hz h hj).entry_first
  have hb := (bland hR hz h hi).exit_first
  rw [hexit] at hb
  have hs : 0 ≤ (R.objectiveRow j).2.sum fun v c => c * R.change i v := by
    refine Finset.sum_nonneg fun q hq => ?_
    have hne := Finsupp.mem_support_iff.mp hq
    have ht := (hR j hj).tidy
    have hq : R.D j q = none := ht.canonical _ _ (hR j hj).pivots.objective q hne
    -- before the last variable in the order the coefficients at its entry are not negative
    have hc (hsl : S.slack q) (hle : rank q ≤ rank (R.entry j)) (hqt : q ≠ R.entry j) : 0 ≤ (R.objectiveRow j).2 q := by
      by_contra hneg
      exact hqt (hrn (le_antisymm hle (hbl q hsl (not_le.mp hneg))))
    show 0 ≤ (R.objectiveRow j).2 q * R.change i q
    cases hr : R.D i q with
    | none =>
      rw [change_nonbasic hr]
      by_cases he : q = R.entry i
      · rw [if_pos he, mul_one]
        refine hc (he ▸ (hR i hi).pivots.entry_slack) (he ▸ hmax i hi) ?_
        rintro rfl
        rw [← hexit] at hr
        exact exit_basic hR hi hr
      · rw [if_neg he, mul_zero]
    | some row =>
      rw [change_basic hr]
      obtain ⟨⟨m, hm, he⟩, -⟩ := moves hR h hi.le hj.le (by rw [hr]; exact Option.some_ne_none _) hq
      have hsl : S.slack q := he ▸ (hR m hm).pivots.entry_slack
      by_cases hqt : q = R.entry j
      · have hrw : row = R.row i := by
          have hsm := (hR i hi).pivots.canPivot.row
          rw [hexit, ← hqt, hr] at hsm
          exact Option.some.inj hsm
        rw [hrw, hqt]
        exact mul_nonneg_of_nonpos_of_nonpos (hR j hj).pivots.entry_neg.le (hR i hi).pivots.exit_neg.le
      · have hle : rank q ≤ rank (R.entry j) := he ▸ hmax m hm
        refine mul_nonneg (hc hsl hle hqt) ?_
        by_contra hneg
        have hzr : row.1 = 0 := by
          rw [← basic_row hr, basic_eq hR hz h hi.le, ← basic_eq hR hz h hj.le, basic_nonbasic hq]
        exact hqt (hrn (le_antisymm hle (hb q row hr hsl hzr (not_le.mp hneg))))
  rw [← change_objective hR hi hj] at hs
  exact absurd (hR i hi).pivots.entry_neg (not_lt.mpr hs)

end Finite

/-! ## Endless traces -/

/-- The part from a place on. -/
def drop (R : Trace V K) (i : ℕ) : Trace V K where
  D m := R.D (i + m)
  entry m := R.entry (i + m)
  exit m := R.exit (i + m)
  objectiveRow m := R.objectiveRow (i + m)
  row m := R.row (i + m)

/-- No basis comes twice. -/
theorem basis_ne (hz : ¬ S.slack z) (hr : Function.Injective rank) {i j : ℕ} (hi : i < j)
    (hR : ∀ m < j, R.Step S rank z m) : ¬ ∀ v, R.D j v = none ↔ R.D i v = none := by
  intro h
  have hd : ∀ m < j - i, (R.drop i).Step S rank z m := fun m hm => by
    have hs := hR (i + m) (by omega)
    exact ⟨hs.tidy, hs.pivots, hs.next, hs.regular⟩
  refine not_returns hd hz hr (Nat.sub_pos_of_lt hi) fun v => ?_
  show R.D (i + (j - i)) v = none ↔ R.D i v = none
  rw [Nat.add_sub_cancel' hi.le]
  exact h v

theorem not_endless (hz : ¬ S.slack z) (hr : Function.Injective rank)
    (hf : {v | ∃ i, R.D i v ≠ none}.Finite) : ¬ ∀ i, R.Step S rank z i := by
  intro hR
  have : Finite {v | ∃ i, R.D i v ≠ none} := hf
  obtain ⟨i, j, hi, hs⟩ := Finite.exists_ne_map_eq_of_infinite fun i : ℕ =>
    {v : {v | ∃ i, R.D i v ≠ none} | R.D i v ≠ none}
  have hb (v : V) : R.D i v = none ↔ R.D j v = none := by
    by_cases hv : ∃ i, R.D i v ≠ none
    · have hm := Set.ext_iff.mp hs ⟨v, hv⟩
      exact not_iff_not.mp hm
    · push Not at hv
      exact iff_of_true (hv i) (hv j)
  rcases Nat.lt_or_gt_of_ne hi with hlt | hgt
  · exact basis_ne hz hr hlt (fun m _ => hR m) fun v => (hb v).symm
  · exact basis_ne hz hr hgt (fun m _ => hR m) hb

end Trace

end Simplex
