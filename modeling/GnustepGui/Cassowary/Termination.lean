import GnustepGui.Cassowary.TableauOfRows
import GnustepGui.Library.Bland

/-!
# Termination of `optimize:`

`optimize:` takes the entry variable with the most negative coefficient, and the tie-break of the exit variable compares
ids that are all the same. A run of its loop ends when every degenerate pivot happens to be the one of Bland's rule for
an order of the variables; there is a tableau on which the loop goes through six bases for ever.
-/

namespace GnustepGui.Cassowary

open GSCSLinearExpression GSCSTableau GSCassowarySolver Simplex Simplex.Form Simplex.Dictionary StateExcept

/-! ## Turns of the loop -/

/-- The entry and the exit variable of a turn that pivots. -/
def nextPivot (m : Machine) (z : GSCSVariable) (T : GSCSTableau) : Option (GSCSVariable × GSCSVariable) :=
  ((T.rowExpressionForVariable z).bind (entryVariable m)).bind fun entry =>
    (T.findPivotableExitVariable m entry).map (entry, ·)

/-- The tableau after a turn that pivots. -/
def pivotTurn (m : Machine) (z : GSCSVariable) (T : GSCSTableau) : Option GSCSTableau :=
  (nextPivot m z T).bind fun p => (T.pivotWithEntryVariable m p.1 p.2).toOption

/-- After a number of such turns. -/
def tableauAfter (m : Machine) (z : GSCSVariable) (T : GSCSTableau) : Nat → Option GSCSTableau
  | 0 => some T
  | n + 1 => (tableauAfter m z T n).bind (pivotTurn m z)

def SameBasis (T T' : GSCSTableau) : Prop := ∀ v, T.isBasicVariable v = T'.isBasicVariable v

/-- A feasible tableau in canonical form with a row for the objective, which is bounded below. -/
structure Minimisable (z : GSCSVariable) (T : GSCSTableau) : Prop where
  sound : Sound T
  tidy : Tidy signs T.dictionary
  row : ∃ g, T.dictionary z = some g
  bounded : ∃ b, ∀ σ, T.dictionary.Solution σ → signs.Feasible σ → b ≤ σ z

/-- The pivot of the next turn is on a row with a positive constant, or that of Bland's rule: the first entry variable
with a negative coefficient, and the first exit variable of a row with the constant 0. -/
def RegularTurn (m : Machine) (z : GSCSVariable) (rank : GSCSVariable → ℕ) (T : GSCSTableau) : Prop :=
  ∀ entry exit, nextPivot m z T = some (entry, exit) → 0 < T.rowConstant exit ∨
    ((∀ v, v.isPivotable = true → T.rowCoefficient z v < 0 → rank entry ≤ rank v) ∧
      ∀ r, r.isPivotable = true → T.rowConstant r = 0 → T.rowCoefficient r entry < 0 → rank exit ≤ rank r)

variable {m : Machine} {z entry exit : GSCSVariable} {T T' : GSCSTableau} {rank : GSCSVariable → ℕ}

theorem sameBasis_iff : SameBasis T T' ↔ ∀ v, T.dictionary v = none ↔ T'.dictionary v = none := by
  refine forall_congr' fun v => ?_
  rw [dictionary_eq_none, dictionary_eq_none, isBasicVariable, isBasicVariable, rowExpressionForVariable,
    rowExpressionForVariable]
  cases T.rows.lookup v <;> cases T'.rows.lookup v <;> simp

theorem nextPivot_eq_some (h : nextPivot m z T = some (entry, exit)) :
    (∃ row, T.rows.lookup z = some row ∧ entryVariable m row = some entry) ∧
      T.findPivotableExitVariable m entry = some exit := by
  obtain ⟨entry', he, hexit⟩ := Option.bind_eq_some_iff.mp h
  obtain ⟨exit', hexit', heq⟩ := Option.map_eq_some_iff.mp hexit
  obtain ⟨rfl, rfl⟩ := Prod.mk.inj heq
  exact ⟨Option.bind_eq_some_iff.mp he, hexit'⟩

/-! ## One turn -/

/-- The objective of an entry variable without an exit variable is not bounded. -/
theorem not_bounded (ht : Tidy signs T.dictionary) {g : Form GSCSVariable ℚ} (hg : T.dictionary z = some g)
    (he : entry.isPivotable = true) (hn : g.2 entry < 0)
    (hr : ∀ r f, T.dictionary r = some f → r.isPivotable = true → 0 ≤ f.2 entry) :
    ¬ ∃ b, ∀ σ, T.dictionary.Solution σ → signs.Feasible σ → b ≤ σ z := by
  rintro ⟨b, hb⟩
  have hnon : T.dictionary entry = none := ht.canonical z g hg entry hn.ne
  -- far enough along the direction of the entry variable the objective is below the bound
  obtain ⟨t, ht0, hblw⟩ : ∃ t : ℚ, 0 ≤ t ∧ g.1 + g.2 entry * t < b := by
    refine ⟨max 0 ((b - g.1 - 1) / g.2 entry), le_max_left _ _, ?_⟩
    have hm := le_max_right 0 ((b - g.1 - 1) / g.2 entry)
    have hmul := mul_le_mul_of_nonpos_left hm hn.le
    rw [mul_div_cancel₀ _ hn.ne] at hmul
    linarith
  generalize hσ : T.dictionary.extend (Function.update (fun _ => 0) entry t) = σ
  have hval {r : GSCSVariable} {f : Form GSCSVariable ℚ} (hf : T.dictionary r = some f) :
      σ r = f.1 + f.2 entry * t := by
    rw [← hσ, extend_basic hf, eval_update, eval_eq_const fun _ _ => rfl, sub_zero]
  have hfr {v : GSCSVariable} (hv : T.dictionary v = none) : σ v = if v = entry then t else 0 := by
    rw [← hσ, extend_nonbasic hv, Function.update_apply]
  have hs : T.dictionary.Solution σ := hσ ▸ ht.canonical.solution_extend _
  have hfs : signs.Feasible σ := by
    refine ⟨fun v hv => ?_, fun v hv => ?_⟩
    · cases hf : T.dictionary v with
      | none =>
        rw [hfr hf]
        split
        · exact ht0
        · rfl
      | some f =>
        rw [hval hf]
        exact add_nonneg (ht.slackRow v f hf hv) (mul_nonneg (hr v f hf hv) ht0)
    · cases hf : T.dictionary v with
      | none =>
        rw [hfr hf, if_neg]
        rintro rfl
        exact signs.slack_not_dummy v he hv
      | some f =>
        obtain ⟨hc, hd⟩ := ht.dummyRow v f hf hv
        have hz : f.2 entry = 0 := by
          by_contra hne
          exact signs.slack_not_dummy entry he (hd entry hne)
        rw [hval hf, hc, hz, zero_mul, add_zero]
  have hle := hb σ hs hfs
  rw [hval hg] at hle
  exact absurd hblw (not_lt.mpr hle)

theorem pivotTurn_spec (hm : m.tol = 0) (hz : z.isPivotable = false) (h : Minimisable z T)
    (hnx : nextPivot m z T = some (entry, exit)) :
    ∃ T' g f, T.pivotWithEntryVariable m entry exit = .ok T' ∧ Minimisable z T' ∧
      Pivots signs z entry exit g f T.dictionary ∧ T'.dictionary = T.dictionary.pivot entry exit f := by
  obtain ⟨⟨zrow, hzr, he⟩, hexit⟩ := nextPivot_eq_some hnx
  have hsp := entryVariable_spec hm zrow
  rw [he] at hsp
  obtain ⟨-, hp, hn⟩ := hsp
  obtain ⟨row, hr, ht, hexitpiv, hcf, -⟩ := findPivotableExitVariable_some h.sound hexit
  obtain ⟨T', hT', hs, hc, hd⟩ := h.sound.pivot hm hr ht
  obtain ⟨T'', hT'', hrs⟩ := reshaped_pivot h.sound h.tidy hm hp hexit
  obtain rfl := Except.ok.inj (hT'.symm.trans hT'')
  obtain ⟨b, hb⟩ := h.bounded
  refine ⟨T', zrow.form, row.form, hT', ⟨hrs.sound, hrs.tidy, hrs.row hz h.row, b, fun σ hσ => ?_⟩,
    ⟨dictionary_of_row hzr, hp, ?_, hexitpiv, hc, hcf⟩, hd⟩
  · exact hb σ ((hrs.solution σ).mp hσ)
  · rwa [form_coeff]

theorem pivotTurn_of_ok (hn : nextPivot m z T = some (entry, exit))
    (hT' : T.pivotWithEntryVariable m entry exit = .ok T') : pivotTurn m z T = some T' := by
  rw [pivotTurn, hn, Option.bind_some, hT']
  rfl

variable {s : GSCassowarySolver}

theorem optimizeLoop_turn (h : pivotTurn m z s.tableau = some T') (fuel : Nat) :
    optimizeLoop m z (fuel + 1) s = optimizeLoop m z fuel { s with tableau := T' } := by
  obtain ⟨⟨entry, exit⟩, hn, hp⟩ := Option.bind_eq_some_iff.mp h
  obtain ⟨⟨zrow, hz, he⟩, hexit⟩ := nextPivot_eq_some hn
  have hok : s.tableau.pivotWithEntryVariable m entry exit = .ok T' := by
    cases hr : s.tableau.pivotWithEntryVariable m entry exit with
    | ok T'' =>
      rw [hr] at hp
      exact congrArg Except.ok (Option.some.inj hp)
    | error e =>
      rw [hr] at hp
      cases hp
  have hb : (s.tableau.rowExpressionForVariable z).bind (entryVariable m) = some entry := by
    rw [rowExpressionForVariable, hz]
    exact he
  rw [optimizeLoop, get_bind]
  simp only [hb, hexit]
  rw [bind_ok (pivot_run hok)]

theorem optimizeLoop_last (hm : m.tol = 0) (hz : z.isPivotable = false)
    (h : Minimisable z s.tableau) (hnn : pivotTurn m z s.tableau = none) (fuel : Nat) :
    optimizeLoop m z (fuel + 1) s = .ok () s := by
  obtain ⟨g, hg⟩ := h.row
  obtain ⟨zrow, hzr, rfl⟩ := dictionary_eq_some.mp hg
  have hb : (s.tableau.rowExpressionForVariable z).bind (entryVariable m) = entryVariable m zrow := by
    rw [rowExpressionForVariable, hzr]
    rfl
  rw [optimizeLoop, get_bind]
  simp only [hb]
  cases he : entryVariable m zrow with
  | none => rfl
  | some entry =>
    have hs := entryVariable_spec hm zrow
    rw [he] at hs
    obtain ⟨-, hp, hn⟩ := hs
    cases hexit : s.tableau.findPivotableExitVariable m entry with
    | none =>
      refine absurd h.bounded (not_bounded h.tidy hg hp (by rwa [form_coeff]) fun r f hf hr => ?_)
      exact findPivotableExitVariable_none h.sound hexit hf hr
    | some exit =>
      have hnx : nextPivot m z s.tableau = some (entry, exit) := by
        rw [nextPivot, hb, he, Option.bind_some, hexit]
        rfl
      obtain ⟨T', -, -, hT', -⟩ := pivotTurn_spec hm hz h hnx
      rw [pivotTurn_of_ok hnx hT'] at hnn
      cases hnn

/-! ## Runs -/

theorem optimizeLoop_after {n : Nat} (h : tableauAfter m z s.tableau n = some T) (fuel : Nat) :
    optimizeLoop m z (n + fuel) s = optimizeLoop m z fuel { s with tableau := T } := by
  induction n generalizing T fuel with
  | zero =>
    obtain rfl := Option.some.inj h
    rw [Nat.zero_add]
  | succ n ih =>
    obtain ⟨T1, hT1, ht⟩ := Option.bind_eq_some_iff.mp h
    rw [Nat.succ_add_eq_add_succ, ih hT1, optimizeLoop_turn ht]

theorem tableauAfter_spec (hm : m.tol = 0) (hz : z.isPivotable = false) (h : Minimisable z T) {n : Nat}
    (hn : tableauAfter m z T n = some T') :
    Minimisable z T' ∧ ∀ v, T'.dictionary.Mentions v → T.dictionary.Mentions v := by
  induction n generalizing T' with
  | zero =>
    obtain rfl := Option.some.inj hn
    exact ⟨h, fun v hv => hv⟩
  | succ n ih =>
    obtain ⟨T1, hT1, ht⟩ := Option.bind_eq_some_iff.mp hn
    obtain ⟨h1, hmen⟩ := ih hT1
    obtain ⟨⟨entry, exit⟩, hnx, -⟩ := Option.bind_eq_some_iff.mp ht
    obtain ⟨T2, g, f, hT2, h2, hp, hd⟩ := pivotTurn_spec hm hz h1 hnx
    rw [pivotTurn_of_ok hnx hT2] at ht
    obtain rfl := Option.some.inj ht
    refine ⟨h2, fun v hv => hmen v ?_⟩
    rw [hd] at hv
    exact hp.canPivot.mentions_pivot hv

theorem tableauAfter_of_le {i j : Nat} (hi : i ≤ j) (hj : tableauAfter m z T j ≠ none) :
    tableauAfter m z T i ≠ none := by
  induction j, hi using Nat.le_induction with
  | base => exact hj
  | succ j hi ih =>
    refine ih fun hn => hj ?_
    rw [tableauAfter, hn]
    rfl

theorem finite_mentions (T : GSCSTableau) : {v | T.dictionary.Mentions v}.Finite := by
  have hr (v : GSCSVariable) {e : GSCSLinearExpression} (he : T.rows.lookup v = some e) :
      (⟨v, e⟩ : Sigma fun _ : GSCSVariable => GSCSLinearExpression) ∈ T.rows.entries :=
    List.mem_dlookup_iff T.rows.nodupKeys |>.mp he
  refine (List.finite_toSet (T.rows.keys ++ T.rows.entries.flatMap fun p => p.2.terms.keys)).subset ?_
  rintro v (⟨f, hf⟩ | ⟨r, f, hf, hne⟩)
  · obtain ⟨e, he, -⟩ := dictionary_eq_some.mp hf
    refine List.mem_append_left _ ?_
    exact List.mem_keys_of_mem (hr v he)
  · obtain ⟨e, he, rfl⟩ := dictionary_eq_some.mp hf
    refine List.mem_append_right _ (List.mem_flatMap.mpr ⟨⟨r, e⟩, hr r he, ?_⟩)
    by_contra hn
    rw [form_coeff] at hne
    exact hne (coefficientForTerm_of_notMem _ _ hn)

theorem rowCoefficient_of_dictionary {r v : GSCSVariable} {f : Form GSCSVariable ℚ} (hf : T.dictionary r = some f) :
    T.rowCoefficient r v = f.2 v := by
  obtain ⟨e, he, rfl⟩ := dictionary_eq_some.mp hf
  rw [rowCoefficient_of_row he, form_coeff]

/-- The dictionaries of a run, with the choices of the code. -/
noncomputable def traceOf (m : Machine) (z : GSCSVariable) (T : GSCSTableau) : Trace GSCSVariable ℚ where
  D i := (tableauAfter m z T i).elim (fun _ => none) dictionary
  entry i := ((tableauAfter m z T i).bind (nextPivot m z)).elim z Prod.fst
  exit i := ((tableauAfter m z T i).bind (nextPivot m z)).elim z Prod.snd
  objectiveRow i := ((tableauAfter m z T i).bind fun T => T.dictionary z).getD 0
  row i := ((tableauAfter m z T i).bind fun T => (nextPivot m z T).bind fun p => T.dictionary p.2).getD 0

theorem traceOf_step (hm : m.tol = 0) (hz : z.isPivotable = false) (h : Minimisable z T) {i : Nat}
    {Ti Ti' : GSCSTableau} (hi : tableauAfter m z T i = some Ti) (hi' : tableauAfter m z T (i + 1) = some Ti')
    (hrg : RegularTurn m z rank Ti) : (traceOf m z T).Step signs rank z i := by
  obtain ⟨hTi, -⟩ := tableauAfter_spec hm hz h hi
  have ht : pivotTurn m z Ti = some Ti' := by
    rw [tableauAfter, hi] at hi'
    exact hi'
  obtain ⟨⟨entry, exit⟩, hnx, -⟩ := Option.bind_eq_some_iff.mp ht
  obtain ⟨T2, g, f, hT2, h2, hpv, hd⟩ := pivotTurn_spec hm hz hTi hnx
  rw [pivotTurn_of_ok hnx hT2] at ht
  obtain rfl := Option.some.inj ht
  have hD : (traceOf m z T).D i = Ti.dictionary := by simp [traceOf, hi]
  have hD' : (traceOf m z T).D (i + 1) = T2.dictionary := by simp [traceOf, hi']
  have he : (traceOf m z T).entry i = entry := by simp [traceOf, hi, hnx]
  have hexit : (traceOf m z T).exit i = exit := by simp [traceOf, hi, hnx]
  have ho : (traceOf m z T).objectiveRow i = g := by simp [traceOf, hi, hpv.objective]
  have hrow : (traceOf m z T).row i = f := by simp [traceOf, hi, hnx, hpv.canPivot.row]
  refine ⟨?_, ?_, ?_, ?_⟩
  · rw [hD]
    exact hTi.tidy
  · rw [hD, he, hexit, ho, hrow]
    exact hpv
  · rw [hD, hD', he, hexit, hrow, hd]
  · rw [hD, he, hexit, ho, hrow]
    have hc : Ti.rowConstant exit = f.1 := by rw [rowConstant_eq_basic, basic_row hpv.canPivot.row]
    rcases hrg entry exit hnx with hp | ⟨hf, hfr⟩
    · exact .inl (hc ▸ hp)
    · refine .inr ⟨fun v hv hn => hf v hv ?_, fun r g' hr hs hzr hn => hfr r hs ?_ ?_⟩
      · rwa [rowCoefficient_of_dictionary hpv.objective]
      · rw [rowConstant_eq_basic, basic_row hr, hzr]
      · rwa [rowCoefficient_of_dictionary hr]

/-- The loop returns, and no basis comes twice on the way. -/
structure Ends (m : Machine) (z : GSCSVariable) (s : GSCassowarySolver) : Prop where
  returns : ∃ fuel s', optimizeLoop m z fuel s = .ok () s'
  bases : ∀ i j Ti Tj, tableauAfter m z s.tableau i = some Ti → tableauAfter m z s.tableau j = some Tj →
    SameBasis Ti Tj → i = j

theorem exists_last {n : Nat} (hn : tableauAfter m z T n = none) :
    ∃ i Ti, tableauAfter m z T i = some Ti ∧ pivotTurn m z Ti = none := by
  induction n with
  | zero => cases hn
  | succ n ih =>
    cases hl : tableauAfter m z T n with
    | none => exact ih hl
    | some Ti =>
      rw [tableauAfter, hl] at hn
      exact ⟨n, Ti, hl, hn⟩

/-- `optimize:` of an objective that is bounded below ends when every degenerate pivot of the run is the one of Bland's
rule. -/
theorem optimize_ends (m : Machine) (hm : m.tol = 0) (z : GSCSVariable) (hz : z.type = .objective)
    (s : GSCassowarySolver) (h : Minimisable z s.tableau) (rank : GSCSVariable → ℕ) (hrank : Function.Injective rank)
    (hregular : ∀ n T, tableauAfter m z s.tableau n = some T → RegularTurn m z rank T) : Ends m z s := by
  have hzp : z.isPivotable = false := by simp [GSCSVariable.isPivotable, hz]
  have hsl : ¬ signs.slack z := by simp [hzp]
  have hst {i : Nat} (hi : tableauAfter m z s.tableau (i + 1) ≠ none) :
      (traceOf m z s.tableau).Step signs rank z i := by
    obtain ⟨Ti, hTi⟩ := Option.ne_none_iff_exists'.mp (tableauAfter_of_le (Nat.le_succ i) hi)
    obtain ⟨Ti', hTi'⟩ := Option.ne_none_iff_exists'.mp hi
    exact traceOf_step hm hzp h hTi hTi' (hregular i Ti hTi)
  have hD {i : Nat} {Ti : GSCSTableau} (hi : tableauAfter m z s.tableau i = some Ti) :
      (traceOf m z s.tableau).D i = Ti.dictionary := by simp [traceOf, hi]
  constructor
  · by_contra hr
    have he : ∀ n, tableauAfter m z s.tableau n ≠ none := by
      intro n hn
      obtain ⟨i, Ti, hi, hl⟩ := exists_last hn
      refine hr ⟨i + 1, { s with tableau := Ti }, ?_⟩
      rw [optimizeLoop_after hi]
      exact optimizeLoop_last hm hzp (tableauAfter_spec hm hzp h hi).1 hl 0
    refine Trace.not_endless hsl hrank ?_ fun i => hst (he (i + 1))
    refine (finite_mentions s.tableau).subset ?_
    rintro v ⟨i, hv⟩
    obtain ⟨Ti, hTi⟩ := Option.ne_none_iff_exists'.mp (he i)
    rw [hD hTi] at hv
    exact (tableauAfter_spec hm hzp h hTi).2 v (.inl (Option.ne_none_iff_exists'.mp hv))
  · intro i j Ti Tj hi hj hs
    have hd {i j : Nat} {Ti Tj : GSCSTableau} (hi : tableauAfter m z s.tableau i = some Ti)
        (hj : tableauAfter m z s.tableau j = some Tj) (hlt : i < j) : ¬ SameBasis Ti Tj := by
      intro hs
      have hj' : tableauAfter m z s.tableau j ≠ none := by
        rw [hj]
        exact Option.some_ne_none Tj
      refine Trace.basis_ne hsl hrank hlt (fun k hk => hst (tableauAfter_of_le hk hj')) fun v => ?_
      rw [hD hi, hD hj]
      exact (sameBasis_iff.mp hs v).symm
    rcases Nat.lt_trichotomy i j with hlt | heq | hgt
    · exact absurd hs (hd hi hj hlt)
    · exact heq
    · exact absurd (fun v => (hs v).symm) (hd hj hi hgt)

/-! ## A run that ends -/

/-- The order in which the variables have been made. -/
def numberOf : GSCSVariable → Nat
  | .slack n => n
  | _ => 0

/-- Sets are enumerated in that order, in exact arithmetic. -/
def byNumber : Machine :=
  ⟨0, List.insertionSort fun v w => numberOf v ≤ numberOf w, List.perm_insertionSort _, 0⟩

def expression (address : Nat) (constant : ℚ) (terms : List (Nat × ℚ)) : GSCSLinearExpression :=
  terms.foldl (fun e p => e.addVariable 0 (.slack p.1) p.2) (.initWithConstant address constant)

/-- An order of the variables. -/
def orderOf : GSCSVariable → ℕ
  | .dummy n => 7 * n
  | .slack n => 7 * n + 1
  | .artificial n => 7 * n + 2
  | .plain n => 7 * n + 3
  | .objective => 4
  | .artificialObjective n => 7 * n + 5
  | .external n => 7 * n + 6

theorem orderOf_injective : Function.Injective orderOf := by
  intro v w h
  cases v <;> cases w <;> simp only [orderOf] at h <;> first | omega | (congr 1; omega) | rfl

def endingTableau : GSCSTableau :=
  ofRows [(.slack 2, expression 1 1 [(1, -1)]), (.objective, expression 2 0 [(1, -1)])]

/-- The rows of the tableau, and the run of the loop: one pivot on a row with the constant 1. -/
theorem endingTableau_values :
    (AllJoin .empty [(.slack 2, expression 1 1 [(1, -1)]), (.objective, expression 2 0 [(1, -1)])] ∧
      (∀ p ∈ endingTableau.rows.entries, RowTidy p.1 p.2) ∧
      (endingTableau.rows.lookup .objective = some (expression 2 0 [(1, -1)]) ∧
        endingTableau.rows.lookup (.slack 2) = some (expression 1 1 [(1, -1)])) ∧
      (∀ e ∈ [expression 2 0 [(1, -1)], expression 1 1 [(1, -1)]],
        e.termVariables.map (fun v => (v, e.coefficientForTerm v)) = [(.slack 1, -1)]) ∧
      (expression 2 0 [(1, -1)]).constant = 0 ∧ (expression 1 1 [(1, -1)]).constant = 1) ∧
    nextPivot byNumber .objective endingTableau = some (.slack 1, .slack 2) ∧
      (tableauAfter byNumber .objective endingTableau 1).bind (nextPivot byNumber .objective) = none ∧
      tableauAfter byNumber .objective endingTableau 2 = none ∧ 0 < endingTableau.rowConstant (.slack 2) := by
  decide +kernel

theorem minimisable_endingTableau : Minimisable .objective endingTableau := by
  obtain ⟨hj, htd, ⟨hob, hsl⟩, ht, hz, ho⟩ := endingTableau_values.1
  have hs : Sound endingTableau := sound_ofRows hj
  refine ⟨hs, tidy_of_entries hs htd, ⟨_, dictionary_of_row hob⟩, -1, fun σ hsol hf => ?_⟩
  have hobj := value_of_row hsol hob (ht _ (List.mem_cons_self ..))
  have hr := value_of_row hsol hsl (ht _ (List.mem_cons_of_mem _ (List.mem_singleton_self _)))
  simp only [List.map_cons, List.map_nil, List.sum_cons, List.sum_nil, hz, ho] at hobj hr
  have h2 := hf.1 (.slack 2) rfl
  linarith

theorem regular_endingTableau (n : Nat) (T : GSCSTableau) (hT : tableauAfter byNumber .objective endingTableau n = some T) :
    RegularTurn byNumber .objective orderOf T := by
  obtain ⟨hf, hs, ht, hc⟩ := endingTableau_values.2
  intro entry exit hn
  match n with
  | 0 =>
    obtain rfl := Option.some.inj hT
    rw [hf] at hn
    obtain ⟨-, rfl⟩ := Prod.mk.inj (Option.some.inj hn)
    exact .inl hc
  | 1 =>
    rw [hT, Option.bind_some, hn] at hs
    cases hs
  | n + 2 => exact absurd ht (tableauAfter_of_le (Nat.le_add_left 2 n) (by rw [hT]; exact Option.some_ne_none T))

theorem optimize_ends_single :
    Ends byNumber .objective { GSCassowarySolver.init (fun _ => 0) with tableau := endingTableau } :=
  optimize_ends byNumber rfl .objective rfl _ minimisable_endingTableau orderOf orderOf_injective regular_endingTableau

/-! ## A run without end -/

/-- Of three rows, two have the constant 0. -/
def cyclingTableau : GSCSTableau :=
  ofRows [(.slack 5, expression 1 0 [(1, -1 / 2), (2, 11 / 2), (3, 5 / 2), (4, -9)]),
    (.slack 6, expression 2 0 [(1, -1 / 2), (2, 3 / 2), (3, 1 / 2), (4, -1)]),
    (.slack 7, expression 3 1 [(1, -1)]),
    (.objective, expression 4 0 [(1, -10), (2, 57), (3, 9), (4, 24)])]

instance {β : Type} [DecidableEq β] : DecidableEq (AList fun _ : GSCSVariable => β) :=
  fun a b => decidable_of_iff (a.entries = b.entries) AList.ext_iff.symm

deriving instance DecidableEq for GSCSTableau

/-- The rows of the tableau. After twelve pivots everything is as after six. -/
theorem cyclingTableau_values :
    (AllJoin .empty [(.slack 5, expression 1 0 [(1, -1 / 2), (2, 11 / 2), (3, 5 / 2), (4, -9)]),
        (.slack 6, expression 2 0 [(1, -1 / 2), (2, 3 / 2), (3, 1 / 2), (4, -1)]), (.slack 7, expression 3 1 [(1, -1)]),
        (.objective, expression 4 0 [(1, -10), (2, 57), (3, 9), (4, 24)])] ∧
      (∀ p ∈ cyclingTableau.rows.entries, RowTidy p.1 p.2) ∧
      (cyclingTableau.rows.lookup .objective = some (expression 4 0 [(1, -10), (2, 57), (3, 9), (4, 24)]) ∧
        cyclingTableau.rows.lookup (.slack 7) = some (expression 3 1 [(1, -1)])) ∧
      ((expression 4 0 [(1, -10), (2, 57), (3, 9), (4, 24)]).termVariables.map
          (fun v => (v, (expression 4 0 [(1, -10), (2, 57), (3, 9), (4, 24)]).coefficientForTerm v)) =
          [(.slack 1, -10), (.slack 2, 57), (.slack 3, 9), (.slack 4, 24)] ∧
        (expression 3 1 [(1, -1)]).termVariables.map
          (fun v => (v, (expression 3 1 [(1, -1)]).coefficientForTerm v)) = [(.slack 1, -1)]) ∧
      (expression 4 0 [(1, -10), (2, 57), (3, 9), (4, 24)]).constant = 0 ∧ (expression 3 1 [(1, -1)]).constant = 1) ∧
    tableauAfter byNumber .objective cyclingTableau 12 = tableauAfter byNumber .objective cyclingTableau 6 ∧
      tableauAfter byNumber .objective cyclingTableau 6 ≠ none := by
  decide +kernel

theorem sound_cyclingTableau : Sound cyclingTableau := sound_ofRows cyclingTableau_values.1.1

theorem tidy_cyclingTableau : Tidy signs cyclingTableau.dictionary :=
  tidy_of_entries sound_cyclingTableau cyclingTableau_values.1.2.1

theorem tableauAfter_add {i : Nat} (hi : tableauAfter m z T i = some T') (j : Nat) :
    tableauAfter m z T (i + j) = tableauAfter m z T' j := by
  induction j with
  | zero => exact hi
  | succ j ih => rw [← Nat.add_assoc, tableauAfter, ih, tableauAfter]

theorem tableauAfter_of_period {i k : Nat} (hk : 0 < k) (hi : tableauAfter m z T i = some T')
    (hp : tableauAfter m z T (i + k) = some T') (n : Nat) : tableauAfter m z T n ≠ none := by
  have hr : tableauAfter m z T' k = some T' := (tableauAfter_add hi k).symm.trans hp
  have hro (r : Nat) : tableauAfter m z T' (r * k) = some T' := by
    induction r with
    | zero => rw [Nat.zero_mul, tableauAfter]
    | succ r ih => rw [Nat.succ_mul, tableauAfter_add ih, hr]
  have hf : n ≤ i + n * k := Nat.le_add_left_of_le (Nat.le_mul_of_pos_right n hk)
  refine tableauAfter_of_le hf ?_
  rw [tableauAfter_add hi, hro]
  exact Option.some_ne_none T'

theorem optimizeLoop_endless (h : ∀ n, tableauAfter m z s.tableau n ≠ none) (fuel : Nat)
    (s' : GSCassowarySolver) : optimizeLoop m z fuel s ≠ .ok () s' := by
  obtain ⟨T, hT⟩ := Option.ne_none_iff_exists'.mp (h fuel)
  rw [← Nat.add_zero fuel, optimizeLoop_after hT]
  exact throw_ne_ok

theorem bounded_cyclingTableau (σ : GSCSVariable → ℚ) (hs : cyclingTableau.dictionary.Solution σ)
    (hf : signs.Feasible σ) : -10 ≤ σ .objective := by
  obtain ⟨-, -, ⟨hoj, hls⟩, ⟨hob, hl⟩, hz, ho⟩ := cyclingTableau_values.1
  have hobj := value_of_row hs hoj hob
  have hlt := value_of_row hs hls hl
  simp only [List.map_cons, List.map_nil, List.sum_cons, List.sum_nil, hz, ho] at hobj hlt
  have h2 := hf.1 (.slack 2) rfl
  have h3 := hf.1 (.slack 3) rfl
  have h4 := hf.1 (.slack 4) rfl
  have h7 := hf.1 (.slack 7) rfl
  linarith

/-- The loop takes six pivots to come back to the basis it started from, and never ends. -/
theorem optimize_cycles :
    byNumber.tol = 0 ∧ Minimisable .objective cyclingTableau ∧
      ∀ s : GSCassowarySolver, s.tableau = cyclingTableau → ¬ Ends byNumber .objective s := by
  refine ⟨rfl, ⟨sound_cyclingTableau, tidy_cyclingTableau, ?_, -10, bounded_cyclingTableau⟩, ?_⟩
  · exact ⟨_, dictionary_of_row cyclingTableau_values.1.2.2.1.1⟩
  · rintro s hs ⟨⟨fuel, s', hr⟩, -⟩
    obtain ⟨hp, hsix⟩ := cyclingTableau_values.2
    obtain ⟨T, hT⟩ := Option.ne_none_iff_exists'.mp hsix
    refine optimizeLoop_endless (fun n => ?_) fuel s' hr
    rw [hs]
    exact tableauAfter_of_period (k := 6) (by decide) hT (hp.trans hT) n

/-! ## The minimum -/

/-- The basic solution after `optimize:` is the least of the feasible ones of the tableau before. If it does not come
back it is because of the number of turns. -/
def Minimises (m : Machine) (z : GSCSVariable) (s : GSCassowarySolver) (turns : Nat) : Prop :=
  match optimizeLoop m z turns s with
  | .ok _ s' =>
    let ρ := s'.tableau.dictionary.basic
    s.tableau.dictionary.Solution ρ ∧ signs.Feasible ρ ∧
      ∀ σ, s.tableau.dictionary.Solution σ → signs.Feasible σ → ρ z ≤ σ z
  | .error e _ => e = .outOfFuel

/-- An objective that is bounded below is never taken for an unbounded one, whichever pivots are chosen. -/
theorem optimize_minimises (m : Machine) (hm : m.tol = 0) (z : GSCSVariable) (hz : z.type = .objective)
    (s : GSCassowarySolver) (h : Minimisable z s.tableau) (turns : Nat) : Minimises m z s turns := by
  have hsp := optimizeLoop_spec hm z turns s h.sound h.tidy
  unfold Minimises
  cases hr : optimizeLoop m z turns s with
  | ok u s' =>
    rw [hr] at hsp
    obtain ⟨-, hrs, hmin⟩ := hsp
    obtain ⟨f, hf⟩ := hrs.row (by simp [GSCSVariable.isPivotable, hz]) h.row
    refine ⟨(hrs.solution _).mp hrs.sound.canonical.solution_basic, hrs.tidy.feasible_basic, fun σ hσ hfs => ?_⟩
    rw [basic_row hf, (hrs.solution σ).mpr hσ z f hf]
    exact const_le (hrs.tidy.closed z f hf (.inr hz)) (hmin f hf) hfs
  | error e s' =>
    rw [hr] at hsp
    obtain ⟨-, hrs, he | ⟨f, entry, hf, hp, hn, hall⟩⟩ := hsp
    · exact he
    · obtain ⟨b, hb⟩ := h.bounded
      exact absurd ⟨b, fun σ hσ => hb σ ((hrs.solution σ).mp hσ)⟩ (not_bounded hrs.tidy hf hp hn hall)

theorem optimize_minimises_ending :
    Minimises byNumber .objective { GSCassowarySolver.init (fun _ => 0) with tableau := endingTableau } 3 :=
  optimize_minimises byNumber rfl .objective rfl _ minimisable_endingTableau 3

end GnustepGui.Cassowary
