import GnustepGui.TableView.SizeToFit

/-!
# The turns of the sweep

The sort gives the points in order, and the count of the sweep is the number of columns that grow. As long as the free
width is enough, each column is filled to the point that the sweep has reached (`Sweep.Filled`).
-/

namespace GnustepGui.TableView

/-! ## The sort -/

section Sorting

variable {a b c : ColumnSorting}

/-- By width, and minimum widths before maximum widths. -/
def ColumnSorting.InOrder (a b : ColumnSorting) : Prop :=
  a.width < b.width ∨ a.width = b.width ∧ (a.isMax = true → b.isMax = true)

theorem ColumnSorting.before_iff : a.before b = true ↔
    a.width < b.width ∨ a.width = b.width ∧ b.isMax = true ∧ a.isMax = false := by
  simp [before, and_assoc]

theorem ColumnSorting.not_before_iff : b.before a = false ↔ a.InOrder b := by
  rw [← Bool.not_eq_true, before_iff, InOrder]
  rcases lt_trichotomy a.width b.width with h | h | h
  · simp [h, h.not_gt, h.ne']
  · cases a.isMax <;> cases b.isMax <;> simp [h]
  · simp [h, h.not_gt, h.ne']

theorem ColumnSorting.not_before_of_before (h : a.before b = true) : b.before a = false := by
  rw [not_before_iff]
  rcases before_iff.mp h with h | ⟨h, hm, -⟩
  · exact .inl h
  · exact .inr ⟨h, fun _ => hm⟩

theorem ColumnSorting.InOrder.trans (hab : a.InOrder b) (hbc : b.InOrder c) : a.InOrder c := by
  rcases hab with hab | ⟨hab, ha⟩
  · rcases hbc with hbc | ⟨hbc, -⟩
    · exact .inl (hab.trans hbc)
    · exact .inl (hab.trans_eq hbc)
  · rcases hbc with hbc | ⟨hbc, hb⟩
    · exact .inl (hab.trans_lt hbc)
    · exact .inr ⟨hab.trans hbc, fun h => hb (ha h)⟩

theorem exists_quickSortInternal {fuel : Nat} {data : List ColumnSorting} (hf : data.length ≤ fuel) (hd : data ≠ []) :
    ∃ sorted, quickSortInternal fuel data 0 (data.length - 1) = some sorted ∧ sorted.Perm data ∧
      sorted.Pairwise ColumnSorting.InOrder := by
  obtain ⟨sorted, hsr, hp, hs⟩ := Quicksort.exists_sort_all ColumnSorting.before
    (fun _ _ => ColumnSorting.not_before_of_before)
    (fun a b c ha hb => ColumnSorting.not_before_iff.mpr
      ((ColumnSorting.not_before_iff.mp ha).trans (ColumnSorting.not_before_iff.mp hb))) hf hd
  exact ⟨sorted, hsr, hp, hs.imp ColumnSorting.not_before_iff.mp⟩

end Sorting

/-! ## Counting the current columns -/

section Counting

variable {fits : List ColumnFit} {before after : List ColumnSorting} {a b : ℚ}

@[simp] theorem columnInfo_cons (c : ColumnFit) (fits : List ColumnFit) :
    columnInfo (c :: fits) = ⟨c.minWidth, false⟩ :: ⟨c.maxWidth, true⟩ :: columnInfo fits := rfl

@[simp] theorem length_columnInfo (fits : List ColumnFit) : (columnInfo fits).length = 2 * fits.length := by
  induction fits with
  | nil => rfl
  | cons c fits ih =>
    rw [columnInfo_cons, List.length_cons, List.length_cons, ih, List.length_cons]
    ring

theorem mem_columnInfo {point : ColumnSorting} :
    point ∈ columnInfo fits ↔ ∃ c ∈ fits, point = ⟨c.minWidth, false⟩ ∨ point = ⟨c.maxWidth, true⟩ := by
  simp [columnInfo]

/-- How many minimum widths are more than there are maximum widths. -/
def opened : List ColumnSorting → ℤ
  | [] => 0
  | point :: points => opened points + if point.isMax then -1 else 1

theorem opened_append (xs ys : List ColumnSorting) : opened (xs ++ ys) = opened xs + opened ys := by
  induction xs with
  | nil => exact (zero_add _).symm
  | cons x xs ih =>
    rw [List.cons_append, opened, opened, ih]
    ring

theorem opened_perm {xs ys : List ColumnSorting} (h : xs.Perm ys) : opened xs = opened ys := by
  induction h with
  | nil => rfl
  | cons x _ ih => rw [opened, opened, ih]
  | swap x y l =>
    rw [opened, opened, opened, opened]
    ring
  | trans _ _ ih ih' => exact ih.trans ih'

/-- Up to a point, those that are more belong to the columns that have begun and are not full. -/
theorem opened_filter (hf : ∀ c ∈ fits, c.minWidth ≤ c.maxWidth)
    (hnn : Filling.NoneBetween ColumnFit.minWidth ColumnFit.maxWidth a b fits) (ha : a < b) :
    opened ((columnInfo fits).filter fun point => point.width ≤ a) = (fits.countP fun c => c.Current a b : ℕ) := by
  induction fits with
  | nil => rfl
  | cons c fits ih =>
    have hr := ih (fun d hd => hf d (List.mem_cons_of_mem c hd)) fun d hd => hnn d (List.mem_cons_of_mem c hd)
    have hc := hf c (List.mem_cons_self ..)
    obtain ⟨-, hm⟩ := hnn c (List.mem_cons_self ..)
    rw [columnInfo_cons, List.countP_cons]
    by_cases hlo : c.minWidth ≤ a
    · rcases hm with hup | hup
      · have hn : ¬ c.Current a b := fun h => absurd (ha.trans_le h.2) (not_lt.mpr hup)
        simp [hlo, hup, hn, opened, hr]
      · have hcur : c.Current a b := ⟨hlo, hup⟩
        simp [hlo, not_le.mpr (ha.trans_le hup), hcur, opened, hr]
    · have hn : ¬ c.Current a b := fun h => hlo h.1
      have hup : ¬ c.maxWidth ≤ a := fun h => hlo (hc.trans h)
      simp [hlo, hup, hn, hr]

theorem noneBetween_of_perm (hpr : (before ++ after).Perm (columnInfo fits)) (hb : ∀ p ∈ before, p.width ≤ a)
    (ha : ∀ p ∈ after, b ≤ p.width) : Filling.NoneBetween ColumnFit.minWidth ColumnFit.maxWidth a b fits := by
  have hs : ∀ p ∈ columnInfo fits, p.width ≤ a ∨ b ≤ p.width := fun p hp =>
    (List.mem_append.mp (hpr.mem_iff.mpr hp)).imp (hb p) (ha p)
  exact fun c hc => ⟨hs _ (mem_columnInfo.mpr ⟨c, hc, .inl rfl⟩), hs _ (mem_columnInfo.mpr ⟨c, hc, .inr rfl⟩)⟩

theorem opened_before (hf : ∀ c ∈ fits, c.minWidth ≤ c.maxWidth) (hpr : (before ++ after).Perm (columnInfo fits))
    (hb : ∀ p ∈ before, p.width ≤ a) (ha : ∀ p ∈ after, b ≤ p.width) (hab : a < b) :
    opened before = (fits.countP fun c => c.Current a b : ℕ) := by
  rw [← opened_filter hf (noneBetween_of_perm hpr hb ha) hab]
  refine (opened_perm ?_).symm
  refine (hpr.symm.filter _).trans (List.Perm.of_eq ?_)
  rw [List.filter_append, List.filter_eq_self.mpr, List.filter_eq_nil_iff.mpr, List.append_nil]
  · exact fun p hp h => absurd (of_decide_eq_true h) (not_le.mpr (hab.trans_le (ha p hp)))
  · exact fun p hp => decide_eq_true (hb p hp)

end Counting

/-! ## The sweep -/

section Sweeping

variable {fits : List ColumnFit} {available a b : ℚ} {before after : List ColumnSorting} {point : ColumnSorting}
  {s : Sweep}

/-- What the sweep has counted when it has passed `before`. -/
structure Sweep.Counted (fits : List ColumnFit) (before after : List ColumnSorting) (s : Sweep) : Prop where
  sensible : ∀ c ∈ fits, c.minWidth ≤ c.maxWidth
  points : (before ++ after).Perm (columnInfo fits)
  sorted : after.Pairwise ColumnSorting.InOrder
  passed : ∀ p ∈ before, p.width ≤ s.previousPoint
  ahead : ∀ p ∈ after, s.previousPoint ≤ p.width
  numberOfCurrentColumns : s.numberOfCurrentColumns = opened before

theorem Sweep.Counted.point_le (h : s.Counted fits before (point :: after)) : s.previousPoint ≤ point.width :=
  h.ahead point (List.mem_cons_self ..)

theorem Sweep.Counted.next (h : s.Counted fits before (point :: after)) :
    ∀ p ∈ point :: after, point.width ≤ p.width := by
  refine List.forall_mem_cons.mpr ⟨le_rfl, fun p hp => ?_⟩
  rcases List.rel_of_pairwise_cons h.sorted hp with hlt | ⟨heq, -⟩
  · exact hlt.le
  · exact heq.le

theorem Sweep.Counted.noneBetween (h : s.Counted fits before (point :: after)) :
    Filling.NoneBetween ColumnFit.minWidth ColumnFit.maxWidth s.previousPoint point.width fits :=
  noneBetween_of_perm h.points h.passed h.next

theorem Sweep.Counted.count (h : s.Counted fits before (point :: after)) (hg : s.previousPoint < point.width) :
    s.numberOfCurrentColumns = (fits.countP fun c => c.Current s.previousPoint point.width : ℕ) :=
  h.numberOfCurrentColumns.trans (opened_before h.sensible h.points h.passed h.next hg)

theorem Sweep.Counted.turn (h : s.Counted fits before (point :: after)) {s' : Sweep}
    (hc : s'.numberOfCurrentColumns = if point.isMax then s.numberOfCurrentColumns - 1 else s.numberOfCurrentColumns + 1)
    (hpt : s'.previousPoint = point.width) : s'.Counted fits (before ++ [point]) after where
  sensible := h.sensible
  points := by
    rw [List.append_assoc, List.singleton_append]
    exact h.points
  sorted := h.sorted.of_cons
  passed := by
    rw [hpt]
    refine List.forall_mem_append.mpr ⟨fun p hp => (h.passed p hp).trans h.point_le, ?_⟩
    exact List.forall_mem_singleton.mpr le_rfl
  ahead := by
    rw [hpt]
    exact fun p hp => h.next p (List.mem_cons_of_mem _ hp)
  numberOfCurrentColumns := by
    rw [hc, opened_append, h.numberOfCurrentColumns, opened, opened, zero_add]
    by_cases hm : point.isMax = true
    · rw [if_pos hm, if_pos hm]
      ring
    · rw [if_neg hm, if_neg hm]

/-- A column that has been filled to `a`, or that is short of its maximum by less than a unit. -/
structure ColumnFit.Reached (a : ℚ) (c c' : ColumnFit) : Prop where
  minWidth : c'.minWidth = c.minWidth
  maxWidth : c'.maxWidth = c.maxWidth
  lower : c.minWidth ≤ c'.currentWidth
  upper : c'.currentWidth ≤ Filling.level ColumnFit.minWidth ColumnFit.maxWidth a c
  near : c'.currentWidth = Filling.level ColumnFit.minWidth ColumnFit.maxWidth a c ∨ c.maxWidth < c'.currentWidth + 1

/-- As long as the free width is what the columns have left of the available one. -/
structure Sweep.Filled (fits : List ColumnFit) (available : ℚ) (before after : List ColumnSorting) (s : Sweep) : Prop
    extends s.Counted fits before after where
  columns : List.Forall₂ (ColumnFit.Reached s.previousPoint) fits s.fits
  remainingWidth : s.remainingWidth = available - (s.fits.map ColumnFit.currentWidth).sum
  nonneg : 0 ≤ s.remainingWidth

theorem ColumnFit.Reached.current_iff {c c' : ColumnFit} (h : c.Reached a c') (x y : ℚ) :
    c'.Current x y ↔ c.Current x y := by
  unfold ColumnFit.Current Filling.Grows
  rw [h.minWidth, h.maxWidth]

theorem countP_reached {fits' : List ColumnFit} (h : List.Forall₂ (ColumnFit.Reached a) fits fits') (x y : ℚ) :
    (fits'.countP fun c => c.Current x y) = fits.countP fun c => c.Current x y := by
  induction h with
  | nil => rfl
  | cons hf _ ih =>
    rw [List.countP_cons, List.countP_cons, ih]
    simp only [hf.current_iff x y]

theorem forall₂_and {P : ColumnFit → Prop} {R S : ColumnFit → ColumnFit → Prop} {fits' : List ColumnFit}
    (hP : ∀ c ∈ fits, P c) (hR : List.Forall₂ R fits fits') (h : ∀ c c', P c → R c c' → S c c') :
    List.Forall₂ S fits fits' := ((List.forall₂_and_left _ _).mpr ⟨hP, hR⟩).imp fun c c' hc => h c c' hc.1 hc.2

/-- What the turn changes beside the columns. -/
def Sweep.moved (s : Sweep) (fits : List ColumnFit) (remainingWidth : ℚ) (point : ColumnSorting) : Sweep where
  fits := fits
  remainingWidth := remainingWidth
  numberOfCurrentColumns := if point.isMax then s.numberOfCurrentColumns - 1 else s.numberOfCurrentColumns + 1
  previousPoint := point.width

theorem Sweep.turn_idle (hi : ¬ (s.numberOfCurrentColumns > 0 ∧ point.width - s.previousPoint > 0)) :
    s.turn point = s.moved s.fits s.remainingWidth point := by
  unfold Sweep.turn
  rw [if_neg hi]
  rfl

theorem Sweep.turn_grow (hg : s.numberOfCurrentColumns > 0 ∧ point.width - s.previousPoint > 0)
    (he : (point.width - s.previousPoint) * s.numberOfCurrentColumns ≤ s.remainingWidth) :
    s.turn point = s.moved (s.grow point.width).fits (s.grow point.width).remainingWidth point := by
  unfold Sweep.turn
  rw [if_pos hg, if_pos he]
  rfl

theorem Sweep.turn_share (hg : s.numberOfCurrentColumns > 0 ∧ point.width - s.previousPoint > 0)
    (hn : ¬ (point.width - s.previousPoint) * s.numberOfCurrentColumns ≤ s.remainingWidth) :
    s.turn point = s.moved (s.share point.width).fits (s.share point.width).remainingWidth point := by
  unfold Sweep.turn
  rw [if_pos hg, if_neg hn]
  rfl

theorem Sweep.Counted.moved (h : s.Counted fits before (point :: after)) (fits' : List ColumnFit) (remainingWidth : ℚ) :
    (s.moved fits' remainingWidth point).Counted fits (before ++ [point]) after := h.turn rfl rfl

theorem Sweep.Counted.level_eq (h : s.Counted fits before (point :: after))
    (hi : ¬ (s.numberOfCurrentColumns > 0 ∧ point.width - s.previousPoint > 0)) :
    ∀ c ∈ fits, Filling.level ColumnFit.minWidth ColumnFit.maxWidth point.width c =
      Filling.level ColumnFit.minWidth ColumnFit.maxWidth s.previousPoint c := by
  intro c hc
  rcases h.point_le.eq_or_lt with heq | hg
  · rw [heq]
  · obtain ⟨hlo, hup⟩ := h.noneBetween c hc
    have hn : ¬ c.Current s.previousPoint point.width := fun hgr => hi ⟨?_, sub_pos.mpr hg⟩
    · rw [Filling.level_eq_add (h.sensible c hc) hg hlo hup, if_neg hn]
    · rw [h.count hg]
      exact Nat.cast_pos.mpr (List.countP_pos_iff.mpr ⟨c, hc, decide_eq_true hgr⟩)

theorem Sweep.Filled.idle (h : s.Filled fits available before (point :: after))
    (hi : ¬ (s.numberOfCurrentColumns > 0 ∧ point.width - s.previousPoint > 0)) :
    (s.turn point).Filled fits available (before ++ [point]) after := by
  rw [Sweep.turn_idle hi]
  refine ⟨h.toCounted.moved _ _, ?_, h.remainingWidth, h.nonneg⟩
  refine forall₂_and (h.toCounted.level_eq hi) h.columns fun c c' hl hc => ?_
  exact ⟨hc.minWidth, hc.maxWidth, hc.lower, hc.upper.trans_eq hl.symm, hc.near.imp_left fun heq => heq.trans hl.symm⟩

theorem sum_grow (fits : List ColumnFit) (a b d : ℚ) :
    ((fits.map fun c => if c.Current a b then { c with currentWidth := c.currentWidth + d } else c).map
      ColumnFit.currentWidth).sum =
      (fits.map ColumnFit.currentWidth).sum + d * (fits.countP fun c => c.Current a b : ℕ) := by
  induction fits with
  | nil => simp
  | cons c fits ih =>
    rw [List.map_cons, List.map_cons, List.sum_cons, ih, List.map_cons, List.sum_cons]
    by_cases hg : c.Current a b
    · rw [if_pos hg,
        List.countP_cons_of_pos (p := fun c : ColumnFit => decide (c.Current a b)) (decide_eq_true hg)]
      push_cast
      ring
    · rw [if_neg hg,
        List.countP_cons_of_neg (p := fun c : ColumnFit => decide (c.Current a b)) (by rwa [decide_eq_true_eq])]
      ring

/-- A column in a gap that it fills. -/
theorem ColumnFit.Reached.grow {c c' : ColumnFit} (h : c.Reached a c') (ha : a < b) (hc : c.minWidth ≤ c.maxWidth)
    (hlo : c.minWidth ≤ a ∨ b ≤ c.minWidth) (hup : c.maxWidth ≤ a ∨ b ≤ c.maxWidth) :
    c.Reached b (if c'.Current a b then { c' with currentWidth := c'.currentWidth + (b - a) } else c') := by
  have hl := Filling.level_eq_add hc ha hlo hup
  by_cases hg : c'.Current a b
  · rw [if_pos ((h.current_iff a b).mp hg)] at hl
    rw [if_pos hg]
    have hlow := h.lower
    have hh := h.upper
    refine ⟨h.minWidth, h.maxWidth, ?_, ?_, ?_⟩
    · dsimp only
      linarith
    · dsimp only
      linarith
    · refine h.near.imp (fun heq => ?_) fun hlt => ?_
      · rw [hl, heq]
      · dsimp only
        linarith
  · rw [if_neg fun hcur => hg ((h.current_iff a b).mpr hcur)] at hl
    rw [if_neg hg]
    exact ⟨h.minWidth, h.maxWidth, h.lower, h.upper.trans_eq hl.symm, h.near.imp_left fun heq => heq.trans hl.symm⟩

theorem Sweep.Filled.count (h : s.Filled fits available before (point :: after)) (hg : s.previousPoint < point.width) :
    s.numberOfCurrentColumns = (s.fits.countP fun c => c.Current s.previousPoint point.width : ℕ) := by
  rw [countP_reached h.columns, h.toCounted.count hg]

theorem Sweep.Filled.grow (h : s.Filled fits available before (point :: after))
    (hgr : s.numberOfCurrentColumns > 0 ∧ point.width - s.previousPoint > 0)
    (he : (point.width - s.previousPoint) * s.numberOfCurrentColumns ≤ s.remainingWidth) :
    (s.turn point).Filled fits available (before ++ [point]) after := by
  have hg : s.previousPoint < point.width := sub_pos.mp hgr.2
  rw [Sweep.turn_grow hgr he]
  refine ⟨h.toCounted.moved _ _, ?_, ?_, sub_nonneg.mpr he⟩
  · refine List.forall₂_map_right_iff.mpr ?_
    refine forall₂_and (fun c hc => And.intro (h.sensible c hc) (h.toCounted.noneBetween c hc)) h.columns
      fun c c' hc hr => ?_
    exact hr.grow hg hc.1 hc.2.1 hc.2.2
  · have hs := sum_grow s.fits s.previousPoint point.width (point.width - s.previousPoint)
    rw [← Int.cast_natCast, ← h.count hg] at hs
    change s.remainingWidth - (point.width - s.previousPoint) * s.numberOfCurrentColumns =
      available - ((s.grow point.width).fits.map ColumnFit.currentWidth).sum
    unfold Sweep.grow
    dsimp only
    rw [hs, h.remainingWidth]
    ring

end Sweeping

/-! ## A gap that the free width does not fill -/

section Sharing

variable {fits old fits' : List ColumnFit} {available a b : ℚ} {quotient left : ℤ} {c c₀ c' : ColumnFit}

/-- A column after whole units have been shared out in a gap. -/
structure ColumnFit.Ended (a b : ℚ) (c c' : ColumnFit) : Prop where
  minWidth : c'.minWidth = c.minWidth
  maxWidth : c'.maxWidth = c.maxWidth
  within : c.minWidth ≤ c'.currentWidth ∧ c'.currentWidth ≤ c.maxWidth
  stays : ¬ c.Current a b → c.Reached a c'

/-- The units for one column: no more than it has room for, and all of these if it has no room then. -/
theorem exists_units (ha : a < b) (hq : 0 ≤ quotient) (hls : a + quotient < b) (hc : c.minWidth ≤ c.maxWidth)
    (ho : c.Reached a c₀) (h : c₀.Shared a b quotient c') :
    ∃ k : ℤ, 0 ≤ k ∧ c'.currentWidth = c₀.currentWidth + k ∧ c.Ended a b c' ∧ (k = 0 → c' = c₀) ∧
      k ≤ (if c.Current a b then ⌊c.maxWidth - a⌋ else 0) ∧
      ((c'.Current a b → c'.maxWidth < c'.currentWidth + 1) → k = if c.Current a b then ⌊c.maxWidth - a⌋ else 0) := by
  have hmin := h.minWidth.trans ho.minWidth
  have hm := h.maxWidth.trans ho.maxWidth
  by_cases hg : c.Current a b
  · obtain ⟨k, hk, hcur, hr⟩ := h.grows ((ho.current_iff a b).mpr hg)
    rw [if_pos hg]
    have hl : Filling.level ColumnFit.minWidth ColumnFit.maxWidth a c = a :=
      Filling.level_of_between hg.1 (ha.le.trans hg.2)
    have hup := ho.upper
    have hnr := ho.near
    rw [hl] at hup hnr
    have he : b ≤ c.maxWidth := hg.2
    have hp : 0 ≤ k := hq.trans hk
    have hps : (0 : ℚ) ≤ k := Int.cast_nonneg hp
    have hw : c'.currentWidth ≤ c.maxWidth := by
      rw [ho.maxWidth] at hr
      exact hr (by linarith)
    -- a column that is short by less than a unit gets none
    have hnn : c.maxWidth < c₀.currentWidth + 1 → k = 0 := fun hlt => by
      have hls' : (k : ℚ) < 1 := by linarith
      have hu : k < 1 := by exact_mod_cast hls'
      omega
    refine ⟨k, hp, hcur, ⟨hmin, hm, ⟨?_, hw⟩, fun hn => absurd hg hn⟩, fun hz => ?_, ?_, ?_⟩
    · have hlo := ho.lower
      linarith
    · refine ColumnFit.ext h.minWidth h.maxWidth ?_
      rw [hcur, hz, Int.cast_zero, add_zero]
    · rw [Int.le_floor]
      rcases hnr with heq | hlt
      · linarith
      · rw [hnn hlt, Int.cast_zero]
        linarith
    · intro hnoR
      have hla := hnoR ((Iff.of_eq (by unfold ColumnFit.Current Filling.Grows; rw [hmin, hm])).mpr hg)
      rw [hm, hcur] at hla
      refine (Int.floor_eq_iff.mpr ⟨?_, ?_⟩).symm
      · rcases hnr with heq | hlt
        · linarith
        · rw [hnn hlt, Int.cast_zero]
          linarith
      · linarith
  · obtain rfl := h.stays fun hcur => hg ((ho.current_iff a b).mp hcur)
    rw [if_neg hg]
    have hw := ho.upper.trans (Filling.level_le_upper hc a)
    exact ⟨0, le_rfl, by rw [Int.cast_zero, add_zero], ⟨ho.minWidth, ho.maxWidth, ⟨ho.lower, hw⟩, fun _ => ho⟩,
      fun _ => rfl, le_rfl, fun _ => rfl⟩

theorem exists_units_sum (hab : a < b) (hq : 0 ≤ quotient) (hls : a + quotient < b)
    (hft : ∀ c ∈ fits, c.minWidth ≤ c.maxWidth) (ho : List.Forall₂ (ColumnFit.Reached a) fits old)
    (h : List.Forall₂ (ColumnFit.Shared a b quotient) old fits') :
    List.Forall₂ (ColumnFit.Ended a b) fits fits' ∧ ∃ k : ℤ, 0 ≤ k ∧
      (fits'.map ColumnFit.currentWidth).sum = (old.map ColumnFit.currentWidth).sum + k ∧ (k = 0 → fits' = old) ∧
      k ≤ Filling.rooms ColumnFit.minWidth ColumnFit.maxWidth a b fits ∧
      (NoRoom a b fits' → k = Filling.rooms ColumnFit.minWidth ColumnFit.maxWidth a b fits) := by
  induction ho generalizing fits' with
  | nil =>
    cases h with
    | nil => exact ⟨.nil, 0, le_rfl, by simp, fun _ => rfl, le_rfl, fun _ => rfl⟩
  | @cons c c₀ fits old hf _ ih =>
    cases h with
    | @cons _ c' _ fits' hs hr =>
      obtain ⟨hc, hft⟩ := List.forall_mem_cons.mp hft
      obtain ⟨k, hk, hcur, he, hsm, hle, hfl⟩ := exists_units hab hq hls hc hf hs
      obtain ⟨ha, n, hn, hsum, hsam, hl, hful⟩ := ih hft hr
      refine ⟨.cons he ha, k + n, by omega, ?_, fun hz => ?_, ?_, fun hnoR => ?_⟩
      · rw [List.map_cons, List.sum_cons, List.map_cons, List.sum_cons, hsum, hcur]
        push_cast
        ring
      · rw [hsm (by omega), hsam (by omega)]
      · rw [Filling.rooms_cons]
        exact add_le_add hle hl
      · obtain ⟨hno, hnr⟩ := List.forall_mem_cons.mp hnoR
        rw [Filling.rooms_cons, hfl hno, hful hnr]

/-- The columns after sharing out, with `left` units left over. -/
structure Ended (fits : List ColumnFit) (available a b : ℚ) (old fits' : List ColumnFit) (left : ℤ) : Prop where
  columns : List.Forall₂ (ColumnFit.Ended a b) fits fits'
  sum : (fits'.map ColumnFit.currentWidth).sum + left =
    (old.map ColumnFit.currentWidth).sum + ⌊available - (old.map ColumnFit.currentWidth).sum⌋
  nonneg : 0 ≤ left
  noRoom : 0 < left → NoRoom a b fits'
  rooms : left = max 0 (⌊available - (old.map ColumnFit.currentWidth).sum⌋ -
    Filling.rooms ColumnFit.minWidth ColumnFit.maxWidth a b fits)
  same : left = ⌊available - (old.map ColumnFit.currentWidth).sum⌋ → fits' = old

/-- What is left of the free width, shared out. -/
theorem Sweep.Filled.share {s : Sweep} {before after : List ColumnSorting} {point : ColumnSorting}
    (h : s.Filled fits available before (point :: after))
    (hgr : s.numberOfCurrentColumns > 0 ∧ point.width - s.previousPoint > 0)
    (hn : ¬ (point.width - s.previousPoint) * s.numberOfCurrentColumns ≤ s.remainingWidth) :
    ∃ left, (s.share point.width).remainingWidth = (if left > 0 then s.remainingWidth else 0) ∧
      Ended fits available s.previousPoint point.width s.fits (s.share point.width).fits left := by
  have hg : s.previousPoint < point.width := sub_pos.mp hgr.2
  have hc := h.count hg
  obtain ⟨hcn, -⟩ := hgr
  have hint : 0 ≤ ⌊s.remainingWidth⌋ := Int.floor_nonneg.mpr h.nonneg
  obtain ⟨quotient, hq⟩ : ∃ q, q = ⌊s.remainingWidth⌋.tdiv s.numberOfCurrentColumns := ⟨_, rfl⟩
  have hd : quotient = ⌊s.remainingWidth⌋ / s.numberOfCurrentColumns := by
    rw [hq, Int.tdiv_eq_ediv_of_nonneg hint]
  have hnn : 0 ≤ quotient := by
    rw [hd]
    exact Int.ediv_nonneg hint hcn.le
  have hm : quotient * s.numberOfCurrentColumns ≤ ⌊s.remainingWidth⌋ := by
    rw [hd]
    exact Int.ediv_mul_le _ hcn.ne'
  have hls : s.previousPoint + quotient < point.width := by
    have hcs : (quotient : ℚ) * s.numberOfCurrentColumns ≤ s.remainingWidth := by
      refine le_trans ?_ (Int.floor_le s.remainingWidth)
      exact_mod_cast hm
    have hlt := lt_of_mul_lt_mul_right (hcs.trans_lt (not_le.mp hn)) (by exact_mod_cast hcn.le)
    linarith
  obtain ⟨remainder, hre⟩ : ∃ r, r = ⌊s.remainingWidth⌋ - quotient * s.numberOfCurrentColumns := ⟨_, rfl⟩
  have hr : 0 ≤ remainder := by omega
  have hsh : s.share point.width =
      let shared := shareDown s.previousPoint point.width quotient s.fits remainder
      let rest := shareRest s.previousPoint point.width remainder.toNat shared.1 remainder shared.2
      { s with fits := rest.1, remainingWidth := if rest.2 > 0 then s.remainingWidth else 0 } := by
    unfold Sweep.share
    rw [hre, hq]
  have hdw := shares_shareDown s.previousPoint point.width quotient s.fits remainder
  have htur : (shareDown s.previousPoint point.width quotient s.fits remainder).2 ≤ (remainder.toNat : ℤ) := by
    rw [Int.toNat_of_nonneg hr]
    exact hdw.le
  obtain ⟨hrs, hrm⟩ := shares_shareRest htur (hdw.nonneg hr) fun hle hp =>
    noRoom_shareDown (hp.trans_le hdw.le) (le_antisymm hdw.le hle)
  rw [hsh]
  refine ⟨_, rfl, ?_⟩
  dsimp only
  have hl := hrs.nonneg (hdw.nonneg hr)
  have ha := hdw.trans hrs
  obtain ⟨he, k, hk, hu, hsm, hle, hfl⟩ := exists_units_sum hg hnn hls h.sensible h.columns ha.columns
  have hs := ha.sum
  rw [← hc] at hs
  generalize shareRest s.previousPoint point.width remainder.toNat
    (shareDown s.previousPoint point.width quotient s.fits remainder).1 remainder
    (shareDown s.previousPoint point.width quotient s.fits remainder).2 = rest at hrm hl he hu hsm hfl hs ⊢
  -- the units that the columns have got and those that are left
  have ht : k + rest.2 = ⌊s.remainingWidth⌋ := by
    rw [hu, hre] at hs
    have hcs : ((k + rest.2 : ℤ) : ℚ) = ⌊s.remainingWidth⌋ := by
      push_cast at hs ⊢
      linarith
    exact_mod_cast hcs
  have hf : ⌊s.remainingWidth⌋ = ⌊available - (s.fits.map ColumnFit.currentWidth).sum⌋ := by rw [h.remainingWidth]
  rw [hf] at ht
  refine ⟨he, ?_, hl, hrm, ?_, fun ha => hsm (by omega)⟩
  · rw [hu, ← ht]
    push_cast
    ring
  · by_cases hp : 0 < rest.2
    · have hro := hfl (hrm hp)
      omega
    · omega

end Sharing

end GnustepGui.TableView
