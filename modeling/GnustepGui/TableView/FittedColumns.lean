import GnustepGui.TableView.ColumnSweep

/-!
# The widths that `sizeToFit` computes

Where the free width runs out, what is left of it is shared out in whole units. If the columns can take them all, or
none, or no column grows later, the widths are right (`sizeToFit_right`); otherwise the sweep goes on with a free
width that it has partly given away.
-/

namespace GnustepGui.TableView

/-! ## The whole sweep -/

section Running

variable {fits old fits' : List ColumnFit} {available a b : ℚ} {left : ℤ} {before after : List ColumnSorting}
  {point : ColumnSorting} {s : Sweep}

/-- The widths are right. -/
structure FitsRight (fits : List ColumnFit) (available : ℚ) (fits' : List ColumnFit) : Prop where
  columns : List.Forall₂ (fun c c' => c.minWidth ≤ c'.currentWidth ∧ c'.currentWidth ≤ c.maxWidth) fits fits'
  sum_le : (fits.map ColumnFit.minWidth).sum ≤ available → (fits'.map ColumnFit.currentWidth).sum ≤ available
  lt_sum : min available (fits.map ColumnFit.maxWidth).sum - (fits'.map ColumnFit.currentWidth).sum < fits.length

abbrev Sweep.UnitsFit (s : Sweep) (fits : List ColumnFit) (points : List ColumnSorting) : Prop :=
  Filling.UnitsFit ColumnFit.minWidth ColumnFit.maxWidth fits s.remainingWidth s.previousPoint
    (points.map ColumnSorting.width)

theorem length_pos_cast (hs : fits ≠ []) : (1 : ℚ) ≤ fits.length := Nat.one_le_cast.mpr (List.length_pos_of_ne_nil hs)

theorem sum_maxWidth_lt (h : List.Forall₂ (fun c c' : ColumnFit => c.maxWidth < c'.currentWidth + 1) fits fits')
    (hs : fits ≠ []) : (fits.map ColumnFit.maxWidth).sum < (fits'.map ColumnFit.currentWidth).sum + fits.length := by
  induction h with
  | nil => exact absurd rfl hs
  | @cons c c' fits fits' hf hr ih =>
    have hle : (fits.map ColumnFit.maxWidth).sum ≤ (fits'.map ColumnFit.currentWidth).sum + fits.length := by
      by_cases hn : fits = []
      · subst hn
        cases hr
        simp
      · exact (ih hn).le
    simp only [List.map_cons, List.sum_cons, List.length_cons]
    push_cast
    linarith

theorem Ended.sum_le (h : Ended fits available a b old fits' left) : (fits'.map ColumnFit.currentWidth).sum ≤ available := by
  have hs := h.sum
  have hf := Int.floor_le (available - (old.map ColumnFit.currentWidth).sum)
  have hl : (0 : ℚ) ≤ left := Int.cast_nonneg h.nonneg
  linarith

theorem Ended.fitsRight (h : Ended fits available a b old fits' 0) (hsm : fits ≠ []) :
    FitsRight fits available fits' where
  columns := h.columns.imp fun _ _ he => he.within
  sum_le _ := h.sum_le
  lt_sum := by
    have hs := h.sum
    have hf := Int.lt_floor_add_one (available - (old.map ColumnFit.currentWidth).sum)
    have hl := length_pos_cast hsm
    have hm := min_le_left available (fits.map ColumnFit.maxWidth).sum
    rw [Int.cast_zero, add_zero] at hs
    linarith

theorem forall₂_noRoom {R : ColumnFit → ColumnFit → Prop}
    (hb : ∀ c c', R c c' → c'.minWidth = c.minWidth ∧ c'.maxWidth = c.maxWidth) (hr : NoRoom a b fits')
    (h : List.Forall₂ R fits fits') :
    List.Forall₂ (fun c c' : ColumnFit => R c c' ∧ (c.Current a b → c.maxWidth < c'.currentWidth + 1)) fits fits' := by
  induction h with
  | nil => exact .nil
  | @cons c c' fits fits' hf _ ih =>
    obtain ⟨hrm, hrt⟩ := List.forall_mem_cons.mp hr
    obtain ⟨hmin, hm⟩ := hb c c' hf
    refine .cons ⟨hf, fun hg => ?_⟩ (ih hrt)
    rw [← hm]
    refine hrm ?_
    unfold ColumnFit.Current Filling.Grows
    rwa [hmin, hm]

/-- Units are left over, but no column grows later. -/
theorem Ended.fitsRight_last (h : Ended fits available a b old fits' left) (hp : 0 < left) (hs : fits ≠ [])
    (hft : ∀ c ∈ fits, c.minWidth ≤ c.maxWidth)
    (hn : Filling.NoneBetween ColumnFit.minWidth ColumnFit.maxWidth a b fits)
    (hls : ∀ c ∈ fits, c.minWidth = c.maxWidth ∨ c.maxWidth ≤ b) : FitsRight fits available fits' where
  columns := h.columns.imp fun _ _ he => he.within
  sum_le _ := h.sum_le
  lt_sum := by
    have hsh : List.Forall₂ (fun c c' : ColumnFit => c.maxWidth < c'.currentWidth + 1) fits fits' := by
      refine forall₂_and (fun c hc => And.intro (hft c hc) (And.intro (hn c hc) (hls c hc)))
        (forall₂_noRoom (fun _ _ he => ⟨he.minWidth, he.maxWidth⟩) (h.noRoom hp) h.columns) ?_
      rintro c c' ⟨hc, ⟨hlo, hup⟩, hl⟩ ⟨he, hgg⟩
      by_cases hg : c.Current a b
      · exact hgg hg
      have hfl : c.maxWidth ≤ Filling.level ColumnFit.minWidth ColumnFit.maxWidth a c := by
        rcases hl with hf | hb
        · exact hf.symm.trans_le (Filling.lower_le_level a c)
        · rcases hup with hup | hup
          · exact (Filling.level_of_upper_le hc hup).ge
          · have hst : b ≤ c.minWidth := hlo.resolve_left fun hle => hg ⟨hle, hup⟩
            exact (hb.trans hst).trans (Filling.lower_le_level a c)
      rcases (he.stays hg).near with heq | hlt
      · rw [heq]
        linarith
      · exact hlt
    have hlt := sum_maxWidth_lt hsh hs
    have hm := min_le_right available (fits.map ColumnFit.maxWidth).sum
    linarith

theorem Sweep.Counted.run_last (h : s.Counted fits before after)
    (hl : ∀ c ∈ fits, c.minWidth = c.maxWidth ∨ c.maxWidth ≤ s.previousPoint) : (s.run after).fits = s.fits := by
  induction after generalizing s before with
  | nil => rfl
  | cons point after ih =>
    have hi : ¬ (s.numberOfCurrentColumns > 0 ∧ point.width - s.previousPoint > 0) := by
      rintro ⟨hcnt, hg⟩
      rw [h.count (sub_pos.mp hg)] at hcnt
      obtain ⟨c, hc, hgr⟩ := List.countP_pos_iff.mp (Nat.cast_pos.mp hcnt)
      obtain ⟨hlo, hup⟩ := of_decide_eq_true hgr
      rcases hl c hc with hf | hb
      · linarith
      · linarith
    unfold Sweep.run
    rw [Sweep.turn_idle hi]
    dsimp only
    by_cases hs : (s.moved s.fits s.remainingWidth point).remainingWidth = 0
    · rw [if_pos hs]
      rfl
    · rw [if_neg hs]
      exact ih (h.moved _ _) fun c hc => (hl c hc).imp_right fun hle => hle.trans h.point_le

theorem Sweep.Filled.fitsRight (h : s.Filled fits available before after) (hs : fits ≠ [])
    (he : after = [] ∨ s.remainingWidth = 0) : FitsRight fits available s.fits where
  columns := forall₂_and h.sensible h.columns fun c c' hc hr =>
    ⟨hr.lower, hr.upper.trans (Filling.level_le_upper hc _)⟩
  sum_le _ := by
    have hn := h.nonneg
    rw [h.remainingWidth] at hn
    linarith
  lt_sum := by
    rcases he with rfl | hz
    · have ha : ∀ c ∈ fits, c.minWidth ≤ c.maxWidth ∧ c.maxWidth ≤ s.previousPoint := fun c hc => by
        have hm := h.points.mem_iff.mpr (mem_columnInfo.mpr ⟨c, hc, .inr rfl⟩)
        rw [List.append_nil] at hm
        exact ⟨h.sensible c hc, h.passed _ hm⟩
      have hsh : List.Forall₂ (fun c c' : ColumnFit => c.maxWidth < c'.currentWidth + 1) fits s.fits := by
        refine forall₂_and ha h.columns fun c c' hc hr => ?_
        rcases hr.near with heq | hlt
        · rw [heq, Filling.level_of_upper_le hc.1 hc.2]
          exact lt_add_one _
        · exact hlt
      have hlt := sum_maxWidth_lt hsh hs
      have hmin := min_le_right available (fits.map ColumnFit.maxWidth).sum
      linarith
    · have hl := length_pos_cast hs
      rw [h.remainingWidth] at hz
      have hmin := min_le_left available (fits.map ColumnFit.maxWidth).sum
      linarith

theorem Sweep.Filled.pass (h : s.Filled fits available before (point :: after)) (hg : s.previousPoint < point.width)
    (he : Ended fits available s.previousPoint point.width s.fits fits' left) (hp : 0 < left)
    (hrm : Filling.rooms ColumnFit.minWidth ColumnFit.maxWidth s.previousPoint point.width fits = 0) :
    (s.moved fits' s.remainingWidth point).Filled fits available (before ++ [point]) after := by
  have hs : fits' = s.fits := by
    refine he.same ?_
    have hlf := he.rooms
    rw [hrm, sub_zero] at hlf
    omega
  have hro := he.noRoom hp
  subst hs
  refine ⟨h.toCounted.moved _ _, ?_, h.remainingWidth, h.nonneg⟩
  have hl : ∀ c ∈ fits, c.minWidth ≤ c.maxWidth ∧ ((c.minWidth ≤ s.previousPoint ∨ point.width ≤ c.minWidth) ∧
      (c.maxWidth ≤ s.previousPoint ∨ point.width ≤ c.maxWidth)) := fun c hc =>
    ⟨h.sensible c hc, h.toCounted.noneBetween c hc⟩
  have hb := forall₂_noRoom (fun _ _ hr => ⟨hr.minWidth, hr.maxWidth⟩) hro h.columns
  refine forall₂_and hl hb fun c c' ⟨hc, hlo, hup⟩ ⟨hr, hgg⟩ => ?_
  have hn := Filling.level_eq_add hc hg hlo hup
  by_cases hgr : c.Current s.previousPoint point.width
  · rw [if_pos hgr] at hn
    have hh := hr.upper
    refine ⟨hr.minWidth, hr.maxWidth, hr.lower, ?_, .inr (hgg hgr)⟩
    change c'.currentWidth ≤ Filling.level ColumnFit.minWidth ColumnFit.maxWidth point.width c
    linarith
  · rw [if_neg hgr] at hn
    exact ⟨hr.minWidth, hr.maxWidth, hr.lower, hr.upper.trans_eq hn.symm,
      hr.near.imp_left fun heq => heq.trans hn.symm⟩

theorem Sweep.Counted.needs_idle (h : s.Counted fits before (point :: after))
    (hi : ¬ (s.numberOfCurrentColumns > 0 ∧ point.width - s.previousPoint > 0)) : (point.width - s.previousPoint) *
      (fits.countP fun c => Filling.Grows ColumnFit.minWidth ColumnFit.maxWidth s.previousPoint point.width c : ℕ) = 0 := by
  rcases h.point_le.eq_or_lt with heq | hg
  · rw [heq, sub_self, zero_mul]
  · have hn : ¬ s.numberOfCurrentColumns > 0 := fun hc => hi ⟨hc, sub_pos.mpr hg⟩
    rw [h.count hg] at hn
    have hz : (fits.countP fun c => c.Current s.previousPoint point.width) = 0 := by omega
    rw [hz, Nat.cast_zero, mul_zero]

theorem Sweep.Filled.turn_cases (h : s.Filled fits available before (point :: after)) :
    (∃ s', s.turn point = s' ∧ s'.Filled fits available (before ++ [point]) after ∧
      (s.UnitsFit fits (point :: after) ↔ s'.UnitsFit fits after)) ∨
    ∃ fits' left, s.previousPoint < point.width ∧ Ended fits available s.previousPoint point.width s.fits fits' left ∧
      s.turn point = s.moved fits' (if left > 0 then s.remainingWidth else 0) point ∧
      (s.UnitsFit fits (point :: after) ↔
        ⌊s.remainingWidth⌋ ≤ Filling.rooms ColumnFit.minWidth ColumnFit.maxWidth s.previousPoint point.width fits ∨
        Filling.rooms ColumnFit.minWidth ColumnFit.maxWidth s.previousPoint point.width fits = 0 ∧
          (s.moved fits' s.remainingWidth point).UnitsFit fits after ∨
        ∀ c ∈ fits, c.minWidth = c.maxWidth ∨ c.maxWidth ≤ point.width) := by
  unfold Sweep.UnitsFit
  rw [List.map_cons, Filling.UnitsFit]
  by_cases hgr : s.numberOfCurrentColumns > 0 ∧ point.width - s.previousPoint > 0
  swap
  · refine .inl ⟨_, rfl, h.idle hgr, ?_⟩
    rw [h.toCounted.needs_idle hgr, if_pos h.nonneg, sub_zero, Sweep.turn_idle hgr]
    rfl
  have hg : s.previousPoint < point.width := sub_pos.mp hgr.2
  have hc : ((fits.countP fun c => Filling.Grows ColumnFit.minWidth ColumnFit.maxWidth s.previousPoint point.width c : ℕ) : ℚ) =
      s.numberOfCurrentColumns := by
    rw [h.toCounted.count hg, Int.cast_natCast]
  rw [hc]
  by_cases he : (point.width - s.previousPoint) * s.numberOfCurrentColumns ≤ s.remainingWidth
  · refine .inl ⟨_, rfl, h.grow hgr he, ?_⟩
    rw [if_pos he, Sweep.turn_grow hgr he]
    rfl
  · obtain ⟨left, hr, hed⟩ := h.share hgr he
    refine .inr ⟨_, left, hg, hed, ?_, ?_⟩
    · rw [Sweep.turn_share hgr he, hr]
    · rw [if_neg he]
      rfl

theorem Sweep.Filled.run (h : s.Filled fits available before after) (hsm : fits ≠ []) (hf : s.UnitsFit fits after) :
    FitsRight fits available (s.run after).fits := by
  induction after generalizing s before with
  | nil => exact h.fitsRight hsm (.inl rfl)
  | cons point after ih =>
    have hn : ∀ {s' : Sweep}, s.turn point = s' → s'.Filled fits available (before ++ [point]) after →
        s'.UnitsFit fits after → FitsRight fits available (s.run (point :: after)).fits := by
      rintro s' rfl hs' hf'
      unfold Sweep.run
      dsimp only
      by_cases hst : (s.turn point).remainingWidth = 0
      · rw [if_pos hst]
        exact hs'.fitsRight hsm (.inr hst)
      · rw [if_neg hst]
        exact ih hs' hf'
    rcases h.turn_cases with ⟨s', ht, hs', hi⟩ | ⟨fits', left, hg, he, ht, hi⟩
    · exact hn ht hs' (hi.mp hf)
    by_cases hl : left > 0
    swap
    · -- all whole units have been given out
      obtain rfl : left = 0 := le_antisymm (not_lt.mp hl) he.nonneg
      unfold Sweep.run
      dsimp only
      rw [ht, if_neg hl, if_pos (show (s.moved fits' 0 point).remainingWidth = 0 from rfl)]
      exact he.fitsRight hsm
    rw [if_pos hl] at ht
    have hrm := he.rooms
    rw [← h.remainingWidth] at hrm
    rcases hi.mp hf with ha | ⟨hnn, hrs⟩ | hls
    · omega
    · exact hn ht (h.pass hg he hl hnn) hrs
    · have hr := he.fitsRight_last hl hsm h.sensible h.toCounted.noneBetween hls
      unfold Sweep.run
      dsimp only
      rw [ht]
      by_cases hst : (s.moved fits' s.remainingWidth point).remainingWidth = 0
      · rw [if_pos hst]
        exact hr
      · rw [if_neg hst, (h.toCounted.moved fits' s.remainingWidth).run_last hls]
        exact hr

/-! ## The start -/

theorem filled_start {first : ColumnSorting} {points : List ColumnSorting} (hft : ∀ c ∈ fits, c.minWidth ≤ c.maxWidth)
    (hst : ∀ c ∈ fits, c.currentWidth = c.minWidth) (hpr : (first :: points).Perm (columnInfo fits))
    (hs : (first :: points).Pairwise ColumnSorting.InOrder) (hn : 0 ≤ available - (fits.map ColumnFit.minWidth).sum) :
    (Sweep.mk fits (available - (fits.map ColumnFit.minWidth).sum) 1 first.width).Filled fits available [first] points := by
  have hls : ∀ p ∈ first :: points, p = first ∨ first.InOrder p := fun p hp =>
    (List.mem_cons.mp hp).imp_right (List.rel_of_pairwise_cons hs)
  have hlo : ∀ c ∈ fits, first.width ≤ c.minWidth := fun c hc => by
    rcases hls _ (hpr.mem_iff.mpr (mem_columnInfo.mpr ⟨c, hc, .inl rfl⟩)) with heq | hlt | ⟨heq, -⟩
    · exact heq.symm ▸ le_rfl
    · exact hlt.le
    · exact heq.le
  -- the first point is a minimum width
  have hmin : first.isMax = false := by
    obtain ⟨c, hc, hf | hf⟩ := mem_columnInfo.mp (hpr.mem_iff.mp (List.mem_cons_self ..))
    · rw [hf]
    · rcases hls _ (hpr.mem_iff.mpr (mem_columnInfo.mpr ⟨c, hc, .inl rfl⟩)) with heq | hlt | ⟨-, hm⟩
      · rw [← heq]
      · rw [hf] at hlt
        exact absurd hlt (not_lt.mpr (hft c hc))
      · rw [hf] at hm
        exact absurd (hm rfl) Bool.false_ne_true
  have hsum : fits.map ColumnFit.currentWidth = fits.map ColumnFit.minWidth := List.map_congr_left hst
  refine ⟨⟨hft, hpr, hs.of_cons, List.forall_mem_singleton.mpr le_rfl, fun p hp => ?_, ?_⟩,
    List.forall₂_same.mpr fun c hc => ?_, by rw [hsum], hn⟩
  · rcases List.rel_of_pairwise_cons hs hp with hlt | ⟨heq, -⟩
    · exact hlt.le
    · exact heq.le
  · change (1 : ℤ) = 0 + if first.isMax then -1 else 1
    rw [hmin]
    rfl
  · have hl := (Filling.level_of_le_lower (hft c hc) (hlo c hc)).trans (hst c hc).symm
    exact ⟨rfl, rfl, (hst c hc).ge, hl.ge, .inl hl.symm⟩

/-- If the columns fit at their least widths, the units of what is left fit too. -/
def UnitsFit {ι : Type*} (lower upper : ι → ℚ) (columns : List ι) (available : ℚ) : Prop :=
  (columns.map lower).sum ≤ available →
    Filling.AllUnitsFit lower upper columns (available - (columns.map lower).sum)

instance {ι : Type*} (lower upper : ι → ℚ) (columns : List ι) (available : ℚ) :
    Decidable (UnitsFit lower upper columns available) :=
  inferInstanceAs (Decidable (_ → _))

theorem allUnitsFit_points {first : ColumnSorting} {points : List ColumnSorting}
    (hp : (first :: points).Perm (columnInfo fits)) (hs : (first :: points).Pairwise ColumnSorting.InOrder)
    (free : ℚ) : Filling.AllUnitsFit ColumnFit.minWidth ColumnFit.maxWidth fits free ↔
      Filling.UnitsFit ColumnFit.minWidth ColumnFit.maxWidth fits free first.width (points.map ColumnSorting.width) := by
  have hw : (columnInfo fits).map ColumnSorting.width = Filling.bounds ColumnFit.minWidth ColumnFit.maxWidth fits := by
    unfold columnInfo Filling.bounds
    rw [List.map_flatMap]
    rfl
  refine Filling.allUnitsFit_iff ?_ ?_ free
  · rw [← hw]
    exact hp.map ColumnSorting.width
  · refine List.pairwise_map (f := ColumnSorting.width) (l := first :: points) |>.mpr (hs.imp ?_)
    rintro p q (hlt | ⟨heq, -⟩)
    · exact hlt.le
    · exact heq.le

/-- The computed widths. -/
theorem fitColumns_right (hsm : fits ≠ []) (hft : ∀ c ∈ fits, c.minWidth ≤ c.maxWidth)
    (hst : ∀ c ∈ fits, c.currentWidth = c.minWidth) (available : ℚ) :
    ∃ fits', fitColumns fits available = some fits' ∧ (UnitsFit ColumnFit.minWidth ColumnFit.maxWidth fits available →
      FitsRight fits available fits') := by
  have hin : columnInfo fits ≠ [] := by
    obtain ⟨c, rest, rfl⟩ := List.exists_cons_of_ne_nil hsm
    exact List.cons_ne_nil _ _
  obtain ⟨sorted, hsr, hp, hs⟩ := exists_quickSortInternal le_rfl hin
  unfold fitColumns
  dsimp only
  rw [← length_columnInfo, hsr]
  cases sorted with
  | nil => exact absurd hp.nil_eq.symm hin
  | cons first points =>
    dsimp only
    by_cases hn : available - (fits.map ColumnFit.minWidth).sum ≥ 0
    · rw [if_pos hn]
      refine ⟨_, rfl, fun hf => (filled_start hft hst hp hs hn).run hsm ?_⟩
      exact (allUnitsFit_points hp hs _).mp (hf (sub_nonneg.mp hn))
    · rw [if_neg hn]
      have hls := sub_neg.mp (not_le.mp hn)
      have hsum : fits.map ColumnFit.currentWidth = fits.map ColumnFit.minWidth := List.map_congr_left hst
      refine ⟨fits, rfl, fun _ => ⟨List.forall₂_same.mpr fun c hc => ?_, fun hle => absurd hle (not_le.mpr hls), ?_⟩⟩
      · rw [hst c hc]
        exact ⟨le_rfl, hft c hc⟩
      · have hl := length_pos_cast hsm
        have hm := min_le_left available (fits.map ColumnFit.maxWidth).sum
        rw [hsum]
        linarith

end Running

/-! ## The columns -/

namespace SizedColumn

/-- The bounds of a column; one that is not resizable keeps its width. -/
def lower (tb : SizedColumn) : ℚ := if tb.isResizable then tb.minWidth else tb.width

def upper (tb : SizedColumn) : ℚ := if tb.isResizable then tb.maxWidth else tb.width

abbrev Sensible (tb : SizedColumn) : Prop := tb.isResizable = true → 0 ≤ tb.minWidth ∧ tb.minWidth ≤ tb.maxWidth

variable {tb : SizedColumn}

theorem Sensible.fit (h : tb.Sensible) : tb.fit = ⟨tb.lower, tb.upper, tb.lower⟩ := by
  unfold SizedColumn.fit lower upper
  by_cases hr : tb.isResizable = true
  · obtain ⟨hn, hle⟩ := h hr
    rw [if_pos hr, if_pos hr, if_pos hr]
    dsimp only
    rw [if_neg (not_lt.mpr hn), if_neg (not_lt.mpr hle)]
  · rw [if_neg hr, if_neg hr, if_neg hr]

theorem Sensible.lower_le_upper (h : tb.Sensible) : tb.lower ≤ tb.upper := by
  unfold lower upper
  by_cases hr : tb.isResizable = true
  · rw [if_pos hr, if_pos hr]
    exact (h hr).2
  · rw [if_neg hr, if_neg hr]

theorem setWidth_width {w : ℚ} (hm : tb.minWidth ≤ w) (hmax : w ≤ tb.maxWidth) : (tb.setWidth w).width = w := by
  unfold setWidth
  rw [if_neg (not_lt.mpr hmax), if_neg (not_lt.mpr hm)]

end SizedColumn

/-- The widths are within the bounds, not more than there is place for, and short of what there is place for by less
than one unit for each column. -/
structure WidthsRight (columns : List SizedColumn) (available : ℚ) (columns' : List SizedColumn) : Prop where
  within : List.Forall₂ (fun tb tb' => tb.lower ≤ tb'.width ∧ tb'.width ≤ tb.upper) columns columns'
  sum_le : (columns.map SizedColumn.lower).sum ≤ available → (columns'.map SizedColumn.width).sum ≤ available
  lt_sum : columns ≠ [] →
    min available (columns.map SizedColumn.upper).sum - (columns'.map SizedColumn.width).sum < columns.length

/-- What `sizeToFit` should do: it sorts the points, and the widths come out right. -/
structure SizesRight (columns : List SizedColumn) (available : ℚ) : Prop where
  sorts : columns ≠ [] → ∃ sorted,
    quickSortInternal (2 * columns.length) (columnInfo (columns.map SizedColumn.fit)) 0 (2 * columns.length - 1) =
      some sorted ∧ sorted.Perm (columnInfo (columns.map SizedColumn.fit)) ∧ sorted.Pairwise ColumnSorting.InOrder
  widths : ∃ columns', sizeToFit columns available = some columns' ∧ WidthsRight columns available columns'

section Columns

variable {columns : List SizedColumn} {available : ℚ}

theorem fits_sensible (hc : ∀ tb ∈ columns, tb.Sensible) :
    columns.map SizedColumn.fit = columns.map fun tb => ⟨tb.lower, tb.upper, tb.lower⟩ :=
  List.map_congr_left fun tb ht => (hc tb ht).fit

/-- What `setWidth:` makes of the computed widths. -/
theorem forall₂_setWidth {fits : List ColumnFit}
    (h : List.Forall₂ (fun tb c => tb.lower ≤ c.currentWidth ∧ c.currentWidth ≤ tb.upper) columns fits) :
    let columns' := columns.zipWith (fun tb c => if tb.isResizable then tb.setWidth c.currentWidth else tb) fits
    List.Forall₂ (fun tb tb' => tb.lower ≤ tb'.width ∧ tb'.width ≤ tb.upper) columns columns' ∧
      columns'.map SizedColumn.width = fits.map ColumnFit.currentWidth := by
  induction h with
  | nil => exact ⟨.nil, rfl⟩
  | @cons tb c columns fits hf _ ih =>
    have hw : (if tb.isResizable then tb.setWidth c.currentWidth else tb).width = c.currentWidth := by
      obtain ⟨hlo, hup⟩ := hf
      unfold SizedColumn.lower at hlo
      unfold SizedColumn.upper at hup
      by_cases hr : tb.isResizable = true
      · rw [if_pos hr] at hlo hup ⊢
        exact SizedColumn.setWidth_width hlo hup
      · rw [if_neg hr] at hlo hup ⊢
        exact le_antisymm hlo hup
    dsimp only at ih ⊢
    rw [List.zipWith_cons_cons, List.map_cons, List.map_cons, ih.2, hw]
    exact ⟨.cons (by rwa [hw]) ih.1, rfl⟩

theorem unitsFit_fits (hc : ∀ tb ∈ columns, tb.Sensible)
    (hf : UnitsFit SizedColumn.lower SizedColumn.upper columns available) :
    UnitsFit ColumnFit.minWidth ColumnFit.maxWidth (columns.map SizedColumn.fit) available := by
  rw [fits_sensible hc]
  intro hle
  rw [List.map_map] at hle ⊢
  exact (Filling.allUnitsFit_map (fun tb : SizedColumn => ColumnFit.mk tb.lower tb.upper tb.lower) _ _ columns _).mpr
    (hf hle)

end Columns

/-- If the columns that grow where the width runs out can take its whole units, or none can, or none grows later, the
widths are right. -/
theorem sizeToFit_right (columns : List SizedColumn) (hcolumns : ∀ tb ∈ columns, tb.Sensible) (available : ℚ)
    (hfit : UnitsFit SizedColumn.lower SizedColumn.upper columns available) : SizesRight columns available := by
  have hl : (columnInfo (columns.map SizedColumn.fit)).length = 2 * columns.length := by
    rw [length_columnInfo, List.length_map]
  by_cases hsm : columns = []
  · subst hsm
    exact ⟨fun h => absurd rfl h, [], rfl, .nil, fun h => h, fun h => absurd rfl h⟩
  have hf : columns.map SizedColumn.fit ≠ [] := by rwa [ne_eq, List.map_eq_nil_iff]
  have hb : ∀ tb ∈ columns, tb.fit = ⟨tb.lower, tb.upper, tb.lower⟩ := fun tb ht => (hcolumns tb ht).fit
  constructor
  · intro _
    have hin : columnInfo (columns.map SizedColumn.fit) ≠ [] := by
      rw [← List.length_pos_iff, hl]
      have := List.length_pos_of_ne_nil hsm
      omega
    rw [← hl]
    exact exists_quickSortInternal le_rfl hin
  · obtain ⟨fits', hfc, hr⟩ := fitColumns_right hf
      (List.forall_mem_map.mpr fun tb ht => by rw [hb tb ht]; exact (hcolumns tb ht).lower_le_upper)
      (List.forall_mem_map.mpr fun tb ht => by rw [hb tb ht]) available
    have ha := hr (unitsFit_fits hcolumns hfit)
    have hw : List.Forall₂ (fun tb c => tb.lower ≤ c.currentWidth ∧ c.currentWidth ≤ tb.upper) columns fits' := by
      have hc := ha.columns
      rw [fits_sensible hcolumns] at hc
      exact List.forall₂_map_left_iff.mp hc
    obtain ⟨hset, hs⟩ := forall₂_setWidth hw
    refine ⟨_, ?_, hset, fun hle => ?_, fun _ => ?_⟩
    · unfold sizeToFit
      rw [if_neg (List.length_pos_of_ne_nil hsm).ne', hfc]
    · rw [hs]
      refine ha.sum_le ?_
      rw [fits_sensible hcolumns, List.map_map]
      exact hle
    · have hlt := ha.lt_sum
      rw [fits_sensible hcolumns, List.map_map, List.length_map] at hlt
      rw [hs]
      exact hlt

/-- The condition is met, for instance, where all widths are whole. -/
theorem sizeToFit_right_whole :
    SizesRight [⟨true, 10, 40, 10⟩, ⟨false, 0, 100, 25⟩, ⟨true, 5, 20, 5⟩] 71 :=
  sizeToFit_right _ (by decide +kernel) 71 (by decide +kernel)

/-- Two columns that end between whole units leave one over, and the third column gets both. -/
theorem not_sizeToFit_right :
    ¬ ∀ columns : List SizedColumn, (∀ tb ∈ columns, tb.Sensible) → ∀ available, SizesRight columns available := by
  intro h
  obtain ⟨columns', hsz, -, hle, -⟩ :=
    (h [⟨true, 0, 19/10, 0⟩, ⟨true, 0, 19/10, 0⟩, ⟨true, 5, 8, 5⟩] (by decide +kernel) 8).widths
  have hw : (sizeToFit [⟨true, 0, 19/10, 0⟩, ⟨true, 0, 19/10, 0⟩, ⟨true, 5, 8, 5⟩] 8).map
      (fun columns => columns.map SizedColumn.width) = some [1, 1, 8] := by decide +kernel
  rw [hsz] at hw
  have hl : columns'.map SizedColumn.width = [1, 1, 8] := Option.some.inj hw
  have hs := hle (by decide +kernel)
  rw [hl] at hs
  exact absurd hs (by decide +kernel)

end GnustepGui.TableView
