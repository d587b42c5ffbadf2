import GnustepGui.Library.Filling
import GnustepGui.Library.Quicksort
import Mathlib.Data.Rat.Floor

/-!
# `sizeToFit`

The columns start at their minimum widths. The minimum and maximum widths of all columns are sorted, and
between one and the next the columns that have begun to grow and are not full grow alike, as long as the free
width lasts. The last of it is given out in whole units, from the last column to the first.
-/

namespace GnustepGui.TableView

/-- What `sizeToFit` asks a column. -/
structure SizedColumn where
  isResizable : Bool
  minWidth : ℚ
  maxWidth : ℚ
  width : ℚ
deriving DecidableEq, Repr

def SizedColumn.setWidth (tb : SizedColumn) (newWidth : ℚ) : SizedColumn :=
  if newWidth > tb.maxWidth then { tb with width := tb.maxWidth }
  else if newWidth < tb.minWidth then { tb with width := tb.minWidth }
  else { tb with width := newWidth }

/-- `columnSorting` -/
structure ColumnSorting where
  width : ℚ
  isMax : Bool
deriving DecidableEq, Repr

/-- The comparison of `quick_sort_internal`: by width, and minimum widths first. -/
def ColumnSorting.before (a b : ColumnSorting) : Bool :=
  a.width < b.width || (a.width == b.width && b.isMax && !a.isMax)

def quickSortInternal (fuel : Nat) (data : List ColumnSorting) (p r : Nat) : Option (List ColumnSorting) :=
  Quicksort.sort ColumnSorting.before fuel data p r

/-- The entries of `minWidth`, `maxWidth` and `currentWidth` for one column. -/
@[ext]
structure ColumnFit where
  minWidth : ℚ
  maxWidth : ℚ
  currentWidth : ℚ
deriving DecidableEq, Repr

/-- The first loop. A column with contradictory widths keeps its own. -/
def SizedColumn.fit (tb : SizedColumn) : ColumnFit :=
  if tb.isResizable then
    let minWidth := if tb.minWidth < 0 then 0 else tb.minWidth
    if minWidth > tb.maxWidth then ⟨tb.width, tb.width, tb.width⟩ else ⟨minWidth, tb.maxWidth, minWidth⟩
  else ⟨tb.width, tb.width, tb.width⟩

def columnInfo (fits : List ColumnFit) : List ColumnSorting :=
  fits.flatMap fun c => [⟨c.minWidth, false⟩, ⟨c.maxWidth, true⟩]

/-! ## Sharing out whole units -/

/-- The columns that grow between two points. -/
abbrev ColumnFit.Current (previousPoint nextPoint : ℚ) (c : ColumnFit) : Prop :=
  Filling.Grows ColumnFit.minWidth ColumnFit.maxWidth previousPoint nextPoint c

/-- One more unit for a column, if one remains and the column has room for it. -/
def ColumnFit.takeUnit (c : ColumnFit) (remainder : ℤ) : ColumnFit × ℤ :=
  if remainder > 0 ∧ c.maxWidth ≥ c.currentWidth + 1 then
    ({ c with currentWidth := c.currentWidth + 1 }, remainder - 1)
  else (c, remainder)

/-- The loop from the last column to the first. -/
def shareDown (previousPoint nextPoint : ℚ) (quotient : ℤ) : List ColumnFit → ℤ → List ColumnFit × ℤ
  | [], remainder => ([], remainder)
  | c :: fits, remainder =>
    let rest := shareDown previousPoint nextPoint quotient fits remainder
    if c.Current previousPoint nextPoint then
      let taken := { c with currentWidth := c.currentWidth + quotient }.takeUnit rest.2
      (taken.1 :: rest.1, taken.2)
    else (c :: rest.1, rest.2)

/-- The loop from the first column to the last. -/
def shareUp (previousPoint nextPoint : ℚ) : List ColumnFit → ℤ → List ColumnFit × ℤ
  | [], remainder => ([], remainder)
  | c :: fits, remainder =>
    let taken := if c.Current previousPoint nextPoint then c.takeUnit remainder else (c, remainder)
    let rest := shareUp previousPoint nextPoint fits taken.2
    (taken.1 :: rest.1, rest.2)

/-- The loop around it, at most `turns` times. -/
def shareRest (previousPoint nextPoint : ℚ) : (turns : Nat) → List ColumnFit → (oldRemainder remainder : ℤ) →
    List ColumnFit × ℤ
  | 0, fits, _, remainder => (fits, remainder)
  | turns + 1, fits, oldRemainder, remainder =>
    if oldRemainder > remainder ∧ remainder > 0 then
      let shared := shareUp previousPoint nextPoint fits remainder
      shareRest previousPoint nextPoint turns shared.1 remainder shared.2
    else (fits, remainder)

/-! ## The sweep over the points -/

structure Sweep where
  fits : List ColumnFit
  remainingWidth : ℚ
  numberOfCurrentColumns : ℤ
  previousPoint : ℚ
deriving DecidableEq, Repr

/-- The free width is enough for all current columns to grow to the next point. -/
def Sweep.grow (s : Sweep) (nextPoint : ℚ) : Sweep :=
  { s with
    remainingWidth := s.remainingWidth - (nextPoint - s.previousPoint) * s.numberOfCurrentColumns
    fits := s.fits.map fun c =>
      if c.Current s.previousPoint nextPoint then
        { c with currentWidth := c.currentWidth + (nextPoint - s.previousPoint) }
      else c }

/-- The free width is not enough. If units are left over, `remainingWidth` stays as it is. -/
def Sweep.share (s : Sweep) (nextPoint : ℚ) : Sweep :=
  let remainingInt := ⌊s.remainingWidth⌋
  let quotient := remainingInt.tdiv s.numberOfCurrentColumns
  let remainder := remainingInt - quotient * s.numberOfCurrentColumns
  let shared := shareDown s.previousPoint nextPoint quotient s.fits remainder
  let rest := shareRest s.previousPoint nextPoint remainder.toNat shared.1 remainder shared.2
  { s with
    fits := rest.1
    remainingWidth := if rest.2 > 0 then s.remainingWidth else 0 }

/-- One turn of the loop over the points. -/
def Sweep.turn (s : Sweep) (point : ColumnSorting) : Sweep :=
  let s' :=
    if s.numberOfCurrentColumns > 0 ∧ point.width - s.previousPoint > 0 then
      if (point.width - s.previousPoint) * s.numberOfCurrentColumns ≤ s.remainingWidth then s.grow point.width
      else s.share point.width
    else s
  { s' with
    numberOfCurrentColumns := if point.isMax then s'.numberOfCurrentColumns - 1 else s'.numberOfCurrentColumns + 1
    previousPoint := point.width }

/-- The loop, which ends early when nothing remains. -/
def Sweep.run (s : Sweep) : List ColumnSorting → Sweep
  | [] => s
  | point :: points =>
    let s := s.turn point
    if s.remainingWidth = 0 then s else s.run points

/-- The widths that are computed, for columns in a superview where `available` is the greatest visible `x`. -/
def fitColumns (fits : List ColumnFit) (available : ℚ) : Option (List ColumnFit) :=
  let remainingWidth := available - (fits.map ColumnFit.minWidth).sum
  match quickSortInternal (columnInfo fits).length (columnInfo fits) 0 (2 * fits.length - 1) with
  | none => none
  | some [] => none
  | some (first :: points) =>
    if remainingWidth ≥ 0 then some (Sweep.run ⟨fits, remainingWidth, 1, first.width⟩ points).fits
    else some fits

/-- The columns that `sizeToFit` leaves. -/
def sizeToFit (columns : List SizedColumn) (available : ℚ) : Option (List SizedColumn) :=
  if columns.length = 0 then some columns
  else
    match fitColumns (columns.map SizedColumn.fit) available with
    | none => none
    | some fits =>
      some (columns.zipWith (fun tb c => if tb.isResizable then tb.setWidth c.currentWidth else tb) fits)

/-! ## What sharing does -/

section Sharing

variable {a b : ℚ} {quotient q r : ℤ} {c c' c'' : ColumnFit} {fits fits' fits'' : List ColumnFit}

/-- A column has got `q` units or more if it grows, and nothing if it does not. -/
structure ColumnFit.Shared (a b : ℚ) (q : ℤ) (c c' : ColumnFit) : Prop where
  minWidth : c'.minWidth = c.minWidth
  maxWidth : c'.maxWidth = c.maxWidth
  stays : ¬ c.Current a b → c' = c
  grows : c.Current a b → ∃ k ≥ q, c'.currentWidth = c.currentWidth + (k : ℤ) ∧
    (c.currentWidth + q ≤ c.maxWidth → c'.currentWidth ≤ c.maxWidth)

/-- No column that grows has room for a unit. -/
def NoRoom (a b : ℚ) (fits : List ColumnFit) : Prop :=
  ∀ c ∈ fits, c.Current a b → c.maxWidth < c.currentWidth + 1

/-- What a loop over the columns does, with `given` for the units that it gives in any case. -/
structure Shares (a b : ℚ) (q given : ℤ) (fits fits' : List ColumnFit) (r r' : ℤ) : Prop where
  columns : List.Forall₂ (ColumnFit.Shared a b q) fits fits'
  sum : (fits'.map ColumnFit.currentWidth).sum + r' = (fits.map ColumnFit.currentWidth).sum + r + given
  le : r' ≤ r
  nonneg : 0 ≤ r → 0 ≤ r'

theorem ColumnFit.Shared.trans (h : c.Shared a b q c') (h' : c'.Shared a b 0 c'') : c.Shared a b q c'' where
  minWidth := h'.minWidth.trans h.minWidth
  maxWidth := h'.maxWidth.trans h.maxWidth
  stays hn := by
    obtain rfl := h.stays hn
    exact h'.stays hn
  grows hg := by
    obtain ⟨k, hk, hc, hm⟩ := h.grows hg
    have hg' : c'.Current a b := ⟨h.minWidth.trans_le hg.1, hg.2.trans_eq h.maxWidth.symm⟩
    obtain ⟨k', hk', hc', hm'⟩ := h'.grows hg'
    refine ⟨k + k', by omega, by rw [hc', hc]; push_cast; ring, fun hr => ?_⟩
    have hr' : c'.currentWidth + ((0 : ℤ) : ℚ) ≤ c'.maxWidth := by
      rw [Int.cast_zero, add_zero, h.maxWidth]
      exact hm hr
    exact (hm' hr').trans_eq h.maxWidth

theorem forall₂_shared_trans (h : List.Forall₂ (ColumnFit.Shared a b q) fits fits')
    (h' : List.Forall₂ (ColumnFit.Shared a b 0) fits' fits'') : List.Forall₂ (ColumnFit.Shared a b q) fits fits'' := by
  induction h generalizing fits'' with
  | nil => cases h' with | nil => exact .nil
  | cons hf _ ih =>
    cases h' with
    | cons hf' hr' => exact .cons (hf.trans hf') (ih hr')

theorem takeUnit_cases (c : ColumnFit) (r : ℤ) :
    (0 < r ∧ c.currentWidth + 1 ≤ c.maxWidth ∧
      c.takeUnit r = ({ c with currentWidth := c.currentWidth + 1 }, r - 1)) ∨
    ((0 < r → c.maxWidth < c.currentWidth + 1) ∧ c.takeUnit r = (c, r)) := by
  unfold ColumnFit.takeUnit
  by_cases ht : r > 0 ∧ c.maxWidth ≥ c.currentWidth + 1
  · rw [if_pos ht]
    exact .inl ⟨ht.1, ht.2, rfl⟩
  · rw [if_neg ht]
    exact .inr ⟨fun hr => lt_of_not_ge fun hge => ht ⟨hr, hge⟩, rfl⟩

theorem shared_takeUnit (hg : c.Current a b) (q r : ℤ) :
    c.Shared a b q ({ c with currentWidth := c.currentWidth + q }.takeUnit r).1 := by
  rcases takeUnit_cases { c with currentWidth := c.currentWidth + q } r with ⟨-, hr, ht⟩ | ⟨-, ht⟩
  · rw [ht]
    exact ⟨rfl, rfl, fun hn => absurd hg hn,
      fun _ => ⟨q + 1, by omega, by push_cast; ring, fun _ => hr⟩⟩
  · rw [ht]
    exact ⟨rfl, rfl, fun hn => absurd hg hn, fun _ => ⟨q, le_rfl, rfl, fun hr => hr⟩⟩

theorem shared_self (hn : ¬ c.Current a b) : c.Shared a b q c := ⟨rfl, rfl, fun _ => rfl, fun hg => absurd hg hn⟩

theorem takeUnit_sum (c : ColumnFit) (r : ℤ) :
    (c.takeUnit r).1.currentWidth + (c.takeUnit r).2 = c.currentWidth + r ∧ (c.takeUnit r).2 ≤ r ∧
      (0 ≤ r → 0 ≤ (c.takeUnit r).2) := by
  rcases takeUnit_cases c r with ⟨hr, -, ht⟩ | ⟨-, ht⟩
  · rw [ht]
    refine ⟨?_, by omega, fun _ => by omega⟩
    push_cast
    ring
  · rw [ht]
    exact ⟨rfl, le_rfl, id⟩

theorem shares_shareDown (a b : ℚ) (q : ℤ) (fits : List ColumnFit) (r : ℤ) :
    Shares a b q (q * (fits.countP fun c => c.Current a b)) fits (shareDown a b q fits r).1 r
      (shareDown a b q fits r).2 := by
  induction fits with
  | nil => exact ⟨.nil, by simp [shareDown], le_rfl, id⟩
  | cons c fits ih =>
    unfold shareDown
    dsimp only
    by_cases hg : c.Current a b
    · rw [if_pos hg,
        List.countP_cons_of_pos (p := fun c : ColumnFit => decide (c.Current a b)) (decide_eq_true hg)]
      obtain ⟨hs, hle, hn⟩ := takeUnit_sum { c with currentWidth := c.currentWidth + q } (shareDown a b q fits r).2
      refine ⟨.cons (shared_takeUnit hg q _) ih.columns, ?_, hle.trans ih.le, fun hr => hn (ih.nonneg hr)⟩
      have hrs := ih.sum
      simp only [List.map_cons, List.sum_cons]
      push_cast at hrs ⊢
      linarith
    · rw [if_neg hg,
        List.countP_cons_of_neg (p := fun c : ColumnFit => decide (c.Current a b)) (by rwa [decide_eq_true_eq])]
      refine ⟨.cons (shared_self hg) ih.columns, ?_, ih.le, ih.nonneg⟩
      have hrs := ih.sum
      simp only [List.map_cons, List.sum_cons]
      linarith

theorem shares_shareUp (a b : ℚ) (fits : List ColumnFit) (r : ℤ) :
    Shares a b 0 0 fits (shareUp a b fits r).1 r (shareUp a b fits r).2 := by
  induction fits generalizing r with
  | nil => exact ⟨.nil, by simp [shareUp], le_rfl, id⟩
  | cons c fits ih =>
    unfold shareUp
    dsimp only
    by_cases hg : c.Current a b
    · rw [if_pos hg]
      have hrs := ih (c.takeUnit r).2
      obtain ⟨hsum, hle, hn⟩ := takeUnit_sum c r
      have hs := shared_takeUnit hg 0 r
      rw [Int.cast_zero, add_zero] at hs
      refine ⟨.cons hs hrs.columns, ?_, hrs.le.trans hle, fun hr => hrs.nonneg (hn hr)⟩
      have hres := hrs.sum
      simp only [List.map_cons, List.sum_cons]
      linarith
    · rw [if_neg hg]
      have hrs := ih r
      refine ⟨.cons (shared_self hg) hrs.columns, ?_, hrs.le, hrs.nonneg⟩
      have hres := hrs.sum
      simp only [List.map_cons, List.sum_cons]
      linarith

theorem noRoom_shareDown (hr : 0 < r) (hs : (shareDown a b q fits r).2 = r) : NoRoom a b (shareDown a b q fits r).1 := by
  induction fits with
  | nil => exact fun _ h => absurd h List.not_mem_nil
  | cons c fits ih =>
    have hrs := (shares_shareDown a b q fits r).le
    unfold shareDown at hs ⊢
    dsimp only at hs ⊢
    by_cases hg : c.Current a b
    · rw [if_pos hg] at hs ⊢
      rcases takeUnit_cases { c with currentWidth := c.currentWidth + q } (shareDown a b q fits r).2 with
        ⟨-, -, ht⟩ | ⟨hrm, ht⟩
      · rw [ht] at hs
        dsimp only at hs
        omega
      · rw [ht] at hs ⊢
        have hp : 0 < (shareDown a b q fits r).2 := hr.trans_eq hs.symm
        exact List.forall_mem_cons.mpr ⟨fun _ => hrm hp, ih hs⟩
    · rw [if_neg hg] at hs ⊢
      exact List.forall_mem_cons.mpr ⟨fun h => absurd h hg, ih hs⟩

theorem noRoom_shareUp (hr : 0 < r) (hs : (shareUp a b fits r).2 = r) : NoRoom a b (shareUp a b fits r).1 := by
  induction fits with
  | nil => exact fun _ h => absurd h List.not_mem_nil
  | cons c fits ih =>
    unfold shareUp at hs ⊢
    dsimp only at hs ⊢
    by_cases hg : c.Current a b
    · rw [if_pos hg] at hs ⊢
      rcases takeUnit_cases c r with ⟨-, -, ht⟩ | ⟨hrm, ht⟩
      · rw [ht] at hs
        have hrs := (shares_shareUp a b fits (r - 1)).le
        dsimp only at hs
        omega
      · rw [ht] at hs ⊢
        exact List.forall_mem_cons.mpr ⟨fun _ => hrm hr, ih hs⟩
    · rw [if_neg hg] at hs ⊢
      exact List.forall_mem_cons.mpr ⟨fun h => absurd h hg, ih hs⟩

theorem Shares.refl (hq : q = 0) (fits : List ColumnFit) (r : ℤ) : Shares a b q 0 fits fits r r := by
  subst hq
  refine ⟨List.forall₂_same.mpr fun c _ => ?_, by ring, le_rfl, id⟩
  exact ⟨rfl, rfl, fun _ => rfl, fun _ => ⟨0, le_rfl, by simp, fun h => by simpa using h⟩⟩

theorem Shares.trans {r' r'' given : ℤ} (h : Shares a b q given fits fits' r r')
    (h' : Shares a b 0 0 fits' fits'' r' r'') : Shares a b q given fits fits'' r r'' where
  columns := forall₂_shared_trans h.columns h'.columns
  sum := by
    have hs := h.sum
    have hs' := h'.sum
    rw [Int.cast_zero, add_zero] at hs'
    linarith
  le := h'.le.trans h.le
  nonneg hr := h'.nonneg (h.nonneg hr)

/-- The rounds end with nothing to give or with no room. -/
theorem shares_shareRest {turns : Nat} {old : ℤ} (ht : r ≤ turns) (hr : 0 ≤ r)
    (ho : old ≤ r → 0 < r → NoRoom a b fits) :
    Shares a b 0 0 fits (shareRest a b turns fits old r).1 r (shareRest a b turns fits old r).2 ∧
      (0 < (shareRest a b turns fits old r).2 → NoRoom a b (shareRest a b turns fits old r).1) := by
  induction turns generalizing fits old r with
  | zero => exact ⟨.refl rfl fits r, fun hp => absurd hp (by simpa [shareRest] using ht)⟩
  | succ turns ih =>
    unfold shareRest
    by_cases ha : old > r ∧ r > 0
    · rw [if_pos ha]
      dsimp only
      have hup := shares_shareUp a b fits r
      by_cases hs : (shareUp a b fits r).2 = r
      · -- the next round does not begin
        have hst : ∀ turns, shareRest a b turns (shareUp a b fits r).1 r (shareUp a b fits r).2 =
            ((shareUp a b fits r).1, (shareUp a b fits r).2) := by
          intro turns
          cases turns with
          | zero => rfl
          | succ turns =>
            unfold shareRest
            rw [hs]
            exact if_neg fun h => lt_irrefl r h.1
        rw [hst]
        exact ⟨hup, fun _ => noRoom_shareUp ha.2 hs⟩
      · have hl : (shareUp a b fits r).2 < r := lt_of_le_of_ne hup.le hs
        obtain ⟨hsh, hrm⟩ := @ih (shareUp a b fits r).2 (shareUp a b fits r).1 r
          (by push_cast at ht; omega) (hup.nonneg hr) fun hle => absurd hle (not_le.mpr hl)
        exact ⟨hup.trans hsh, hrm⟩
    · rw [if_neg ha]
      refine ⟨.refl rfl fits r, fun hp => ho (not_lt.mp fun hlt => ha ⟨hlt, hp⟩) hp⟩

end Sharing

end GnustepGui.TableView
