import GnustepGui.TableView.ColumnBookkeeping

/-!
# The selected rows of `NSTableView`

The set of selected rows and the row selected last, which is kept beside it, under
`selectRow:byExtendingSelection:`, `selectRowIndexes:byExtendingSelection:`, `deselectRow:`,
`selectAll:`, `deselectAll:` and changes of the row count that are noted with
`noteNumberOfRowsChanged`. A run from a table without a selection keeps the two in step if and only
if each of its calls suits the table it is made on (`rows_kept_iff`).
-/

namespace GnustepGui.TableView

open IndexSets

/-- `_selectedRow` is the row selected last, or -1; likewise `_selectedColumn`. -/
structure RowTable where
  numberOfRows : Nat
  selectedRows : Finset Nat
  selectedRow : Int
  clickedRow : Int
  numberOfColumns : Nat
  selectedColumns : Finset Nat
  selectedColumn : Int
  selectingColumns : Bool
  allowsMultipleSelection : Bool
  allowsEmptySelection : Bool
  deriving DecidableEq

namespace RowTable

/-! ## The calls

A call returns the table and whether it has raised an exception. -/

/-- The flag says whether the row has been selected. -/
def selectUnselectedRow (tv : RowTable) (rowIndex : Nat) : RowTable × Bool :=
  if rowIndex ∈ tv.selectedRows then (tv, false)
  else ({ tv with selectedRows := insert rowIndex tv.selectedRows, selectedRow := rowIndex }, true)

def unselectAllRows (tv : RowTable) : RowTable := { tv with selectedRows := ∅, selectedRow := -1 }

/-- `selectRow:byExtendingSelection:` after the checks. -/
def addRow (tv : RowTable) (rowIndex : Nat) : RowTable :=
  match tv.selectUnselectedRow rowIndex with
  | (tv, true) => { tv with clickedRow := rowIndex }
  | (tv, false) => { tv with selectedRow := rowIndex, clickedRow := rowIndex }

def selectRow (tv : RowTable) (rowIndex : Int) (flag : Bool) : RowTable × Bool :=
  if rowIndex < 0 ∨ rowIndex ≥ tv.numberOfRows then (tv, false)
  else
    let tv := { tv with selectingColumns := false }
    if flag = false then
      if tv.selectedRows.card = 1 ∧ rowIndex.toNat ∈ tv.selectedRows then
        ({ tv with clickedRow := rowIndex }, false)
      else if tv.numberOfRows > 1 then (tv.unselectAllRows.addRow rowIndex.toNat, false)
      else (tv.addRow rowIndex.toNat, false)
    else if tv.allowsMultipleSelection = false then (tv, true)
    else (tv.addRow rowIndex.toNat, false)

/-- What `selectRowIndexes:byExtendingSelection:` does after it has cleared the old selection or kept
it. -/
def extendRows (tv : RowTable) (indexes : Finset Nat) : RowTable × Bool :=
  match indexes.max with
  | none => (tv, false)
  | some (last : Nat) =>
    if last ≥ tv.numberOfRows then (tv, true)
    else if tv.allowsMultipleSelection = false ∧ tv.selectedRows.card + indexes.card > 1 then (tv, true)
    else ({ tv with selectedRows := tv.selectedRows ∪ indexes, selectedRow := last }, false)

def selectRowIndexes (tv : RowTable) (indexes : Finset Nat) (extend : Bool) : RowTable × Bool :=
  let tv := { tv with selectingColumns := false }
  if extend then tv.extendRows indexes
  else if tv.selectedRows = indexes then
    match indexes.max with
    | none => (tv, false)
    | some (last : Nat) => ({ tv with selectedRow := last }, false)
  else tv.unselectAllRows.extendRows indexes

def deselectRow (tv : RowTable) (rowIndex : Int) : RowTable :=
  if rowIndex < 0 ∨ rowIndex.toNat ∉ tv.selectedRows then tv
  else
    let selected := tv.selectedRows.erase rowIndex.toNat
    { tv with
      selectingColumns := false
      selectedRows := selected
      selectedRow :=
        if tv.selectedRow = rowIndex then NSTableView.nearestSelected selected rowIndex.toNat
        else tv.selectedRow }

/-- The delegate is asked for every row, or for every column. -/
def selectAll (tv : RowTable) (shouldSelectRow shouldSelectTableColumn : Nat → Bool) : RowTable :=
  if tv.allowsMultipleSelection = false then tv
  else if tv.selectingColumns then
    if tv.selectedColumns.card = tv.numberOfColumns then tv
    else if ∃ column < tv.numberOfColumns, shouldSelectTableColumn column = false then tv
    else { tv with selectedColumns := Finset.range tv.numberOfColumns }
  else
    if tv.selectedRows.card = tv.numberOfRows then tv
    else if ∃ row < tv.numberOfRows, shouldSelectRow row = false then tv
    else { tv with selectedRows := Finset.range tv.numberOfRows }

def deselectAll (tv : RowTable) (shouldSelectionChange : Bool) : RowTable :=
  if tv.allowsEmptySelection = false ∨ shouldSelectionChange = false then tv
  else if tv.selectedColumns.card > 0 ∨ tv.selectedRows.card > 0 then
    { tv with
      selectedColumns := ∅
      selectedRows := ∅
      selectedColumn := -1
      selectedRow := -1
      selectingColumns := false }
  else { tv with selectedColumn := -1, selectedRow := -1, selectingColumns := false }

/-- We shouldn't allow empty selection - try selecting the last row. -/
def selectLast (tv : RowTable) : RowTable :=
  if tv.numberOfRows = 0 then { tv with selectedRow := -1 }
  else
    { tv with
      selectedRows := insert (tv.numberOfRows - 1) tv.selectedRows
      selectedRow := (tv.numberOfRows - 1 : Nat) }

/-- `numRows` is the new row count, which the data source gives. -/
def noteNumberOfRowsChanged (tv : RowTable) (numRows : Nat) : RowTable :=
  let tv := { tv with numberOfRows := numRows }
  if tv.selectingColumns then tv
  else
    match tv.selectedRows.max with
    | none => if tv.allowsEmptySelection then tv else tv.selectLast
    | some (row : Nat) =>
      if row ≥ tv.numberOfRows then
        let tv := { tv with selectedRows := tv.selectedRows.filter (· < tv.numberOfRows) }
        if tv.selectedRow ≥ tv.numberOfRows then
          match tv.selectedRows.max with
          | some (row : Nat) => { tv with selectedRow := row }
          | none => if tv.allowsEmptySelection then { tv with selectedRow := -1 } else tv.selectLast
        else tv
      else tv

end RowTable

/-- With what the delegate or the data source answers. -/
inductive RowCall where
  | selectRow (rowIndex : Int) (flag : Bool)
  | selectRowIndexes (indexes : Finset Nat) (extend : Bool)
  | deselectRow (rowIndex : Int)
  | selectAll (shouldSelectRow shouldSelectTableColumn : Nat → Bool)
  | deselectAll (shouldSelectionChange : Bool)
  | noteNumberOfRowsChanged (numRows : Nat)

namespace RowTable

def perform (tv : RowTable) : RowCall → RowTable × Bool
  | .selectRow rowIndex flag => tv.selectRow rowIndex flag
  | .selectRowIndexes indexes extend => tv.selectRowIndexes indexes extend
  | .deselectRow rowIndex => (tv.deselectRow rowIndex, false)
  | .selectAll shouldSelectRow shouldSelectTableColumn =>
    (tv.selectAll shouldSelectRow shouldSelectTableColumn, false)
  | .deselectAll shouldSelectionChange => (tv.deselectAll shouldSelectionChange, false)
  | .noteNumberOfRowsChanged numRows => (tv.noteNumberOfRowsChanged numRows, false)

/-! ## A selection in step -/

/-- The row selected last is one of the selected rows, and there is one as long as any row is
selected; the selected rows are rows of the table. -/
structure Valid (tv : RowTable) : Prop where
  rows : ∀ row ∈ tv.selectedRows, row < tv.numberOfRows
  none_iff : tv.selectedRow = -1 ↔ tv.selectedRows = ∅
  last : tv.selectedRow ≠ -1 → ∃ row ∈ tv.selectedRows, tv.selectedRow = row

variable {tv : RowTable} {row : Nat} {indexes : Finset Nat}

theorem Valid.of_mem (hrw : ∀ row ∈ tv.selectedRows, row < tv.numberOfRows) (hr : row ∈ tv.selectedRows)
    (hl : tv.selectedRow = row) : tv.Valid where
  rows := hrw
  none_iff := by
    refine iff_of_false ?_ (Finset.ne_empty_of_mem hr)
    omega
  last _ := ⟨row, hr, hl⟩

theorem Valid.of_empty (he : tv.selectedRows = ∅) (hl : tv.selectedRow = -1) : tv.Valid where
  rows row hr := absurd hr (he ▸ Finset.notMem_empty row)
  none_iff := iff_of_true hl he
  last hne := absurd hl hne

theorem Valid.cases (h : tv.Valid) :
    (tv.selectedRows = ∅ ∧ tv.selectedRow = -1) ∨ ∃ row ∈ tv.selectedRows, tv.selectedRow = row := by
  by_cases hl : tv.selectedRow = -1
  · exact .inl ⟨h.none_iff.mp hl, hl⟩
  · exact .inr (h.last hl)

/-- What a call that has raised must not change. -/
def SameSelection (tv tv' : RowTable) : Prop :=
  tv'.selectedRows = tv.selectedRows ∧ tv'.selectedRow = tv.selectedRow

/-! ## One call -/

theorem unselectAllRows_valid : tv.unselectAllRows.Valid := .of_empty rfl rfl

theorem selectLast_valid (he : tv.selectedRows = ∅) : tv.selectLast.Valid := by
  unfold selectLast
  split
  · exact .of_empty he rfl
  · refine .of_mem (fun row hr => ?_) (Finset.mem_insert_self _ _) rfl
    rcases Finset.mem_insert.mp hr with rfl | hr
    · dsimp only
      omega
    · exact absurd (he ▸ hr) (Finset.notMem_empty row)

theorem addRow_valid (hrw : ∀ row ∈ tv.selectedRows, row < tv.numberOfRows) (hr : row < tv.numberOfRows) :
    (tv.addRow row).Valid := by
  unfold addRow selectUnselectedRow
  by_cases hm : row ∈ tv.selectedRows
  · rw [if_pos hm]
    exact .of_mem hrw hm rfl
  · rw [if_neg hm]
    exact .of_mem (Finset.forall_mem_insert _ _ _ |>.mpr ⟨hr, hrw⟩) (Finset.mem_insert_self row _) rfl

theorem selectRow_valid (h : tv.Valid) (rowIndex : Int) (flag : Bool) : (tv.selectRow rowIndex flag).1.Valid ∧
      ((tv.selectRow rowIndex flag).2 = true → tv.SameSelection (tv.selectRow rowIndex flag).1) := by
  unfold selectRow
  by_cases ho : rowIndex < 0 ∨ rowIndex ≥ tv.numberOfRows
  · rw [if_pos ho]
    exact ⟨h, nofun⟩
  rw [if_neg ho]
  have hr : rowIndex.toNat < tv.numberOfRows := by omega
  have ha : (RowTable.addRow { tv with selectingColumns := false } rowIndex.toNat).Valid := addRow_valid h.rows hr
  have ha' : (RowTable.addRow (unselectAllRows { tv with selectingColumns := false }) rowIndex.toNat).Valid :=
    addRow_valid (fun row he => absurd he (Finset.notMem_empty row)) hr
  cases flag with
  | false =>
    dsimp only
    rw [if_pos rfl]
    split
    · exact ⟨⟨h.rows, h.none_iff, h.last⟩, nofun⟩
    · split
      · exact ⟨ha', nofun⟩
      · exact ⟨ha, nofun⟩
  | true =>
    dsimp only
    rw [if_neg Bool.noConfusion]
    split
    · exact ⟨⟨h.rows, h.none_iff, h.last⟩, fun _ => ⟨rfl, rfl⟩⟩
    · exact ⟨ha, nofun⟩

theorem extendRows_valid (h : tv.Valid) (indexes : Finset Nat) :
    (tv.extendRows indexes).1.Valid ∧ ((tv.extendRows indexes).2 = true → (tv.extendRows indexes).1 = tv) := by
  unfold extendRows
  cases hm : indexes.max with
  | bot => exact ⟨h, nofun⟩
  | coe last =>
    dsimp only
    split
    · exact ⟨h, fun _ => rfl⟩
    · split
      · exact ⟨h, fun _ => rfl⟩
      · refine ⟨.of_mem (fun row hr => ?_) (Finset.mem_union_right _ (Finset.mem_of_max hm)) rfl, nofun⟩
        rcases Finset.mem_union.mp hr with hr | hr
        · exact h.rows row hr
        · have hle : row ≤ last := WithBot.coe_le_coe.mp (hm ▸ Finset.le_max hr)
          dsimp only
          omega

/-- When the exception is raised. -/
theorem extendRows_raises : (tv.extendRows indexes).2 = true ↔ (∃ row ∈ indexes, tv.numberOfRows ≤ row) ∨
        (tv.allowsMultipleSelection = false ∧ indexes.Nonempty ∧ tv.selectedRows.card + indexes.card > 1) := by
  unfold extendRows
  cases hm : indexes.max with
  | bot =>
    obtain rfl := Finset.max_eq_bot.mp hm
    exact iff_of_false Bool.noConfusion (by simp)
  | coe last =>
    have hl := Finset.mem_of_max hm
    have ho : (∃ row ∈ indexes, tv.numberOfRows ≤ row) ↔ tv.numberOfRows ≤ last := by
      constructor
      · rintro ⟨row, hr, hle⟩
        exact hle.trans (WithBot.coe_le_coe.mp (hm ▸ Finset.le_max hr))
      · exact fun hle => ⟨last, hl, hle⟩
    have hn : indexes.Nonempty := ⟨last, hl⟩
    rw [ho, and_iff_right hn]
    dsimp only
    split
    · rename_i hle
      exact iff_of_true rfl (.inl hle)
    · rename_i hlt
      rw [or_iff_right hlt]
      split
      · rename_i hc
        exact iff_of_true rfl hc
      · rename_i hc
        exact iff_of_false Bool.noConfusion hc

theorem extendRows_admits (he : tv.selectedRows = ∅) : (tv.extendRows indexes).2 = false ↔
      (∀ row ∈ indexes, row < tv.numberOfRows) ∧ (tv.allowsMultipleSelection = false → indexes.card ≤ 1) := by
  rw [← Bool.not_eq_true, extendRows_raises, he, Finset.card_empty, Nat.zero_add, not_or]
  refine and_congr ?_ ?_
  · push Not
    rfl
  · constructor
    · intro hn hs
      by_contra hc
      have hsm : 0 < indexes.card := by omega
      exact hn ⟨hs, Finset.card_pos.mp hsm, not_le.mp hc⟩
    · rintro hle ⟨hs, -, hc⟩
      exact absurd (hle hs) (not_le.mpr hc)

theorem extendRows_keeps_iff {s : RowTable} (h : tv.Valid) (hs : s.Valid) (he : s.selectedRows = ∅)
    (hc : s.numberOfRows = tv.numberOfRows) (hm : s.allowsMultipleSelection = tv.allowsMultipleSelection) :
    (s.extendRows indexes).1.Valid ∧ ((s.extendRows indexes).2 = true → tv.SameSelection (s.extendRows indexes).1) ↔
      (tv.selectedRows ≠ ∅ → (∀ row ∈ indexes, row < tv.numberOfRows) ∧
        (tv.allowsMultipleSelection = false → indexes.card ≤ 1)) := by
  obtain ⟨hv, hsm⟩ := extendRows_valid hs indexes
  rw [and_iff_right hv, ← hc, ← hm, ← extendRows_admits he]
  constructor
  · intro hk hso
    by_contra hr
    have hr : (s.extendRows indexes).2 = true := Bool.eq_true_of_not_eq_false hr
    obtain ⟨hrw, -⟩ := hk hr
    rw [hsm hr, he] at hrw
    exact hso hrw.symm
  · intro ha hr
    by_cases hn : tv.selectedRows = ∅
    · rw [hsm hr]
      exact ⟨he.trans hn.symm, (hs.none_iff.mpr he).trans (h.none_iff.mpr hn).symm⟩
    · exact absurd ((ha hn).symm.trans hr) Bool.noConfusion

theorem deselectRow_valid (h : tv.Valid) (rowIndex : Int) : (tv.deselectRow rowIndex).Valid := by
  unfold deselectRow
  by_cases ho : rowIndex < 0 ∨ rowIndex.toNat ∉ tv.selectedRows
  · rw [if_pos ho]
    exact h
  rw [if_neg ho]
  obtain ⟨hp, hm⟩ := not_or.mp ho
  have hrw : ∀ row ∈ tv.selectedRows.erase rowIndex.toNat, row < tv.numberOfRows :=
    fun row hr => h.rows row (Finset.mem_of_mem_erase hr)
  obtain ⟨he, -⟩ | ⟨last, hl, hs⟩ := h.cases
  · exact absurd (he ▸ not_not.mp hm) (Finset.notMem_empty _)
  by_cases hsm : tv.selectedRow = rowIndex
  · rcases nearestSelected_cases (Finset.notMem_erase rowIndex.toNat tv.selectedRows) with hn | hso
    · exact .of_empty hn.1 (by dsimp only; rw [if_pos hsm, hn.2])
    · obtain ⟨row, hr, hnr⟩ := hso
      exact .of_mem hrw hr (by dsimp only; rw [if_pos hsm, hnr])
  · refine .of_mem hrw (Finset.mem_erase.mpr ⟨?_, hl⟩) (by dsimp only; rw [if_neg hsm, hs])
    rintro rfl
    omega

theorem deselectAll_valid (h : tv.Valid) (shouldSelectionChange : Bool) :
    (tv.deselectAll shouldSelectionChange).Valid := by
  unfold deselectAll
  split
  · exact h
  · split
    · exact .of_empty rfl rfl
    · rename_i hn
      exact .of_empty (Finset.card_eq_zero.mp (Nat.eq_zero_of_not_pos fun hp => hn (.inr hp))) rfl

theorem noteNumberOfRowsChanged_valid (h : tv.Valid) (hrw : tv.selectingColumns = false) (numRows : Nat) :
    (tv.noteNumberOfRowsChanged numRows).Valid := by
  unfold noteNumberOfRowsChanged
  dsimp only
  rw [if_neg (Bool.eq_false_iff.mp hrw)]
  cases hm : tv.selectedRows.max with
  | bot =>
    have he := Finset.max_eq_bot.mp hm
    dsimp only
    split
    · exact .of_empty he (h.none_iff.mpr he)
    · exact selectLast_valid he
  | coe last =>
    have hmem := Finset.mem_of_max hm
    obtain ⟨he, -⟩ | ⟨row, hr, hs⟩ := h.cases
    · exact absurd (he ▸ hmem) (Finset.notMem_empty last)
    have hf : ∀ row ∈ tv.selectedRows.filter (· < numRows), row < numRows := fun row hr => (Finset.mem_filter.mp hr).2
    dsimp only
    split
    · split
      · cases hl : (tv.selectedRows.filter (· < numRows)).max with
        | bot =>
          have he := Finset.max_eq_bot.mp hl
          dsimp only
          split
          · exact .of_empty he rfl
          · exact selectLast_valid he
        | coe left => exact .of_mem hf (Finset.mem_of_max hl) rfl
      · rename_i hlt
        exact .of_mem hf (Finset.mem_filter.mpr ⟨hr, by omega⟩) hs
    · rename_i hlt
      refine .of_mem (fun row hr => ?_) hr hs
      have hle : row ≤ last := WithBot.coe_le_coe.mp (hm ▸ Finset.le_max hr)
      dsimp only
      omega

theorem selectAll_valid_iff (h : tv.Valid) (hrw : tv.selectingColumns = false)
    (shouldSelectRow shouldSelectTableColumn : Nat → Bool) :
    (tv.selectAll shouldSelectRow shouldSelectTableColumn).Valid ↔
      (tv.allowsMultipleSelection = true → tv.numberOfRows ≠ 0 →
        (∀ row < tv.numberOfRows, shouldSelectRow row = true) → tv.selectedRows ≠ ∅) := by
  unfold selectAll
  split
  · rename_i hm
    exact iff_of_true h fun hm' => absurd (hm.symm.trans hm') Bool.noConfusion
  rw [if_neg (Bool.eq_false_iff.mp hrw)]
  split
  · rename_i hc
    refine iff_of_true h fun _ hsm _ he => hsm ?_
    rw [← hc, he, Finset.card_empty]
  split
  · rename_i href
    obtain ⟨row, hlt, hr⟩ := href
    exact iff_of_true h fun _ _ ha => absurd (hr.symm.trans (ha row hlt)) Bool.noConfusion
  rename_i hm hc href
  obtain ⟨he, hl⟩ | ⟨row, hr, hs⟩ := h.cases
  · have hsm : tv.numberOfRows ≠ 0 := by
      rintro hz
      exact hc (by rw [he, Finset.card_empty, hz])
    refine iff_of_false (fun hv => ?_) fun hst => ?_
    · have hrg : Finset.range tv.numberOfRows = ∅ := hv.none_iff.mp hl
      exact hsm (Finset.range_eq_empty_iff.mp hrg)
    · refine hst (Bool.eq_true_of_not_eq_false hm) hsm (fun row hlt => ?_) he
      by_contra hr
      exact href ⟨row, hlt, Bool.eq_false_of_not_eq_true hr⟩
  · refine iff_of_true ?_ fun _ _ _ => Finset.ne_empty_of_mem hr
    exact .of_mem (fun row hr => Finset.mem_range.mp hr) (Finset.mem_range.mpr (h.rows row hr)) hs

theorem selectRowIndexes_valid_iff (h : tv.Valid) (indexes : Finset Nat) (extend : Bool) :
    (tv.selectRowIndexes indexes extend).1.Valid ∧ ((tv.selectRowIndexes indexes extend).2 = true →
        tv.SameSelection (tv.selectRowIndexes indexes extend).1) ↔
      (extend = false → tv.selectedRows ≠ indexes → tv.selectedRows ≠ ∅ → (∀ row ∈ indexes, row < tv.numberOfRows) ∧
          (tv.allowsMultipleSelection = false → indexes.card ≤ 1)) := by
  have hr : Valid { tv with selectingColumns := false } := ⟨h.rows, h.none_iff, h.last⟩
  unfold selectRowIndexes
  cases extend with
  | true =>
    obtain ⟨hv, hs⟩ := extendRows_valid hr indexes
    refine iff_of_true ⟨hv, fun hrs => ?_⟩ nofun
    dsimp only
    rw [if_pos rfl, hs hrs]
    exact ⟨rfl, rfl⟩
  | false =>
    dsimp only
    rw [if_neg Bool.noConfusion]
    by_cases heq : tv.selectedRows = indexes
    · rw [if_pos heq]
      refine iff_of_true ?_ fun _ hne => absurd heq hne
      cases hm : indexes.max with
      | bot => exact ⟨hr, nofun⟩
      | coe last => exact ⟨.of_mem h.rows (heq ▸ Finset.mem_of_max hm) rfl, nofun⟩
    · rw [if_neg heq]
      rw [forall_prop_of_true rfl, forall_prop_of_true heq]
      exact extendRows_keeps_iff h unselectAllRows_valid rfl rfl rfl

/-! ## Runs -/

/-- What a call needs of the table. A call of `selectRowIndexes:byExtendingSelection:`
that replaces a selection by another one has to be admitted, and `selectAll:` that selects all rows has
to find one selected. -/
def Suits (tv : RowTable) : RowCall → Prop
  | .selectRowIndexes indexes extend =>
    extend = false → tv.selectedRows ≠ indexes → tv.selectedRows ≠ ∅ →
      (∀ row ∈ indexes, row < tv.numberOfRows) ∧ (tv.allowsMultipleSelection = false → indexes.card ≤ 1)
  | .selectAll shouldSelectRow _ =>
    tv.allowsMultipleSelection = true → tv.numberOfRows ≠ 0 →
      (∀ row < tv.numberOfRows, shouldSelectRow row = true) → tv.selectedRows ≠ ∅
  | _ => True

/-- A call keeps the selection in step, and leaves it as it was if it raises. -/
def Keeps (tv : RowTable) (call : RowCall) : Prop :=
  (tv.perform call).1.Valid ∧ ((tv.perform call).2 = true → tv.SameSelection (tv.perform call).1)

theorem keeps_iff (h : tv.Valid) (hr : tv.selectingColumns = false) (call : RowCall) :
    tv.Keeps call ↔ tv.Suits call := by
  cases call with
  | selectRow rowIndex flag => exact iff_of_true (selectRow_valid h rowIndex flag) trivial
  | selectRowIndexes indexes extend => exact selectRowIndexes_valid_iff h indexes extend
  | deselectRow rowIndex => exact iff_of_true ⟨deselectRow_valid h rowIndex, nofun⟩ trivial
  | selectAll shouldSelectRow shouldSelectTableColumn =>
    have hv := selectAll_valid_iff h hr shouldSelectRow shouldSelectTableColumn
    exact (and_iff_left nofun).trans hv
  | deselectAll shouldSelectionChange => exact iff_of_true ⟨deselectAll_valid h shouldSelectionChange, nofun⟩ trivial
  | noteNumberOfRowsChanged numRows =>
    exact iff_of_true ⟨noteNumberOfRowsChanged_valid h hr numRows, nofun⟩ trivial

/-- None of the calls makes the table one that selects columns. -/
theorem selectingColumns_perform (hr : tv.selectingColumns = false) (call : RowCall) :
    (tv.perform call).1.selectingColumns = false := by
  cases call with
  | selectRow rowIndex flag =>
    unfold perform selectRow addRow selectUnselectedRow
    grind [unselectAllRows]
  | selectRowIndexes indexes extend =>
    unfold perform selectRowIndexes extendRows
    grind [unselectAllRows]
  | deselectRow rowIndex =>
    unfold perform deselectRow
    grind
  | selectAll shouldSelectRow shouldSelectTableColumn =>
    show (tv.selectAll shouldSelectRow shouldSelectTableColumn).selectingColumns = false
    unfold selectAll
    split
    · exact hr
    rw [if_neg (Bool.eq_false_iff.mp hr)]
    split
    · exact hr
    split <;> exact hr
  | deselectAll shouldSelectionChange =>
    unfold perform deselectAll
    grind
  | noteNumberOfRowsChanged numRows =>
    unfold perform noteNumberOfRowsChanged selectLast
    grind

/-- In every state of the run the selection is in step, and no call that raises changes it. -/
def RowsKept (tv : RowTable) : List RowCall → Prop
  | [] => tv.Valid
  | call :: calls => tv.Valid ∧
    ((tv.perform call).2 = true → tv.SameSelection (tv.perform call).1) ∧ (tv.perform call).1.RowsKept calls

/-- Each call suits the table it is made on. -/
def Suited (tv : RowTable) : List RowCall → Prop
  | [] => True
  | call :: calls => tv.Suits call ∧ (tv.perform call).1.Suited calls

theorem RowsKept.valid {calls : List RowCall} (h : tv.RowsKept calls) : tv.Valid := by
  cases calls with
  | nil => exact h
  | cons call calls => exact h.1

theorem rowsKept_iff (h : tv.Valid) (hr : tv.selectingColumns = false) (calls : List RowCall) :
    tv.RowsKept calls ↔ tv.Suited calls := by
  induction calls generalizing tv with
  | nil => exact iff_of_true h trivial
  | cons call calls ih =>
    have hk := keeps_iff h hr call
    rw [RowsKept, and_iff_right h, Suited]
    by_cases hs : tv.Suits call
    · obtain ⟨hv, hsm⟩ := hk.mpr hs
      rw [and_iff_right hs, and_iff_right hsm]
      exact ih hv (selectingColumns_perform hr call)
    · exact iff_of_false (fun hkp => hs (hk.mp ⟨hkp.2.valid, hkp.1⟩)) fun hsu => hs hsu.1

/-- A table as it is initialised, with the rows and columns that it has got. -/
def initialTable (numberOfRows numberOfColumns : Nat) (allowsMultipleSelection allowsEmptySelection : Bool) :
    RowTable where
  numberOfRows := numberOfRows
  selectedRows := ∅
  selectedRow := -1
  clickedRow := -1
  numberOfColumns := numberOfColumns
  selectedColumns := ∅
  selectedColumn := -1
  selectingColumns := false
  allowsMultipleSelection := allowsMultipleSelection
  allowsEmptySelection := allowsEmptySelection

end RowTable

open RowTable

/-- The selection is kept in step in exactly the runs of calls that suit their tables. -/
theorem rows_kept_iff (numberOfRows numberOfColumns : Nat) (allowsMultipleSelection allowsEmptySelection : Bool)
    (calls : List RowCall) :
    (initialTable numberOfRows numberOfColumns allowsMultipleSelection allowsEmptySelection).RowsKept calls ↔
      (initialTable numberOfRows numberOfColumns allowsMultipleSelection allowsEmptySelection).Suited calls :=
  rowsKept_iff (.of_empty rfl rfl) rfl calls

/-- All rows are selected, and no row is the one selected last; a refused replacement has cleared the
selection. -/
theorem rows_not_kept :
    ¬ (initialTable 2 1 true true).RowsKept [.selectAll (fun _ => true) fun _ => true] ∧
      ¬ (initialTable 2 1 true true).RowsKept [.selectRow 0 false, .selectRowIndexes {5} false] := by
  constructor
  · rintro ⟨-, -, hv⟩
    exact absurd (hv.none_iff.mp rfl) (by decide)
  · rintro ⟨-, -, -, hs, -⟩
    exact absurd (hs (by decide)).1 (by decide)

end GnustepGui.TableView
