import GnustepGui.Library.Positions
import GnustepGui.TableView.Columns

/-!
# The column selection follows the columns

A move renumbers the selected indexes as it moves the columns (`moveColumn_follows`). A removal
renumbers the column selected last, but not the selected indexes behind the removed column: the
selection follows the columns in every run in which no selected column stands behind a removed one
(`columns_bookkept`).
-/

namespace GnustepGui.TableView

open IndexSets Positions

variable {I : Type}

/-! ## What a move does -/

section Moves

variable {columns : List (NSTableColumn I)} {s : Finset Nat} {a b i : Nat}

theorem renumber_eq : NSTableView.renumber a b i = moved a b i := by
  simp only [NSTableView.renumber, moved, Int.natCast_inj]
  split_ifs <;> omega

theorem renumber_none : NSTableView.renumber a b (-1) = -1 := by
  simp only [NSTableView.renumber]
  split_ifs <;> omega

theorem mem_renumberSelected : i ∈ NSTableView.renumberSelected s a b ↔ moved b a i ∈ s := by
  have hs : i ∈ shiftRight (shiftLeft s (a + 1) 1) b 1 ↔ i ≠ b ∧ moved b a i ∈ s := by
    rw [mem_shiftRight, mem_shiftLeft (by omega), mem_shiftLeft (by omega)]
    unfold moved
    grind
  have hm : moved b a b = a := if_pos rfl
  unfold NSTableView.renumberSelected
  by_cases hi : i = b
  · subst hi
    by_cases ha : a ∈ s <;> simp [ha, hs, hm]
  · by_cases ha : a ∈ s <;> simp [ha, hs, hi]

theorem reorder_eq {c : NSTableColumn I} (hc : columns[a]? = some c) :
    NSTableView.reorder columns a b = (columns.eraseIdx a).insertIdx b c := by
  have ha : a < columns.length := (List.getElem?_eq_some_iff.1 hc).1
  simp only [NSTableView.reorder, hc]
  split
  · rename_i hab
    exact (List.insertIdx_eraseIdx_of_ge ha hab.le).symm
  · rename_i hab
    exact (List.insertIdx_eraseIdx_of_le ha (Nat.le_of_not_lt hab)).symm

theorem reorder_length (ha : a < columns.length) (hb : b < columns.length) :
    (NSTableView.reorder columns a b).length = columns.length := by
  rw [reorder_eq (List.getElem?_eq_getElem ha), length_move ha hb]

theorem getElem?_reorder (ha : a < columns.length) (hb : b < columns.length) (hi : i < columns.length) :
    (NSTableView.reorder columns a b)[moved a b i]? = columns[i]? := by
  rw [reorder_eq (List.getElem?_eq_getElem ha), getElem?_move (List.getElem?_eq_getElem ha) hb hi]

end Moves

/-! ## What the selection shows -/

namespace NSTableView

/-- The column objects that are selected. -/
def selectedObjects (tv : NSTableView I) : Set (NSTableColumn I) :=
  {c | ∃ i ∈ tv.selectedColumns, tv.tableColumns[i]? = some c}

/-- The column object at an index, if it is one of a column. -/
def columnAt (tv : NSTableView I) (index : Int) : Option (NSTableColumn I) :=
  if index < 0 then none else tv.tableColumns[index.toNat]?

/-- The selected indexes are those of columns, and the column selected last is one of them. -/
structure SelectionValid (tv : NSTableView I) : Prop where
  valid : ∀ i ∈ tv.selectedColumns, i < tv.tableColumns.length
  unselected : tv.selectedColumns = ∅ → tv.selectedColumn = -1
  last : tv.selectedColumns.Nonempty → ∃ i ∈ tv.selectedColumns, tv.selectedColumn = i

/-- The invariant: the selection is valid and the columns are counted. -/
structure Kept (tv : NSTableView I) : Prop extends SelectionValid tv where
  counted : tv.numberOfColumns = tv.tableColumns.length

end NSTableView

open NSTableView

section Steps

variable {tv : NSTableView I} {c : NSTableColumn I}

@[simp] theorem columnAt_natCast (i : Nat) : tv.columnAt i = tv.tableColumns[i]? := by
  rw [NSTableView.columnAt, if_neg (by omega), Int.toNat_natCast]

theorem selectedColumn_cases (h : tv.SelectionValid) : (tv.selectedColumns = ∅ ∧ tv.selectedColumn = -1) ∨
      ∃ i ∈ tv.selectedColumns, i < tv.tableColumns.length ∧ tv.selectedColumn = i := by
  rcases tv.selectedColumns.eq_empty_or_nonempty with he | hs
  · exact .inl ⟨he, h.unselected he⟩
  · obtain ⟨i, hi, hl⟩ := h.last hs
    exact .inr ⟨i, hi, h.valid i hi, hl⟩

theorem SelectionValid.of_mem {i : Nat} (hv : ∀ i ∈ tv.selectedColumns, i < tv.tableColumns.length)
    (hi : i ∈ tv.selectedColumns) (hl : tv.selectedColumn = i) : tv.SelectionValid where
  valid := hv
  unselected he := absurd hi (he ▸ Finset.notMem_empty i)
  last _ := ⟨i, hi, hl⟩

theorem SelectionValid.of_empty (he : tv.selectedColumns = ∅) (hl : tv.selectedColumn = -1) :
    tv.SelectionValid where
  valid i hi := absurd hi (he ▸ Finset.notMem_empty i)
  unselected _ := hl
  last hs := absurd he hs.ne_empty

theorem addTableColumn_kept (h : tv.Kept) : (tv.addTableColumn c).Kept where
  valid i hi := by
    have hlt := h.valid i hi
    simp only [addTableColumn, List.length_append, List.length_singleton]
    omega
  unselected := h.unselected
  last := h.last
  counted := by simp [addTableColumn, h.counted]

theorem addTableColumn_follows (h : tv.Kept) : (tv.addTableColumn c).selectedObjects = tv.selectedObjects := by
  ext d
  constructor
  · rintro ⟨i, hi, hd⟩
    refine ⟨i, hi, ?_⟩
    rw [← hd]
    exact (List.getElem?_append_left (h.valid i hi)).symm
  · rintro ⟨i, hi, hd⟩
    refine ⟨i, hi, ?_⟩
    rw [← hd]
    exact List.getElem?_append_left (h.valid i hi)

theorem nearestSelected_cases {selected : Finset Nat} {k : Nat} (hk : k ∉ selected) :
    (selected = ∅ ∧ nearestSelected selected k = -1) ∨ ∃ i ∈ selected, nearestSelected selected k = i := by
  unfold nearestSelected
  cases hl : indexLessThan selected k with
  | none =>
    cases hg : indexGreaterThan selected k with
    | none => exact .inl ⟨eq_empty_of_no_neighbour hk hl hg, rfl⟩
    | some greater => exact .inr ⟨greater, indexGreaterThan_mem hg, rfl⟩
  | some less =>
    cases hg : indexGreaterThan selected k with
    | none => exact .inr ⟨less, indexLessThan_mem hl, rfl⟩
    | some greater =>
      by_cases hn : k - less > greater - k
      · exact .inr ⟨greater, indexGreaterThan_mem hg, if_pos hn⟩
      · exact .inr ⟨less, indexLessThan_mem hl, if_neg hn⟩

theorem deselectColumn_kept (h : tv.Kept) (k : Int) : (tv.deselectColumn k).Kept := by
  unfold deselectColumn
  split
  · exact h
  · rename_i hin
    obtain ⟨hp, hin⟩ := not_or.1 hin
    refine ⟨?_, h.counted⟩
    have hv : ∀ i ∈ tv.selectedColumns.erase k.toNat, i < tv.tableColumns.length :=
      fun i hi => h.valid i (Finset.mem_of_mem_erase hi)
    by_cases hl : tv.selectedColumn = k
    · rcases nearestSelected_cases (Finset.notMem_erase k.toNat tv.selectedColumns) with
        ⟨he, hn⟩ | ⟨i, hi, hs⟩
      · exact SelectionValid.of_empty he (by simp only [hl, if_true]; exact hn)
      · exact SelectionValid.of_mem hv hi (by simp only [hl, if_true]; exact hs)
    · rcases selectedColumn_cases h.toSelectionValid with ⟨he, -⟩ | ⟨i, hi, -, hi'⟩
      · exact absurd hin (by rw [he]; simp)
      · have hne : i ≠ k.toNat := by omega
        exact SelectionValid.of_mem hv (Finset.mem_erase.2 ⟨hne, hi⟩)
          (by simp only [hl, if_false]; exact hi')

theorem extendSelection_kept (h : tv.Kept) (indexes : Finset Nat) : (tv.extendSelection indexes).1.Kept := by
  unfold extendSelection
  cases hm : indexes.max with
  | bot => exact h
  | coe last =>
    simp only
    split_ifs with ho hmul
    · exact h
    · exact h
    · refine ⟨SelectionValid.of_mem (fun i hi => ?_) (Finset.mem_union_right _ (Finset.mem_of_max hm)) rfl, h.counted⟩
      rcases Finset.mem_union.1 hi with hi | hi
      · exact h.valid i hi
      · have hle := Finset.le_max_of_eq hi hm
        have hc := h.counted
        show i < tv.tableColumns.length
        omega

theorem selectColumnIndexes_kept (h : tv.Kept) (indexes : Finset Nat) (extend : Bool) :
    (tv.selectColumnIndexes indexes extend).1.Kept := by
  have hs : ({ tv with selectingColumns := true } : NSTableView I).Kept := ⟨⟨h.valid, h.unselected, h.last⟩, h.counted⟩
  unfold selectColumnIndexes
  simp only
  split_ifs with hextend hsm
  · exact extendSelection_kept hs indexes
  · cases hm : indexes.max with
    | bot => exact hs
    | coe last =>
      exact ⟨SelectionValid.of_mem h.valid (hsm ▸ Finset.mem_of_max hm) rfl, h.counted⟩
  · have hc : (unselectAllColumns { tv with selectingColumns := true }).Kept :=
      ⟨SelectionValid.of_empty rfl rfl, h.counted⟩
    exact extendSelection_kept hc indexes

variable [DecidableEq I]

theorem autosave_eq (tv : NSTableView I) :
    ∃ defaults, tv.autosaveTableColumnsNow = { tv with defaults := defaults } := by
  unfold autosaveTableColumnsNow
  split
  · exact ⟨_, rfl⟩
  · exact ⟨tv.defaults, rfl⟩

/-- A move does nothing, or it moves one column to the place of another. -/
theorem moveColumn_cases (h : tv.Kept) (columnIndex newIndex : Int) :
    tv.moveColumn columnIndex newIndex = tv ∨
      ∃ (a b : Nat) (defaults : String → Option (Layout I)), a < tv.tableColumns.length ∧
        b < tv.tableColumns.length ∧
        tv.moveColumn columnIndex newIndex =
          { tv with
            selectedColumn := renumber a b tv.selectedColumn
            selectedColumns := renumberSelected tv.selectedColumns a b
            editedColumn := renumber a b tv.editedColumn
            tableColumns := reorder tv.tableColumns a b
            defaults := defaults } := by
  have hcn := h.counted
  unfold moveColumn
  split_ifs with hc hn hsm
  · exact .inl rfl
  · exact .inl rfl
  · exact .inl rfl
  · obtain ⟨a, rfl⟩ := Int.eq_ofNat_of_zero_le (show 0 ≤ columnIndex by omega)
    obtain ⟨b, rfl⟩ := Int.eq_ofNat_of_zero_le (show 0 ≤ newIndex by omega)
    obtain ⟨defaults, hs⟩ := autosave_eq
      { tv with
        selectedColumn := renumber a b tv.selectedColumn
        selectedColumns := renumberSelected tv.selectedColumns a b
        editedColumn := renumber a b tv.editedColumn
        tableColumns := reorder tv.tableColumns a b }
    exact .inr ⟨a, b, defaults, by omega, by omega, hs⟩

theorem moveColumn_kept (h : tv.Kept) (columnIndex newIndex : Int) : (tv.moveColumn columnIndex newIndex).Kept := by
  rcases moveColumn_cases h columnIndex newIndex with heq | ⟨a, b, defaults, ha, hb, heq⟩
  · rw [heq]
    exact h
  · rw [heq]
    have hl := reorder_length ha hb
    refine ⟨?_, h.counted.trans hl.symm⟩
    have hv : ∀ i ∈ renumberSelected tv.selectedColumns a b, i < (reorder tv.tableColumns a b).length := by
      intro i hi
      have hlt := moved_lt ha hb (h.valid _ (mem_renumberSelected.1 hi))
      rw [moved_moved] at hlt
      omega
    rcases selectedColumn_cases h.toSelectionValid with ⟨he, hn⟩ | ⟨i, hi, -, hls⟩
    · refine SelectionValid.of_empty (Finset.eq_empty_of_forall_notMem fun i hi => ?_) ?_
      · have hm := mem_renumberSelected.1 hi
        rw [he] at hm
        exact absurd hm (Finset.notMem_empty _)
      · simp only [hn, renumber_none]
    · refine SelectionValid.of_mem (i := moved a b i) hv (mem_renumberSelected.2 ?_) ?_
      · rw [moved_moved]
        exact hi
      · simp only [hls, renumber_eq]

theorem moveColumn_follows (h : tv.Kept) (columnIndex newIndex : Int) :
    (tv.moveColumn columnIndex newIndex).selectedObjects = tv.selectedObjects ∧
      (tv.moveColumn columnIndex newIndex).columnAt (tv.moveColumn columnIndex newIndex).selectedColumn =
        tv.columnAt tv.selectedColumn := by
  rcases moveColumn_cases h columnIndex newIndex with heq | ⟨a, b, defaults, ha, hb, heq⟩
  · rw [heq]
    exact ⟨rfl, rfl⟩
  · rw [heq]
    constructor
    · ext d
      constructor
      · rintro ⟨i, hi, hd⟩
        have hm := mem_renumberSelected.1 hi
        refine ⟨moved b a i, hm, ?_⟩
        rw [← getElem?_reorder ha hb (h.valid _ hm), moved_moved]
        exact hd
      · rintro ⟨i, hi, hd⟩
        refine ⟨moved a b i, mem_renumberSelected.2 ?_, ?_⟩
        · rw [moved_moved]
          exact hi
        · exact (getElem?_reorder ha hb (h.valid i hi)).trans hd
    · rcases selectedColumn_cases h.toSelectionValid with ⟨-, hn⟩ | ⟨i, -, hlt, hl⟩
      · simp only [hn, renumber_none]
        rfl
      · simp only [hl, renumber_eq, columnAt_natCast]
        exact getElem?_reorder ha hb hlt

/-! ## Removing a column -/

/-- The column stands in the table, and no other one has its identifier. -/
def NSTableView.HasUnique (tv : NSTableView I) (c : NSTableColumn I) : Prop :=
  ∃ pre post, tv.tableColumns = pre ++ c :: post ∧ ∀ d ∈ pre ++ post, d.identifier ≠ c.identifier

/-- No selected column stands behind the one that is removed. -/
def NSTableView.NothingBehind (tv : NSTableView I) (c : NSTableColumn I) : Prop :=
  ∀ i ∈ tv.selectedColumns, (i : Int) ≤ tv.columnWithIdentifier c.identifier

variable {pre post : List (NSTableColumn I)}

omit [DecidableEq I] in
theorem ne_of_identifier_ne (hother : ∀ d ∈ pre ++ post, d.identifier ≠ c.identifier) : ∀ d ∈ pre ++ post, d ≠ c := by
  intro d hd hdc
  exact hother d hd (hdc ▸ rfl)

theorem columnWithIdentifier_at (hc : tv.tableColumns = pre ++ c :: post)
    (hother : ∀ d ∈ pre ++ post, d.identifier ≠ c.identifier) : tv.columnWithIdentifier c.identifier = pre.length := by
  have hp : pre.findIdx? (·.identifier = c.identifier) = none := by
    rw [List.findIdx?_eq_none_iff]
    intro d hd
    simpa using hother d (List.mem_append_left _ hd)
  unfold columnWithIdentifier
  rw [hc, List.findIdx?_append, hp]
  simp [List.findIdx?_cons]

theorem filter_removed (hother : ∀ d ∈ pre ++ post, d.identifier ≠ c.identifier) :
    (pre ++ c :: post).filter (· ≠ c) = pre ++ post := by
  have hne := ne_of_identifier_ne hother
  have hp : pre.filter (· ≠ c) = pre :=
    List.filter_eq_self.2 fun d hd => by simpa using hne d (List.mem_append_left _ hd)
  have hps : post.filter (· ≠ c) = post :=
    List.filter_eq_self.2 fun d hd => by simpa using hne d (List.mem_append_right _ hd)
  rw [List.filter_append, hp, List.filter_cons_of_neg (by simp), hps]

section

omit [DecidableEq I]

theorem deselectColumn_columns (tv : NSTableView I) (k : Int) : (tv.deselectColumn k).tableColumns = tv.tableColumns ∧
      (tv.deselectColumn k).numberOfColumns = tv.numberOfColumns := by
  unfold deselectColumn
  split <;> exact ⟨rfl, rfl⟩

theorem deselectColumn_selectedColumns (tv : NSTableView I) (k : Nat) :
    (tv.deselectColumn k).selectedColumns = tv.selectedColumns.erase k := by
  unfold deselectColumn
  split
  · rename_i ho
    have ho : k ∉ tv.selectedColumns := by
      rcases ho with hn | ho
      · omega
      · simpa using ho
    exact (Finset.erase_eq_of_notMem ho).symm
  · simp

theorem deselectColumn_selectedColumn {k : Int} (hother : tv.selectedColumn ≠ k) :
    (tv.deselectColumn k).selectedColumn = tv.selectedColumn := by
  unfold deselectColumn
  split
  · rfl
  · rfl

end

/-- What is left of a table without a column behind which nothing is selected. -/
theorem removeTableColumn_cases (h : tv.Kept) (hu : tv.HasUnique c) (hb : tv.NothingBehind c) :
    ∃ pre post, tv.tableColumns = pre ++ c :: post ∧ (∀ d ∈ pre ++ post, d ≠ c) ∧
      (∀ i ∈ tv.selectedColumns, i ≤ pre.length) ∧ (tv.removeTableColumn c).tableColumns = pre ++ post ∧
      (tv.removeTableColumn c).numberOfColumns = tv.numberOfColumns - 1 ∧
      (tv.removeTableColumn c).selectedColumns = tv.selectedColumns.erase pre.length ∧
      (tv.removeTableColumn c).selectedColumn = (tv.deselectColumn pre.length).selectedColumn := by
  obtain ⟨pre, post, hc, hother⟩ := hu
  have hidx := columnWithIdentifier_at hc hother
  have hle : ∀ i ∈ tv.selectedColumns, i ≤ pre.length := by
    intro i hi
    have hbef := hb i hi
    omega
  refine ⟨pre, post, hc, ne_of_identifier_ne hother, hle, ?_⟩
  have hp : ¬ ((pre.length : Int) = -1) := by omega
  obtain ⟨hd, hn⟩ := deselectColumn_columns tv pre.length
  have hs := deselectColumn_selectedColumns tv pre.length
  have hl : ¬ (tv.deselectColumn pre.length).selectedColumn > pre.length := by
    rcases selectedColumn_cases (deselectColumn_kept h pre.length).toSelectionValid with
      ⟨-, hnn⟩ | ⟨i, hi, -, hsm⟩
    · omega
    · rw [hs] at hi
      have hbef := hle i (Finset.mem_of_mem_erase hi)
      omega
  unfold removeTableColumn
  simp only [hidx, hp, if_false, hd, hn, hs, hl, Int.toNat_natCast]
  refine ⟨?_, trivial, Finset.erase_idem, trivial⟩
  rw [hc]
  exact filter_removed hother

theorem removeTableColumn_kept (h : tv.Kept) (hu : tv.HasUnique c) (hb : tv.NothingBehind c) :
    (tv.removeTableColumn c).Kept := by
  obtain ⟨pre, post, hc, -, hle, hl, hn, hs, hls⟩ := removeTableColumn_cases h hu hb
  have hcn := h.counted
  rw [hc, List.length_append, List.length_cons] at hcn
  refine ⟨?_, by rw [hn, hl, List.length_append]; omega⟩
  have hv : ∀ i ∈ (tv.removeTableColumn c).selectedColumns, i < (tv.removeTableColumn c).tableColumns.length := by
    intro i hi
    rw [hs] at hi
    obtain ⟨hne, hi⟩ := Finset.mem_erase.1 hi
    have hbef := hle i hi
    rw [hl, List.length_append]
    omega
  rcases selectedColumn_cases (deselectColumn_kept h pre.length).toSelectionValid with
    ⟨he, hnn⟩ | ⟨i, hi, -, hsm⟩
  · rw [deselectColumn_selectedColumns] at he
    exact SelectionValid.of_empty (hs.trans he) (hls.trans hnn)
  · rw [deselectColumn_selectedColumns, ← hs] at hi
    exact SelectionValid.of_mem hv hi (hls.trans hsm)

theorem removeTableColumn_follows (h : tv.Kept) (hu : tv.HasUnique c) (hbhd : tv.NothingBehind c) :
    (tv.removeTableColumn c).selectedObjects = tv.selectedObjects \ {c} ∧ (tv.columnAt tv.selectedColumn ≠ some c →
        (tv.removeTableColumn c).columnAt (tv.removeTableColumn c).selectedColumn = tv.columnAt tv.selectedColumn) := by
  obtain ⟨pre, post, hc, hne, hle, hl, -, hs, hls⟩ := removeTableColumn_cases h hu hbhd
  have hb {i : Nat} (hi : i < pre.length) : (tv.removeTableColumn c).tableColumns[i]? = tv.tableColumns[i]? := by
    rw [hl, hc, List.getElem?_append_left hi, List.getElem?_append_left hi]
  have ha : tv.tableColumns[pre.length]? = some c := by rw [hc, getElem?_at]
  constructor
  · ext d
    constructor
    · rintro ⟨i, hi, hd⟩
      rw [hs] at hi
      obtain ⟨hik, hi⟩ := Finset.mem_erase.1 hi
      have hlt : i < pre.length := Nat.lt_of_le_of_ne (hle i hi) hik
      have hm : d ∈ pre ++ post := hl ▸ List.mem_of_getElem? hd
      exact ⟨⟨i, hi, (hb hlt).symm.trans hd⟩, hne d hm⟩
    · rintro ⟨⟨i, hi, hd⟩, hdc⟩
      have hik : i ≠ pre.length := by
        rintro rfl
        exact hdc (Option.some.inj (hd.symm.trans ha))
      have hlt : i < pre.length := Nat.lt_of_le_of_ne (hle i hi) hik
      exact ⟨i, hs ▸ Finset.mem_erase.2 ⟨hik, hi⟩, (hb hlt).trans hd⟩
  · intro hother
    rcases selectedColumn_cases h.toSelectionValid with ⟨-, hn⟩ | ⟨i, hi, -, hso⟩
    · have hsm : (tv.deselectColumn pre.length).selectedColumn = tv.selectedColumn :=
        deselectColumn_selectedColumn (by omega)
      rw [hls, hsm, hn]
      rfl
    · rw [hso, columnAt_natCast] at hother
      have hik : i ≠ pre.length := by
        rintro rfl
        exact hother ha
      have hlt : i < pre.length := Nat.lt_of_le_of_ne (hle i hi) hik
      have hsm : (tv.deselectColumn pre.length).selectedColumn = tv.selectedColumn :=
        deselectColumn_selectedColumn (by omega)
      rw [hls, hsm, hso, columnAt_natCast, columnAt_natCast]
      exact hb hlt

end Steps

/-! ## Runs -/

inductive ColumnCall (I : Type) where
  | addTableColumn (aColumn : NSTableColumn I)
  | removeTableColumn (aColumn : NSTableColumn I)
  | moveColumn (columnIndex newIndex : Int)
  | selectColumnIndexes (indexes : Finset Nat) (extend : Bool)
  | deselectColumn (columnIndex : Int)

section Runs

variable [DecidableEq I]

def NSTableView.call (tv : NSTableView I) : ColumnCall I → NSTableView I
  | .addTableColumn c => tv.addTableColumn c
  | .removeTableColumn c => tv.removeTableColumn c
  | .moveColumn columnIndex newIndex => tv.moveColumn columnIndex newIndex
  | .selectColumnIndexes indexes extend => (tv.selectColumnIndexes indexes extend).1
  | .deselectColumn columnIndex => tv.deselectColumn columnIndex

/-- A table without columns. -/
def emptyTable (allowsMultipleSelection autosaveTableColumns : Bool) (autosaveName : Option String)
    (defaults : String → Option (Layout I)) : NSTableView I where
  tableColumns := []
  numberOfColumns := 0
  selectedColumns := ∅
  selectedColumn := -1
  editedColumn := -1
  selectingColumns := false
  allowsMultipleSelection := allowsMultipleSelection
  autosaveTableColumns := autosaveTableColumns
  autosaveName := autosaveName
  defaults := defaults

/-- The calls that are made: a removed column is there under an identifier of its own, and selected
indexes are those of columns. -/
def Admitted (tv : NSTableView I) : ColumnCall I → Prop
  | .removeTableColumn c => tv.HasUnique c
  | .selectColumnIndexes indexes _ => ∀ i ∈ indexes, i < tv.tableColumns.length
  | _ => True

/-- No selected column stands behind a removed one. -/
def Renumbers (tv : NSTableView I) : ColumnCall I → Prop
  | .removeTableColumn c => tv.NothingBehind c
  | _ => True

/-- The selection follows the columns: the selected objects stay the same but for a removed one, and
so does the column selected last. -/
def Follows (tv : NSTableView I) : ColumnCall I → NSTableView I → Prop
  | .addTableColumn _, tv' => tv'.selectedObjects = tv.selectedObjects
  | .removeTableColumn c, tv' => tv'.selectedObjects = tv.selectedObjects \ {c} ∧
      (tv.columnAt tv.selectedColumn ≠ some c →
        tv'.columnAt tv'.selectedColumn = tv.columnAt tv.selectedColumn)
  | .moveColumn _ _, tv' => tv'.selectedObjects = tv.selectedObjects ∧
      tv'.columnAt tv'.selectedColumn = tv.columnAt tv.selectedColumn
  | _, _ => True

variable {tv : NSTableView I}

theorem call_kept (h : tv.Kept) {call : ColumnCall I} (ha : Admitted tv call)
    (hr : Renumbers tv call) : (tv.call call).Kept := by
  cases call with
  | addTableColumn c => exact addTableColumn_kept h
  | removeTableColumn c => exact removeTableColumn_kept h ha hr
  | moveColumn columnIndex newIndex => exact moveColumn_kept h columnIndex newIndex
  | selectColumnIndexes indexes extend => exact selectColumnIndexes_kept h indexes extend
  | deselectColumn columnIndex => exact deselectColumn_kept h columnIndex

theorem call_follows (h : tv.Kept) {call : ColumnCall I} (ha : Admitted tv call)
    (hr : Renumbers tv call) : Follows tv call (tv.call call) := by
  cases call with
  | addTableColumn c => exact addTableColumn_follows h
  | removeTableColumn c => exact removeTableColumn_follows h ha hr
  | moveColumn columnIndex newIndex => exact moveColumn_follows h columnIndex newIndex
  | selectColumnIndexes indexes extend => trivial
  | deselectColumn columnIndex => trivial

/-- What holds of every call of a run, in the state that it finds. -/
def EveryCall (P : NSTableView I → ColumnCall I → Prop) : NSTableView I → List (ColumnCall I) → Prop
  | _, [] => True
  | tv, call :: calls => P tv call ∧ EveryCall P (tv.call call) calls

/-- In every state of the run the selection is valid, and every call keeps it on its columns. -/
def Bookkept : NSTableView I → List (ColumnCall I) → Prop
  | tv, [] => tv.SelectionValid
  | tv, call :: calls => tv.SelectionValid ∧ Follows tv call (tv.call call) ∧ Bookkept (tv.call call) calls

theorem bookkept_of_kept (h : tv.Kept) {calls : List (ColumnCall I)}
    (hc : EveryCall (fun tv call => Admitted tv call ∧ Renumbers tv call) tv calls) : Bookkept tv calls := by
  induction calls generalizing tv with
  | nil => exact h.toSelectionValid
  | cons call calls ih =>
    obtain ⟨⟨ha, hr⟩, hrs⟩ := hc
    exact ⟨h.toSelectionValid, call_follows h ha hr, ih (call_kept h ha hr) hrs⟩

/-- The selection follows the columns in every run in which no removal leaves a selected column
behind it. -/
theorem columns_bookkept (allowsMultipleSelection autosaveTableColumns : Bool)
    (autosaveName : Option String) (defaults : String → Option (Layout I)) (calls : List (ColumnCall I))
    (hcalls : EveryCall (fun tv call => Admitted tv call ∧ Renumbers tv call)
      (emptyTable allowsMultipleSelection autosaveTableColumns autosaveName defaults) calls) :
    Bookkept (emptyTable allowsMultipleSelection autosaveTableColumns autosaveName defaults) calls := by
  have he : (emptyTable allowsMultipleSelection autosaveTableColumns autosaveName defaults).Kept :=
    ⟨SelectionValid.of_empty rfl rfl, rfl⟩
  exact bookkept_of_kept he hcalls

end Runs

/-! ## A removal in front of the selection -/

def plainColumn (identifier : Nat) : NSTableColumn Nat := ⟨identifier, identifier, 100, 10, 100000⟩

def noColumns : NSTableView Nat := emptyTable true false none fun _ => none

def addedColumns : List (ColumnCall Nat) :=
  [.addTableColumn (plainColumn 0), .addTableColumn (plainColumn 1), .addTableColumn (plainColumn 2)]

theorem columns_bookkept_last_removed :
    Bookkept noColumns (addedColumns ++
      [.selectColumnIndexes {0, 1} false, .moveColumn 0 1, .removeTableColumn (plainColumn 2)]) := by
  refine columns_bookkept true false none (fun _ => none) _ ?_
  refine ⟨⟨trivial, trivial⟩, ⟨trivial, trivial⟩, ⟨trivial, trivial⟩, ⟨?_, trivial⟩,
    ⟨trivial, trivial⟩, ⟨⟨[plainColumn 1, plainColumn 0], [], by decide, by decide⟩, ?_⟩, trivial⟩
  · show ∀ i ∈ ({0, 1} : Finset Nat), i < 3
    decide
  · simp only [Renumbers, NSTableView.NothingBehind]
    decide

/-- The third of three columns is selected and the first is removed: the selected index is then that
of no column. -/
theorem not_bookkept_first_removed :
    EveryCall Admitted noColumns
        (addedColumns ++ [.selectColumnIndexes {2} false, .removeTableColumn (plainColumn 0)]) ∧
      ¬ Bookkept noColumns
        (addedColumns ++ [.selectColumnIndexes {2} false, .removeTableColumn (plainColumn 0)]) := by
  constructor
  · refine ⟨trivial, trivial, trivial, ?_, ⟨[], [plainColumn 1, plainColumn 2], by decide, by decide⟩, trivial⟩
    show ∀ i ∈ ({2} : Finset Nat), i < 3
    decide
  · rintro ⟨-, -, -, -, -, -, -, -, -, -, hv⟩
    exact absurd (hv.valid 2 (by decide)) (by decide)

end GnustepGui.TableView
