import GnustepGui.GridView.Shape

/-!
# Editing a grid

What the edits of rows and columns keep: every cell outside the line that is inserted or removed has its content in its
row and its column, which may have moved. An edit at a valid index raises only where cells are needed and none are
given.
-/

namespace GnustepGui.GridView

open Tables NSGridCell

variable {V : Type}

/-! ## Edits -/

inductive GridEdit (V : Type)
  | insertRow (index : Nat) (views : List V)
  | moveRow (fromIndex toIndex : Nat)
  | removeRow (index : Nat)
  | insertColumn (index : Nat) (views : List V)
  | moveColumn (fromIndex toIndex : Nat)
  | removeColumn (index : Nat)
  deriving Repr

namespace GridEdit

/-- The indexes are within a grid of that many rows and columns. -/
def Valid (rows columns : Nat) : GridEdit V → Prop
  | insertRow index _ => index ≤ rows
  | moveRow fromIndex toIndex => fromIndex < rows ∧ toIndex < rows
  | removeRow index => index < rows
  | insertColumn index _ => index ≤ columns
  | moveColumn fromIndex toIndex => fromIndex < columns ∧ toIndex < columns
  | removeColumn index => index < columns

/-- There is a view for a new line, unless it has no cells. -/
def HasViews (rows columns : Nat) : GridEdit V → Prop
  | insertRow _ views => views ≠ [] ∨ columns = 0
  | insertColumn _ views => views ≠ [] ∨ rows = 0
  | _ => True

/-- The numbers of rows and of columns afterwards. -/
def counts (rows columns : Nat) : GridEdit V → Nat × Nat
  | insertRow _ _ => (rows + 1, columns)
  | moveRow _ _ => (rows, columns)
  | removeRow _ => (rows - 1, columns)
  | insertColumn _ _ => (rows, columns + 1)
  | moveColumn _ _ => (rows, columns)
  | removeColumn _ => (rows, columns - 1)

end GridEdit

namespace NSGridView

variable [DecidableEq V]

def perform (g : NSGridView V) : GridEdit V → Except (NSGridView V) (NSGridView V)
  | .insertRow index views => g.insertRow index views
  | .moveRow fromIndex toIndex => g.moveRow fromIndex toIndex
  | .removeRow index => g.removeRow index
  | .insertColumn index views => g.insertColumn index views
  | .moveColumn fromIndex toIndex => g.moveColumn fromIndex toIndex
  | .removeColumn index => g.removeColumn index

/-- The cell of a row and a column, with its content. -/
def shownAt (g : NSGridView V) (r c : Nat) : Option (Nat × Option V) := (g.cellAtColumnIndex c r).map shown

/-- What is in the lines that were there before is in the lines that they are now. -/
def Keeps (g g' : NSGridView V) : GridEdit V → Prop
  | .insertRow index _ => ∀ r < g.numberOfRows, ∀ c < g.numberOfColumns, g'.shownAt (after index r) c = g.shownAt r c
  | .moveRow fromIndex toIndex => ∀ r < g.numberOfRows, ∀ c < g.numberOfColumns,
      g'.shownAt (Positions.moved fromIndex toIndex r) c = g.shownAt r c
  | .removeRow index => ∀ r < g'.numberOfRows, ∀ c < g.numberOfColumns, g'.shownAt r c = g.shownAt (after index r) c
  | .insertColumn index _ => ∀ r < g.numberOfRows, ∀ c < g.numberOfColumns,
      g'.shownAt r (after index c) = g.shownAt r c
  | .moveColumn fromIndex toIndex => ∀ r < g.numberOfRows, ∀ c < g.numberOfColumns,
      g'.shownAt r (Positions.moved fromIndex toIndex c) = g.shownAt r c
  | .removeColumn index => ∀ r < g.numberOfRows, ∀ c < g'.numberOfColumns,
      g'.shownAt r c = g.shownAt r (after index c)

/-! ## Each edit -/

variable {g : NSGridView V} {t : List (List (NSGridCell V))}

/-- What an edit leaves when it does not raise. -/
structure Edited (g g' : NSGridView V) (edit : GridEdit V) : Prop where
  represents : ∃ t', g'.Represents t'
  counts : (g'.numberOfRows, g'.numberOfColumns) = edit.counts g.numberOfRows g.numberOfColumns
  keeps : g.Keeps g' edit

section

omit [DecidableEq V]

theorem Represents.later (h : g.Represents t) (n : Nat) : Represents { g with next := g.next + n } t :=
  ⟨h.cells, h.owners, h.rows_nodup, h.columns_nodup, fun row hr => Nat.lt_add_right n (h.rows_lt row hr),
    fun column hc => Nat.lt_add_right n (h.columns_lt column hc)⟩

theorem Represents.shownAt (h : g.Represents t) (r : Nat) {c : Nat} (hc : c < g.columns.length) :
    g.shownAt r c = (entry t r c).map shown := by
  rw [NSGridView.shownAt, h.cellAt r hc, entry]

variable {views : List V}

theorem newCells_ne_nil (h : views ≠ []) (number : Nat) : newCells number views ≠ [] := by
  cases views with
  | nil => exact absurd rfl h
  | cons v views => exact List.cons_ne_nil _ _

theorem insertRow_edited (h : g.Represents t) {index : Nat} (hi : index ≤ g.rows.length)
    (hv : views ≠ [] ∨ g.columns.length = 0) :
    ∃ g', g.insertRow index views = .ok g' ∧ g.Edited g' (.insertRow index views) := by
  obtain ⟨g', hok, hr, hrw, hcl⟩ := insertRowWithCells_ok (h.later views.length) hi
    (hv.imp (newCells_ne_nil · g.next) List.length_eq_zero_iff.mp)
  refine ⟨g', hok, ⟨_, hr⟩, ?_, fun r _ c hc => ?_⟩
  · rw [numberOfRows, numberOfColumns, hrw, hcl, List.length_insertIdx_of_le_length hi]
    rfl
  · rw [hr.shownAt _ (hcl ▸ hc), h.shownAt r hc, entry_insertRow]

theorem insertColumn_edited (h : g.Represents t) {index : Nat} (hi : index ≤ g.columns.length)
    (hv : views ≠ [] ∨ g.rows.length = 0) :
    ∃ g', g.insertColumn index views = .ok g' ∧ g.Edited g' (.insertColumn index views) := by
  obtain ⟨g', hok, hr, hcl, hrw⟩ := insertColumnWithCells_ok (h.later views.length) hi
    (hv.imp (newCells_ne_nil · g.next) List.length_eq_zero_iff.mp)
  refine ⟨g', hok, ⟨_, hr⟩, ?_, fun r _ c hc => ?_⟩
  · rw [numberOfRows, numberOfColumns, hrw, hcl, List.length_insertIdx_of_le_length hi]
    rfl
  · have hc' : after index c < g'.columns.length := by
      rw [hcl, List.length_insertIdx_of_le_length hi, after]
      have hc : c < g.columns.length := hc
      split <;> (show _ < g.columns.length + 1; omega)
    rw [hr.shownAt _ hc', h.shownAt r hc, entry_insertColumn]
    exact (length_columnCells _ _).trans h.length_eq.symm

theorem Represents.shownTable (h : g.Represents t) (r : Nat) {c : Nat} (hc : c < g.columns.length) :
    g.shownAt r c = entry (t.map (·.map shown)) r c := by
  rw [h.shownAt r hc, entry_map]

end

theorem removeRow_edited (h : g.Represents t) {index : Nat} (hi : index < g.rows.length) :
    ∃ g', g.removeRow index = .ok g' ∧ g.Edited g' (.removeRow index) := by
  obtain ⟨g', hok, hr, hrw, hcl⟩ := removeRow_ok h (List.getElem?_eq_getElem hi)
  refine ⟨g', hok, ⟨_, hr⟩, ?_, fun r _ c hc => ?_⟩
  · rw [numberOfRows, numberOfColumns, hrw, hcl, List.length_eraseIdx_of_lt hi]
    rfl
  · rw [hr.shownAt _ (hcl ▸ hc), h.shownAt _ hc, entry_eraseRow]

theorem removeColumn_edited (h : g.Represents t) {index : Nat} (hi : index < g.columns.length) :
    ∃ g', g.removeColumn index = .ok g' ∧ g.Edited g' (.removeColumn index) := by
  obtain ⟨g', hok, hr, hrw, hcl⟩ := removeColumn_ok h (List.getElem?_eq_getElem hi)
  have hl : g'.columns.length = g.columns.length - 1 := by rw [hcl, List.length_eraseIdx_of_lt hi]
  refine ⟨g', hok, ⟨_, hr⟩, ?_, fun r _ c hc => ?_⟩
  · rw [numberOfRows, numberOfColumns, hrw, hl]
    rfl
  · have hc' : after index c < g.columns.length := by
      have hc : c < g'.columns.length := hc
      rw [after]
      split <;> omega
    rw [hr.shownAt _ hc, h.shownAt _ hc', entry_eraseColumn]

/-- The cells that are taken out of a row are put back in a new one. -/
theorem moveRow_edited (h : g.Represents t) {a b : Nat} (ha : a < g.rows.length) (hb : b < g.rows.length) :
    ∃ g', g.moveRow a b = .ok g' ∧ g.Edited g' (.moveRow a b) := by
  have hrow := List.getElem?_eq_getElem ha
  obtain ⟨g1, hrm, hrep1, hrw1, hcl1⟩ := removeRow_ok h hrow
  have hcel : t[a]? = some (g.cellsForRow g.rows[a]) := by
    rw [(cellsForRow_eq h hrow).2, List.getElem?_eq_getElem (h.length_eq ▸ ha)]
    rfl
  have hl : (g.cellsForRow g.rows[a]).length = g1.columns.length :=
    (h.rectangular _ (List.mem_of_getElem? hcel)).trans (congrArg List.length hcl1.symm)
  have hl1 : g1.rows.length = g.rows.length - 1 := by rw [hrw1, List.length_eraseIdx_of_lt ha]
  have hsm : g.cellsForRow g.rows[a] ≠ [] ∨ g1.columns = [] := by
    rw [← List.length_eq_zero_iff, ← hl, List.length_eq_zero_iff]
    exact (em _).symm
  have hb1 : b ≤ g1.rows.length := by omega
  obtain ⟨g2, hin, hrep2, hrw2, hcl2⟩ := insertRowWithCells_ok hrep1 hb1 hsm
  refine ⟨g2, ?_, ⟨_, hrep2⟩, ?_, fun r hr c hc => ?_⟩
  · rw [moveRow, hrow]
    dsimp only
    rw [hrm]
    exact hin
  · rw [numberOfRows, numberOfColumns, hrw2, hcl2, hcl1, List.length_insertIdx_of_le_length hb1,
      hl1, Nat.sub_add_cancel (by omega)]
    rfl
  · have hs : (t.map (·.map shown))[a]? = some ((g.cellsForRow g.rows[a]).map shown) := by
      rw [List.getElem?_map, hcel]
      rfl
    rw [hrep2.shownTable _ (by rw [hcl2, hcl1]; exact hc), h.shownTable _ hc, List.map_insertIdx,
      rowCells_shown hl, ← List.eraseIdx_map]
    refine entry_moveRow hs ?_ ?_ c
    · rw [List.length_map, h.length_eq]
      exact hb
    · rw [List.length_map, h.length_eq]
      exact hr

theorem moveColumn_edited (h : g.Represents t) {a b : Nat} (ha : a < g.columns.length) (hb : b < g.columns.length) :
    ∃ g', g.moveColumn a b = .ok g' ∧ g.Edited g' (.moveColumn a b) := by
  have hcol := List.getElem?_eq_getElem ha
  obtain ⟨g1, hrm, hrep1, hrw1, hcl1⟩ := removeColumn_ok h hcol
  have hcel := (cellsForColumn_eq h hcol).2
  have hs := map_some_column h.rectangular ha
  have hl : (g.cellsForColumn g.columns[a]).length = g1.rows.length := by
    have hln := congrArg List.length hs
    rw [List.length_map, List.length_map] at hln
    rw [hcel, hln, h.length_eq, hrw1]
  have hl1 : g1.columns.length = g.columns.length - 1 := by rw [hcl1, List.length_eraseIdx_of_lt ha]
  have hsm : g.cellsForColumn g.columns[a] ≠ [] ∨ g1.rows = [] := by
    rw [← List.length_eq_zero_iff, ← hl, List.length_eq_zero_iff]
    exact (em _).symm
  have hb1 : b ≤ g1.columns.length := by omega
  obtain ⟨g2, hin, hrep2, hcl2, hrw2⟩ := insertColumnWithCells_ok hrep1 hb1 hsm
  have hl2 : g2.columns.length = g.columns.length := by
    rw [hcl2, List.length_insertIdx_of_le_length hb1, hl1, Nat.sub_add_cancel (by omega)]
  refine ⟨g2, ?_, ⟨_, hrep2⟩, ?_, fun r hr c hc => ?_⟩
  · rw [moveColumn, hcol]
    dsimp only
    rw [hrm]
    exact hin
  · rw [numberOfRows, numberOfColumns, hrw2, hrw1, hl2]
    rfl
  · have hshn : ((g.cellsForColumn g.columns[a]).map shown).map some = (t.map (·.map shown)).map (·[a]?) := by
      have hm := congrArg (List.map (Option.map shown)) hs
      rw [List.map_map, List.map_map] at hm
      rw [hcel, List.map_map, List.map_map]
      simpa [Function.comp_def] using hm
    have he : (t.map (·.eraseIdx a)).map (·.map shown) = (t.map (·.map shown)).map (·.eraseIdx a) := by
      rw [List.map_map, List.map_map]
      exact List.map_congr_left fun row _ => (List.eraseIdx_map _ _ _).symm
    have hrec : Rectangular g.columns.length (t.map (·.map shown)) := by
      intro row hrow
      obtain ⟨row', hrow', rfl⟩ := List.mem_map.mp hrow
      rw [List.length_map]
      exact h.rectangular row' hrow'
    rw [hrep2.shownTable _ (hl2 ▸ Positions.moved_lt ha hb hc), h.shownTable _ hc, map_insertColumn,
      columnCells_shown hl, he]
    exact entry_moveColumn hrec hshn hb hc r

/-! ## Any edit -/

theorem perform_edited (h : g.Represents t) (edit : GridEdit V) (hv : edit.Valid g.numberOfRows g.numberOfColumns)
    (hvw : edit.HasViews g.numberOfRows g.numberOfColumns) : ∃ g', g.perform edit = .ok g' ∧ g.Edited g' edit := by
  cases edit with
  | insertRow index views => exact insertRow_edited h hv hvw
  | moveRow fromIndex toIndex => exact moveRow_edited h hv.1 hv.2
  | removeRow index => exact removeRow_edited h hv
  | insertColumn index views => exact insertColumn_edited h hv hvw
  | moveColumn fromIndex toIndex => exact moveColumn_edited h hv.1 hv.2
  | removeColumn index => exact removeColumn_edited h hv

theorem perform_raises (edit : GridEdit V) (hv : edit.Valid g.numberOfRows g.numberOfColumns)
    (hvw : ¬ edit.HasViews g.numberOfRows g.numberOfColumns) (g' : NSGridView V) : g.perform edit ≠ .ok g' := by
  intro hok
  cases edit with
  | insertRow index views =>
    obtain ⟨hn, hc⟩ := not_or.mp hvw
    obtain rfl := not_not.mp hn
    have hi : index ≤ g.rows.length := hv
    have hc : g.columns ≠ [] := fun h => hc (congrArg List.length h)
    simp only [perform, insertRow, insertRowWithCells, if_pos hi, newCells, insertCells_nil hc] at hok
    cases hok
  | insertColumn index views =>
    obtain ⟨hn, hr⟩ := not_or.mp hvw
    obtain rfl := not_not.mp hn
    have hi : index ≤ g.columns.length := hv
    have hr : g.rows ≠ [] := fun h => hr (congrArg List.length h)
    simp only [perform, insertColumn, insertColumnWithCells, if_pos hi, newCells, insertCells_nil hr] at hok
    cases hok
  | moveRow => exact absurd trivial hvw
  | removeRow => exact absurd trivial hvw
  | moveColumn => exact absurd trivial hvw
  | removeColumn => exact absurd trivial hvw

end NSGridView

end GnustepGui.GridView
