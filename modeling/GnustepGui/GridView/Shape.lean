import GnustepGui.GridView.Grid

/-!
# The shape of a grid

A grid in good shape holds a table of cells, whose owners are the rows and the columns. The operations insert, remove
and move a row or a column of the table.
-/

namespace GnustepGui.GridView

open Tables

variable {V : Type} {g : NSGridView V} {t : List (List (NSGridCell V))}

namespace NSGridCell

def owners (c : NSGridCell V) : Option Nat × Option Nat := (c.row, c.column)

/-- Which cell it is, and its content. -/
def shown (c : NSGridCell V) : Nat × Option V := (c.number, c.contentView)

end NSGridCell

open NSGridCell

namespace NSGridView

/-- The owners of the cells. -/
def ownerTable (rows columns : List Nat) : List (List (Option Nat × Option Nat)) :=
  rows.map fun row => columns.map fun column => (some row, some column)

structure Represents (g : NSGridView V) (t : List (List (NSGridCell V))) : Prop where
  cells : g.cells = t.flatten
  owners : t.map (·.map owners) = ownerTable g.rows g.columns
  rows_nodup : g.rows.Nodup
  columns_nodup : g.columns.Nodup
  rows_lt : ∀ row ∈ g.rows, row < g.next
  columns_lt : ∀ column ∈ g.columns, column < g.next

namespace Represents

theorem length_eq (h : g.Represents t) : t.length = g.rows.length := by
  have hl := congrArg List.length h.owners
  simpa [ownerTable] using hl

theorem rectangular (h : g.Represents t) : Rectangular g.columns.length t := by
  intro row hr
  have hm : row.map NSGridCell.owners ∈ ownerTable g.rows g.columns := h.owners ▸ List.mem_map_of_mem hr
  obtain ⟨_, -, heq⟩ := List.mem_map.mp hm
  have hl := congrArg List.length heq
  simpa using hl.symm

theorem length_cells (h : g.Represents t) : g.cells.length = g.rows.length * g.columns.length := by
  rw [h.cells, length_flatten h.rectangular, h.length_eq]

theorem cellAt (h : g.Represents t) (r : Nat) {c : Nat} (hc : c < g.columns.length) :
    g.cellAtColumnIndex c r = (t[r]?).bind (·[c]?) := by
  rw [cellAtColumnIndex, h.cells]
  exact getElem?_flatten h.rectangular r hc

theorem owner (h : g.Represents t) {r c : Nat} {row : List (NSGridCell V)} {x : NSGridCell V} (hr : t[r]? = some row)
    (hx : row[c]? = some x) : ∃ a b, g.rows[r]? = some a ∧ g.columns[c]? = some b ∧ x.owners = (some a, some b) := by
  have hrw : (ownerTable g.rows g.columns)[r]? = some (row.map NSGridCell.owners) := by
    rw [← h.owners, List.getElem?_map, hr]
    rfl
  rw [ownerTable, List.getElem?_map] at hrw
  obtain ⟨a, ha, heq⟩ := Option.map_eq_some_iff.mp hrw
  have he : (row.map NSGridCell.owners)[c]? = some x.owners := by
    rw [List.getElem?_map, hx]
    rfl
  rw [← heq, List.getElem?_map] at he
  obtain ⟨b, hb, ho⟩ := Option.map_eq_some_iff.mp he
  exact ⟨a, b, ha, hb, ho.symm⟩

end Represents

theorem refreshCells_ok (h : g.cells.length = g.rows.length * g.columns.length) : g.refreshCells = .ok g := by
  refine if_pos (.inr fun i hi => ?_)
  rw [h] at hi
  have hp : 0 < g.columns.length := Nat.pos_of_ne_zero fun hz => by
    rw [hz, Nat.mul_zero] at hi
    exact absurd hi (Nat.not_lt_zero i)
  exact ⟨Nat.mod_lt i hp, (Nat.div_lt_iff_lt_mul hp).mpr hi⟩

/-! ## The loop of an insertion -/

/-- The cells that are inserted. -/
def placed (cells : List (NSGridCell V)) (own : Nat → NSGridCell V → NSGridCell V) :
    Nat → List Nat → Nat → List (NSGridCell V)
  | _, [], _ => []
  | i, line :: lines, next =>
    own line ((cells[i]?).getD ⟨next, none, none, none⟩) :: placed cells own (i + 1) lines (next + 1)

section

variable {cells : List (NSGridCell V)} {own : Nat → NSGridCell V → NSGridCell V} {place : Nat → Nat}

@[simp] theorem length_placed (i : Nat) (lines : List Nat) (next : Nat) :
    (placed cells own i lines next).length = lines.length := by
  induction lines generalizing i next with
  | nil => rfl
  | cons line lines ih => rw [placed, List.length_cons, List.length_cons, ih]

theorem placed_owners {f : Nat → Option Nat × Option Nat} (ho : ∀ line c, (own line c).owners = f line) (i : Nat)
    (lines : List Nat) (next : Nat) : (placed cells own i lines next).map owners = lines.map f := by
  induction lines generalizing i next with
  | nil => rfl
  | cons line lines ih => rw [placed, List.map_cons, List.map_cons, ih, ho]

theorem placed_shown (ho : ∀ line c, (own line c).shown = c.shown) (i : Nat) (lines : List Nat) (next : Nat)
    (hl : (cells.drop i).length = lines.length) :
    (placed cells own i lines next).map shown = (cells.drop i).map shown := by
  induction lines generalizing i next with
  | nil =>
    rw [List.length_eq_zero_iff.mp hl]
    rfl
  | cons line lines ih =>
    have hi : i < cells.length := by
      rw [List.length_drop, List.length_cons] at hl
      omega
    have hr : (cells.drop (i + 1)).length = lines.length := by
      rw [List.length_drop, List.length_cons] at hl
      rw [List.length_drop]
      omega
    rw [placed, List.map_cons, ih _ _ hr, ho, List.getElem?_eq_getElem hi, Option.getD_some,
      List.drop_eq_getElem_cons hi, List.map_cons]

theorem cellFor_eq (hc : cells ≠ []) (i number : Nat) :
    cellFor cells i number = some ((cells[i]?).getD ⟨number, none, none, none⟩) := by
  have hp : 0 < cells.length := List.length_pos_of_ne_nil hc
  rw [cellFor, lastIndex, if_neg (Nat.ne_of_gt hp)]
  by_cases hi : i < cells.length
  · rw [if_neg (by omega), List.getElem?_eq_getElem hi]
    rfl
  · rw [if_pos (by omega), List.getElem?_eq_none (by omega)]
    rfl

theorem insertCells_eq (i : Nat) (lines : List Nat) (g : NSGridView V) (hc : cells ≠ [] ∨ lines = [])
    {l : List (NSGridCell V)} (h : insertAll place i (placed cells own i lines g.next) g.cells = some l) :
    insertCells cells own place i lines g = .ok { g with cells := l, next := g.next + lines.length } := by
  induction lines generalizing i g with
  | nil =>
    obtain rfl := Option.some.inj h
    rfl
  | cons line lines ih =>
    have hne := hc.resolve_right (List.cons_ne_nil _ _)
    rw [placed, insertAll] at h
    split at h
    · next hp =>
      rw [insertCells, cellFor_eq hne]
      dsimp only
      rw [if_pos hp, ih (i + 1) _ (.inl hne) h, List.length_cons]
      simp [Nat.add_assoc, Nat.add_comm 1]
    · cases h

theorem insertCells_nil {lines : List Nat} (hl : lines ≠ []) (g : NSGridView V) :
    insertCells [] own place 0 lines g = .error g := by
  cases lines with
  | nil => exact absurd rfl hl
  | cons line lines => rfl

end

/-! ## Inserting -/

theorem nodup_insertIdx {l : List Nat} {x : Nat} (h : l.Nodup) (hx : x ∉ l) {i : Nat} (hi : i ≤ l.length) :
    (l.insertIdx i x).Nodup := by
  rw [(List.perm_insertIdx x l hi).nodup_iff]
  exact List.nodup_cons.mpr ⟨hx, h⟩

theorem mem_insertIdx_lt {l : List Nat} {x n i : Nat} (h : ∀ y ∈ l, y < n) (hx : x < n) : ∀ y ∈ l.insertIdx i x, y < n := by
  intro y hy
  rcases List.eq_or_mem_of_mem_insertIdx hy with rfl | hy
  · exact hx
  · exact h y hy

/-- The cells of a new row. -/
def rowCells (g : NSGridView V) (cells : List (NSGridCell V)) : List (NSGridCell V) :=
  placed cells (fun col c => { c with row := some g.next, column := some col }) 0 g.columns (g.next + 1)

/-- The cells of a new column. -/
def columnCells (g : NSGridView V) (cells : List (NSGridCell V)) : List (NSGridCell V) :=
  placed cells (fun row c => { c with row := some row, column := some g.next }) 0 g.rows (g.next + 1)

@[simp] theorem length_columnCells (g : NSGridView V) (cells : List (NSGridCell V)) :
    (g.columnCells cells).length = g.rows.length := length_placed _ _ _

theorem rowCells_shown {cells : List (NSGridCell V)} (h : cells.length = g.columns.length) :
    (g.rowCells cells).map shown = cells.map shown := by
  unfold rowCells
  refine placed_shown ?_ 0 g.columns _ h
  exact fun _ _ => rfl

theorem columnCells_shown {cells : List (NSGridCell V)} (h : cells.length = g.rows.length) :
    (g.columnCells cells).map shown = cells.map shown := by
  unfold columnCells
  refine placed_shown ?_ 0 g.rows _ h
  exact fun _ _ => rfl

theorem insertRowWithCells_ok (h : g.Represents t) {index : Nat} (hi : index ≤ g.rows.length)
    {cells : List (NSGridCell V)} (hc : cells ≠ [] ∨ g.columns = []) :
    ∃ g', g.insertRowWithCells index cells = .ok g' ∧ g'.Represents (t.insertIdx index (g.rowCells cells)) ∧
      g'.rows = g.rows.insertIdx index g.next ∧ g'.columns = g.columns := by
  have hin : insertAll (index * g.columns.length + ·) 0 (g.rowCells cells) g.cells =
      some (t.insertIdx index (g.rowCells cells)).flatten := by
    rw [h.cells]
    exact insertAll_newRow h.rectangular (h.length_eq ▸ hi) _
  have hl := insertCells_eq 0 g.columns { g with rows := g.rows.insertIdx index g.next, next := g.next + 1 } hc
    hin
  have hf : g.next ∉ g.rows := fun hm => absurd (h.rows_lt _ hm) (Nat.lt_irrefl _)
  have ho : (g.rowCells cells).map owners = g.columns.map fun col => (some g.next, some col) :=
    placed_owners (f := fun col => (some g.next, some col)) (fun _ _ => rfl) _ _ _
  have hn : g.next < g.next + 1 + g.columns.length := by omega
  have hr : Represents
      { g with
        rows := g.rows.insertIdx index g.next
        cells := (t.insertIdx index (g.rowCells cells)).flatten
        next := g.next + 1 + g.columns.length }
      (t.insertIdx index (g.rowCells cells)) := by
    refine ⟨rfl, ?_, nodup_insertIdx h.rows_nodup hf hi, h.columns_nodup, ?_, fun column hm => ?_⟩
    · rw [List.map_insertIdx, h.owners, ho, ownerTable, ownerTable, List.map_insertIdx]
    · exact mem_insertIdx_lt (fun row hm => Nat.lt_trans (h.rows_lt row hm) hn) hn
    · exact Nat.lt_trans (h.columns_lt column hm) hn
  refine ⟨_, ?_, hr, rfl, rfl⟩
  rw [insertRowWithCells, if_pos hi]
  exact (congrArg (·.bind refreshCells) hl).trans (refreshCells_ok hr.length_cells)

theorem insertColumnWithCells_ok (h : g.Represents t) {index : Nat} (hi : index ≤ g.columns.length)
    {cells : List (NSGridCell V)} (hc : cells ≠ [] ∨ g.rows = []) : ∃ g', g.insertColumnWithCells index cells = .ok g' ∧
      g'.Represents (Tables.insertColumn index t (g.columnCells cells)) ∧
      g'.columns = g.columns.insertIdx index g.next ∧ g'.rows = g.rows := by
  have hl : (g.columns.insertIdx index g.next).length = g.columns.length + 1 := List.length_insertIdx_of_le_length hi _
  have hin : insertAll (fun i => index + i * (g.columns.insertIdx index g.next).length) 0 (g.columnCells cells)
      g.cells = some (Tables.insertColumn index t (g.columnCells cells)).flatten := by
    rw [h.cells, hl]
    exact insertAll_newColumn hi h.rectangular _ ((length_placed _ _ _).trans h.length_eq.symm)
  have hlp := insertCells_eq 0 g.rows { g with columns := g.columns.insertIdx index g.next, next := g.next + 1 }
    hc hin
  have hf : g.next ∉ g.columns := fun hm => absurd (h.columns_lt _ hm) (Nat.lt_irrefl _)
  have ho : (g.columnCells cells).map owners = g.rows.map fun row => (some row, some g.next) :=
    placed_owners (f := fun row => (some row, some g.next)) (fun _ _ => rfl) _ _ _
  have hn : g.next < g.next + 1 + g.rows.length := by omega
  have hr : Represents
      { g with
        columns := g.columns.insertIdx index g.next
        cells := (Tables.insertColumn index t (g.columnCells cells)).flatten
        next := g.next + 1 + g.rows.length }
      (Tables.insertColumn index t (g.columnCells cells)) := by
    refine ⟨rfl, ?_, h.rows_nodup, nodup_insertIdx h.columns_nodup hf hi, fun row hm => ?_, ?_⟩
    · rw [map_insertColumn, h.owners, ho, Tables.insertColumn, ownerTable, ownerTable, List.zipWith_map,
        List.zipWith_self]
      exact List.map_congr_left fun row _ => (List.map_insertIdx _ _ _ _).symm
    · exact Nat.lt_trans (h.rows_lt row hm) hn
    · exact mem_insertIdx_lt (fun column hm => Nat.lt_trans (h.columns_lt column hm) hn) hn
  refine ⟨_, ?_, hr, rfl, rfl⟩
  rw [insertColumnWithCells, if_pos hi]
  exact (congrArg (·.bind refreshCells) hlp).trans (refreshCells_ok hr.length_cells)

/-! ## Removing -/

variable [DecidableEq V]

omit [DecidableEq V] in
theorem nodup_index {l : List Nat} (h : l.Nodup) {i j x : Nat} (hi : l[i]? = some x) (hj : l[j]? = some x) : i = j :=
  (List.getElem?_inj (List.getElem?_eq_some_iff.mp hi).1 h).mp (hi.trans hj.symm)

theorem removeObjects_filter (cells : List (NSGridCell V)) (p : NSGridCell V → Bool) :
    removeObjects cells (cells.filter p) = cells.filter fun c => !p c := by
  refine List.filter_congr fun c hc => ?_
  have hm : c ∈ cells.filter p ↔ p c = true := by rw [List.mem_filter, and_iff_right hc]
  cases hp : p c with
  | true => exact decide_eq_false (not_not_intro (hm.mpr hp))
  | false => exact decide_eq_true (mt hm.mp (ne_true_of_eq_false hp))

omit [DecidableEq V] in
/-- The cells of a row are those of the row of the table. -/
theorem cellsForRow_eq (h : g.Represents t) {index row : Nat} (hr : g.rows[index]? = some row) :
    g.cells.filter (fun c => !decide (c.row = some row)) = (t.eraseIdx index).flatten ∧
      g.cellsForRow row = (t[index]?).getD [] := by
  rw [cellsForRow, h.cells]
  refine filter_row fun r cells hcel x hx => ?_
  obtain ⟨c, hc⟩ := List.getElem?_of_mem hx
  obtain ⟨a, b, ha, -, ho⟩ := h.owner hcel hc
  have hxr : x.row = some a := congrArg Prod.fst ho
  rw [decide_eq_true_iff, hxr, Option.some_inj]
  exact ⟨fun heq => nodup_index h.rows_nodup (heq ▸ ha) hr,
    fun heq => Option.some.inj (ha.symm.trans ((congrArg (g.rows[·]?) heq).trans hr))⟩

omit [DecidableEq V] in
theorem cellsForColumn_eq (h : g.Represents t) {index column : Nat} (hc : g.columns[index]? = some column) :
    g.cells.filter (fun c => !decide (c.column = some column)) = (t.map (·.eraseIdx index)).flatten ∧
      g.cellsForColumn column = t.filterMap (·[index]?) := by
  rw [cellsForColumn, h.cells]
  refine filter_column fun cells hcel c x hx => ?_
  obtain ⟨r, hr⟩ := List.getElem?_of_mem hcel
  obtain ⟨a, b, -, hb, ho⟩ := h.owner hr hx
  have hxc : x.column = some b := congrArg Prod.snd ho
  rw [decide_eq_true_iff, hxc, Option.some_inj]
  exact ⟨fun heq => nodup_index h.columns_nodup (heq ▸ hb) hc,
    fun heq => Option.some.inj (hb.symm.trans ((congrArg (g.columns[·]?) heq).trans hc))⟩

theorem removeRow_ok (h : g.Represents t) {index row : Nat} (hr : g.rows[index]? = some row) :
    ∃ g', g.removeRow index = .ok g' ∧ g'.Represents (t.eraseIdx index) ∧ g'.rows = g.rows.eraseIdx index ∧
      g'.columns = g.columns := by
  have hrep : Represents { g with rows := g.rows.eraseIdx index, cells := (t.eraseIdx index).flatten }
      (t.eraseIdx index) := by
    refine ⟨rfl, ?_, h.rows_nodup.eraseIdx index, h.columns_nodup,
      fun row hm => h.rows_lt row (List.mem_of_mem_eraseIdx hm), h.columns_lt⟩
    rw [← List.eraseIdx_map, h.owners, ownerTable, ownerTable, List.eraseIdx_map]
  refine ⟨_, ?_, hrep, rfl, rfl⟩
  rw [removeRow, hr]
  dsimp only
  rw [cellsForRow, removeObjects_filter, (cellsForRow_eq h hr).1]
  exact refreshCells_ok hrep.length_cells

theorem removeColumn_ok (h : g.Represents t) {index column : Nat} (hc : g.columns[index]? = some column) :
    ∃ g', g.removeColumn index = .ok g' ∧ g'.Represents (t.map (·.eraseIdx index)) ∧ g'.rows = g.rows ∧
      g'.columns = g.columns.eraseIdx index := by
  have hr : Represents
      { g with columns := g.columns.eraseIdx index, cells := (t.map (·.eraseIdx index)).flatten }
      (t.map (·.eraseIdx index)) := by
    refine ⟨rfl, ?_, h.rows_nodup, h.columns_nodup.eraseIdx index, h.rows_lt,
      fun column hm => h.columns_lt column (List.mem_of_mem_eraseIdx hm)⟩
    have ho := congrArg (List.map (·.eraseIdx index)) h.owners
    rw [ownerTable, List.map_map, List.map_map] at ho
    rw [ownerTable, List.map_map]
    simpa [Function.comp_def, List.eraseIdx_map] using ho
  refine ⟨_, ?_, hr, rfl, rfl⟩
  rw [removeColumn, hc]
  dsimp only
  rw [cellsForColumn, removeObjects_filter, (cellsForColumn_eq h hc).1]
  exact refreshCells_ok hr.length_cells

end NSGridView

end GnustepGui.GridView
