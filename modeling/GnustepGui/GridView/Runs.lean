import GnustepGui.GridView.Edits

/-!
# Grids over their whole life

A grid is made of arrays of views and then edited any number of times at valid indexes. It is in shape throughout, no
edit raises and every edit keeps the other cells exactly when the arrays it is made of are all of one length and every
insertion brings a view for the cells of the new line.
-/

namespace GnustepGui.GridView

open Tables NSGridCell

variable {V : Type}

namespace NSGridView

/-- The array is full, and each cell is where its row and its column are. -/
structure InShape (g : NSGridView V) : Prop where
  count : g.cells.length = g.numberOfRows * g.numberOfColumns
  owners : ∀ r c row column, g.rows[r]? = some row → g.columns[c]? = some column →
    ∃ cell, g.cells[r * g.numberOfColumns + c]? = some cell ∧ cell.row = some row ∧ cell.column = some column

variable {g g' : NSGridView V} {t : List (List (NSGridCell V))}

theorem Represents.inShape (h : g.Represents t) : g.InShape := by
  refine ⟨h.length_cells, fun r c row column hrow hcol => ?_⟩
  have hr : r < t.length := h.length_eq ▸ (List.getElem?_eq_some_iff.mp hrow).1
  have hc := (List.getElem?_eq_some_iff.mp hcol).1
  have hcel : t[r]? = some t[r] := List.getElem?_eq_getElem hr
  have hl := h.rectangular _ (List.mem_of_getElem? hcel)
  have hcl := List.getElem?_eq_getElem (hl ▸ hc)
  obtain ⟨a, b, ha, hb, ho⟩ := h.owner hcel hcl
  have he := h.cellAt r hc
  rw [hcel, Option.bind_some, hcl, cellAtColumnIndex] at he
  rw [hrow] at ha
  rw [hcol] at hb
  cases ha
  cases hb
  exact ⟨_, he, congrArg Prod.fst ho, congrArg Prod.snd ho⟩

/-! ## Creation -/

/-- The first row, as far as it has been read. -/
structure FirstRow (g : NSGridView V) (gr : Nat) : Prop where
  rows : g.rows = [gr]
  owners : g.cells.map owners = g.columns.map fun column => (some gr, some column)
  columns_nodup : g.columns.Nodup
  gr_lt : gr < g.next
  columns_lt : ∀ column ∈ g.columns, column < g.next

theorem FirstRow.represents {gr : Nat} (h : g.FirstRow gr) : g.Represents [g.cells] where
  cells := by simp
  owners := by rw [List.map_singleton, h.owners, h.rows]; rfl
  rows_nodup := by rw [h.rows]; exact List.nodup_singleton gr
  columns_nodup := h.columns_nodup
  rows_lt := fun row hr => by
    rw [h.rows, List.mem_singleton] at hr
    exact hr ▸ h.gr_lt
  columns_lt := h.columns_lt

theorem addCells_first {gr : Nat} (row : List V) (c : Nat) (g : NSGridView V) (h : g.FirstRow gr) :
    ∃ g', addCells true gr c row g = .ok g' ∧ g'.FirstRow gr ∧ g'.columns.length = g.columns.length + row.length := by
  induction row generalizing c g with
  | nil => exact ⟨g, rfl, h, rfl⟩
  | cons v row ih =>
    have hf : g.next ∉ g.columns := fun hm => absurd (h.columns_lt _ hm) (Nat.lt_irrefl _)
    have hs : FirstRow
        { g with
          columns := g.columns ++ [g.next]
          cells := g.cells ++ [⟨g.next + 1, some gr, some g.next, some v⟩]
          next := g.next + 2 } gr := by
      refine ⟨h.rows, ?_, ?_, Nat.lt_add_right 2 h.gr_lt, fun column hc => ?_⟩
      · rw [List.map_append, List.map_append, h.owners]
        rfl
      · rw [List.nodup_append]
        refine ⟨h.columns_nodup, List.nodup_singleton _, fun a ha b hb => ?_⟩
        rw [List.mem_singleton.mp hb]
        exact fun heq => hf (heq ▸ ha)
      · rcases List.mem_append.mp hc with hm | hm
        · exact Nat.lt_add_right 2 (h.columns_lt column hm)
        · rw [List.mem_singleton.mp hm]
          exact Nat.lt_add_of_pos_right (by decide)
    obtain ⟨g', hok, hfst, hl⟩ := ih (c + 1) _ hs
    refine ⟨g', hok, hfst, ?_⟩
    rw [hl]
    simp only [List.length_append, List.length_cons, List.length_nil]
    omega

/-- A row that is not longer than the first adds its cells. -/
theorem addCells_rest {gr : Nat} (row : List V) (c : Nat) (g : NSGridView V) (hle : c + row.length ≤ g.columns.length) :
    ∃ cells, addCells false gr c row g = .ok { g with cells := g.cells ++ cells, next := g.next + row.length } ∧
      cells.map owners = ((g.columns.drop c).take row.length).map fun column => (some gr, some column) := by
  induction row generalizing c g with
  | nil => exact ⟨[], by simp [addCells], by simp⟩
  | cons v row ih =>
    rw [List.length_cons] at hle
    have hc : c < g.columns.length := by omega
    obtain ⟨cells, hok, ho⟩ := ih (c + 1)
      { g with cells := g.cells ++ [⟨g.next, some gr, some g.columns[c], some v⟩], next := g.next + 1 } (by
        show _ ≤ g.columns.length
        omega)
    refine ⟨⟨g.next, some gr, some g.columns[c], some v⟩ :: cells, ?_, ?_⟩
    · rw [addCells, addCell, if_neg Bool.false_ne_true, List.getElem?_eq_getElem hc]
      refine (show _ = _ from hok).trans ?_
      simp [Nat.add_assoc, Nat.add_comm 1]
    · rw [List.map_cons, ho, List.drop_eq_getElem_cons hc, List.length_cons, List.take_succ_cons, List.map_cons]
      rfl

theorem addCells_raises {gr : Nat} (row : List V) (c : Nat) (g : NSGridView V) (hc : c ≤ g.columns.length)
    (hlt : g.columns.length < c + row.length) (g' : NSGridView V) : addCells false gr c row g ≠ .ok g' := by
  induction row generalizing c g with
  | nil => exact absurd hlt (Nat.not_lt.mpr hc)
  | cons v row ih =>
    intro hok
    rw [addCells, addCell, if_neg Bool.false_ne_true] at hok
    by_cases hin : c < g.columns.length
    · rw [List.getElem?_eq_getElem hin] at hok
      refine ih (c + 1) _ ?_ ?_ hok
      · exact hin
      · show g.columns.length < _
        rw [List.length_cons] at hlt
        omega
    · rw [List.getElem?_eq_none (Nat.le_of_not_lt hin)] at hok
      cases hok

theorem addRows_rest (views : List (List V)) (r : Nat) (g : NSGridView V) (t : List (List (NSGridCell V)))
    (h : g.Represents t) (hv : ∀ row ∈ views, row.length = g.columns.length) :
    ∃ g', addRows (r + 1) views g = .ok g' ∧ (∃ t', g'.Represents t') ∧
      g'.rows.length = g.rows.length + views.length ∧ g'.columns = g.columns := by
  induction views generalizing r g t with
  | nil => exact ⟨g, rfl, ⟨t, h⟩, rfl, rfl⟩
  | cons row views ih =>
    obtain ⟨hrow, hv⟩ := List.forall_mem_cons.mp hv
    obtain ⟨cells, hok, ho⟩ := addCells_rest row 0
      { g with rows := g.rows ++ [g.next], next := g.next + 1 } (Nat.zero_add _ ▸ Nat.le_of_eq hrow)
    rw [List.drop_zero, hrow, List.take_length] at ho
    have hf : g.next ∉ g.rows := fun hm => absurd (h.rows_lt _ hm) (Nat.lt_irrefl _)
    have hn : g.next < g.next + 1 + row.length := by omega
    have hr : Represents
        { g with rows := g.rows ++ [g.next], cells := g.cells ++ cells, next := g.next + 1 + row.length }
        (t ++ [cells]) := by
      refine ⟨?_, ?_, ?_, h.columns_nodup, fun row hm => ?_, fun column hm => ?_⟩
      · rw [List.flatten_append, ← h.cells, List.flatten_singleton]
      · rw [List.map_append, h.owners, List.map_singleton, ho, ownerTable, ownerTable, List.map_append]
        rfl
      · rw [List.nodup_append]
        refine ⟨h.rows_nodup, List.nodup_singleton _, fun a ha b hb => ?_⟩
        rw [List.mem_singleton.mp hb]
        exact fun heq => hf (heq ▸ ha)
      · rcases List.mem_append.mp hm with hm | hm
        · exact Nat.lt_trans (h.rows_lt row hm) hn
        · rw [List.mem_singleton.mp hm]
          exact hn
      · exact Nat.lt_trans (h.columns_lt column hm) hn
    obtain ⟨g', hrs, hr', hrw, hc⟩ := ih (r + 1) _ _ hr hv
    refine ⟨g', ?_, hr', ?_, hc⟩
    · rw [addRows, decide_eq_false (Nat.succ_ne_zero r), hok]
      exact hrs
    · rw [hrw]
      simp only [List.length_append, List.length_cons, List.length_nil]
      omega

theorem addRows_count (views : List (List V)) (r : Nat) (g : NSGridView V) (hok : addRows (r + 1) views g = .ok g') :
    g'.columns = g.columns ∧ g'.rows.length = g.rows.length + views.length ∧
      g'.cells.length = g.cells.length + (views.map List.length).sum ∧
      ∀ row ∈ views, row.length ≤ g.columns.length := by
  induction views generalizing r g with
  | nil =>
    obtain rfl := Except.ok.inj hok
    exact ⟨rfl, rfl, rfl, nofun⟩
  | cons row views ih =>
    rw [addRows, decide_eq_false (Nat.succ_ne_zero r)] at hok
    by_cases hle : row.length ≤ g.columns.length
    · obtain ⟨cells, hr, ho⟩ := addCells_rest row 0
        { g with rows := g.rows ++ [g.next], next := g.next + 1 } (by rw [Nat.zero_add]; exact hle)
      rw [hr] at hok
      obtain ⟨hcl, hrw, hc, hv⟩ := ih (r + 1) _ hok
      have hl : cells.length = row.length := by
        have hln := congrArg List.length ho
        rw [List.drop_zero, List.length_map, List.length_map, List.length_take, Nat.min_eq_left hle] at hln
        exact hln
      refine ⟨hcl, ?_, ?_, List.forall_mem_cons.mpr ⟨hle, hv⟩⟩
      · rw [hrw]
        simp only [List.length_append, List.length_cons, List.length_nil]
        omega
      · rw [hc]
        simp only [List.length_append, List.map_cons, List.sum_cons, hl]
        omega
    · cases hr : addCells false g.next 0 row { g with rows := g.rows ++ [g.next], next := g.next + 1 } with
      | error e =>
        rw [hr] at hok
        cases hok
      | ok g1 =>
        refine absurd hr (addCells_raises row 0 _ (Nat.zero_le _) ?_ g1)
        rw [Nat.zero_add]
        exact Nat.lt_of_not_le hle

theorem sum_le {n : Nat} {ls : List Nat} (hle : ∀ l ∈ ls, l ≤ n) : ls.sum ≤ ls.length * n := by
  induction ls with
  | nil => exact Nat.zero_le _
  | cons l ls ih =>
    obtain ⟨hl, hle⟩ := List.forall_mem_cons.mp hle
    have hr := ih hle
    rw [List.sum_cons, List.length_cons, Nat.succ_mul]
    omega

theorem eq_of_sum_eq {n : Nat} {ls : List Nat} (hle : ∀ l ∈ ls, l ≤ n) (hs : ls.sum = ls.length * n) :
    ∀ l ∈ ls, l = n := by
  induction ls with
  | nil => exact nofun
  | cons l ls ih =>
    obtain ⟨hl, hle⟩ := List.forall_mem_cons.mp hle
    have hr := sum_le hle
    rw [List.sum_cons, List.length_cons, Nat.succ_mul] at hs
    exact List.forall_mem_cons.mpr ⟨by omega, ih hle (by omega)⟩

/-- The length of the first array. -/
def columnCount (views : List (List V)) : Nat := (views.head?.getD []).length

theorem firstRow_start (gr : Nat) : FirstRow { (initWithFrame : NSGridView V) with rows := [gr], next := gr + 1 } gr :=
  ⟨rfl, rfl, List.nodup_nil, Nat.lt_succ_self gr, nofun⟩

/-- Arrays of one length make a grid in shape. -/
theorem initWithViews_ok {views : List (List V)} (hv : ∀ row ∈ views, row.length = columnCount views) :
    ∃ g, initWithViews views = .ok g ∧ (∃ t, g.Represents t) ∧ g.numberOfRows = views.length ∧
      g.numberOfColumns = columnCount views := by
  cases views with
  | nil => exact ⟨initWithFrame, rfl, ⟨[], rfl, rfl, List.nodup_nil, List.nodup_nil, nofun, nofun⟩, rfl, rfl⟩
  | cons row views =>
    obtain ⟨g1, hf, hr, hl⟩ := addCells_first row 0 _ (firstRow_start 0)
    have hc : g1.columns.length = row.length := hl.trans (Nat.zero_add _)
    obtain ⟨g, hrs, ⟨t, hrep⟩, hrw, hs⟩ := addRows_rest views 0 g1 _ hr.represents fun row' hr' =>
      (hv row' (List.mem_cons_of_mem _ hr')).trans hc.symm
    refine ⟨g, ?_, ⟨t, hrep⟩, ?_, ?_⟩
    · have ha : addRows 0 (row :: views) initWithFrame = .ok g := (congrArg (·.bind (addRows 1 views)) hf).trans hrs
      rw [initWithViews, ha]
      exact refreshCells_ok hrep.length_cells
    · rw [numberOfRows, hrw, hr.rows, List.length_cons, Nat.add_comm]
      rfl
    · rw [numberOfColumns, hs]
      exact hc

theorem refreshCells_eq (h : g.refreshCells = .ok g') : g' = g := by
  unfold refreshCells at h
  split at h
  · exact (Except.ok.inj h).symm
  · cases h

theorem length_eq_of_inShape {views : List (List V)} (hok : initWithViews views = .ok g) (h : g.InShape) :
    ∀ row ∈ views, row.length = columnCount views := by
  cases views with
  | nil => exact nofun
  | cons row views =>
    obtain ⟨g1, hf, hr, hl⟩ := addCells_first row 0 _ (firstRow_start 0)
    have hcl : g1.columns.length = row.length := hl.trans (Nat.zero_add _)
    have hc1 : g1.cells.length = g1.columns.length := by
      have hln := congrArg List.length hr.owners
      rwa [List.length_map, List.length_map] at hln
    rw [initWithViews] at hok
    have hadd : addRows 0 (row :: views) initWithFrame = addRows 1 views g1 := congrArg (·.bind (addRows 1 views)) hf
    rw [hadd] at hok
    cases hrs : addRows 1 views g1 with
    | error e =>
      rw [hrs] at hok
      cases hok
    | ok g2 =>
      rw [hrs] at hok
      obtain rfl := refreshCells_eq hok
      obtain ⟨hs, hrw, hc, hle⟩ := addRows_count views 0 g1 hrs
      have hcnt := h.count
      rw [numberOfRows, numberOfColumns, hs, hrw, hc, hc1, hr.rows, List.length_singleton, Nat.add_mul,
        Nat.one_mul, Nat.add_right_inj] at hcnt
      have hln : ∀ l ∈ views.map List.length, l ≤ g1.columns.length := List.forall_mem_map.mpr hle
      have ha := eq_of_sum_eq hln (by rw [List.length_map]; exact hcnt)
      rw [List.forall_mem_map, hcl] at ha
      exact List.forall_mem_cons.mpr ⟨rfl, ha⟩

/-! ## Runs -/

variable [DecidableEq V]

/-- The grid is in shape, and so it stays whatever the edits, none of which raises. -/
def StaysInShape (g : NSGridView V) : List (GridEdit V) → Prop
  | [] => g.InShape
  | edit :: edits => g.InShape ∧ ∃ g', g.perform edit = .ok g' ∧ g.Keeps g' edit ∧ g'.StaysInShape edits

/-- All indexes are valid when their turn comes. -/
def ValidRun (rows columns : Nat) : List (GridEdit V) → Prop
  | [] => True
  | edit :: edits => edit.Valid rows columns ∧
      ValidRun (edit.counts rows columns).1 (edit.counts rows columns).2 edits

/-- All insertions have a view for the cells of the new line. -/
def ViewsGiven (rows columns : Nat) : List (GridEdit V) → Prop
  | [] => True
  | edit :: edits => edit.HasViews rows columns ∧
      ViewsGiven (edit.counts rows columns).1 (edit.counts rows columns).2 edits

/-- From a grid in shape. -/
theorem staysInShape_iff (edits : List (GridEdit V)) (h : ∃ t, g.Represents t)
    (hv : ValidRun g.numberOfRows g.numberOfColumns edits) :
    g.StaysInShape edits ↔ ViewsGiven g.numberOfRows g.numberOfColumns edits := by
  obtain ⟨t, hr⟩ := h
  induction edits generalizing g t with
  | nil => exact iff_of_true hr.inShape trivial
  | cons edit edits ih =>
    obtain ⟨he, hv⟩ := hv
    by_cases hvw : edit.HasViews g.numberOfRows g.numberOfColumns
    · obtain ⟨g', hok, ⟨t', hr'⟩, hc, hk⟩ := perform_edited hr edit he hvw
      have hrw : (edit.counts g.numberOfRows g.numberOfColumns).1 = g'.numberOfRows := (congrArg Prod.fst hc).symm
      have hcl : (edit.counts g.numberOfRows g.numberOfColumns).2 = g'.numberOfColumns := (congrArg Prod.snd hc).symm
      rw [hrw, hcl] at hv
      have hrs := ih hv t' hr'
      rw [ViewsGiven, and_iff_right hvw, hrw, hcl, ← hrs, StaysInShape, and_iff_right hr.inShape]
      constructor
      · rintro ⟨g'', hok', -, hs⟩
        obtain rfl := Except.ok.inj (hok.symm.trans hok')
        exact hs
      · exact fun hs => ⟨g', hok, hk, hs⟩
    · refine iff_of_false ?_ fun h => hvw h.1
      rintro ⟨-, g', hok, -, -⟩
      exact perform_raises edit he hvw g' hok

end NSGridView

open NSGridView

/-- How a grid is made. -/
inductive GridCreation (V : Type)
  | ofViews (views : List (List V))
  | ofCounts (newView : Nat → Nat → V) (columnCount rowCount : Nat)

namespace GridCreation

def perform : GridCreation V → Except (NSGridView V) (NSGridView V)
  | ofViews views => initWithViews views
  | ofCounts newView columnCount rowCount => gridViewWithNumberOfColumns newView columnCount rowCount

/-- The arrays of views that the grid is made of. -/
def arrays : GridCreation V → List (List V)
  | ofViews views => views
  | ofCounts newView columnCount rowCount =>
    (List.range rowCount).map fun r => (List.range columnCount).map (newView r)

theorem perform_eq (creation : GridCreation V) : creation.perform = initWithViews creation.arrays := by
  cases creation <;> rfl

end GridCreation

variable [DecidableEq V]

/-- A grid is made and stays in shape through all its edits when its arrays are of one length and every inserted line
with cells has a view, and only then. -/
theorem grid_staysInShape_iff (creation : GridCreation V) (edits : List (GridEdit V))
    (hvalid : ValidRun creation.arrays.length (columnCount creation.arrays) edits) :
    (∃ g, creation.perform = .ok g ∧ g.StaysInShape edits) ↔
      (∀ row ∈ creation.arrays, row.length = columnCount creation.arrays) ∧
        ViewsGiven creation.arrays.length (columnCount creation.arrays) edits := by
  rw [creation.perform_eq]
  constructor
  · rintro ⟨g, hok, hs⟩
    have hsh : g.InShape := by
      cases edits with
      | nil => exact hs
      | cons edit edits => exact hs.1
    have hl := length_eq_of_inShape hok hsh
    obtain ⟨g', hok', hr, hrw, hc⟩ := initWithViews_ok hl
    obtain rfl := Except.ok.inj (hok.symm.trans hok')
    rw [← hrw, ← hc] at hvalid ⊢
    exact ⟨fun row hrow => (hl row hrow).trans hc.symm, (staysInShape_iff edits hr hvalid).mp hs⟩
  · rintro ⟨hl, hg⟩
    obtain ⟨g, hok, hr, hrw, hc⟩ := initWithViews_ok hl
    rw [← hrw, ← hc] at hvalid hg
    exact ⟨g, hok, (staysInShape_iff edits hr hvalid).mpr hg⟩

/-- A grid of two rows and two columns has its first row moved, a column inserted with one view and its last row
removed. -/
theorem grid_staysInShape_iff_square :
    (∃ g, (GridCreation.ofViews [[1, 2], [3, 4]]).perform = .ok g ∧
      g.StaysInShape [.moveRow 0 1, .insertColumn 2 [5], .removeRow 1]) ↔
      (∀ row ∈ [[1, 2], [3, 4]], row.length = 2) ∧
        ViewsGiven 2 2 [.moveRow 0 1, .insertColumn 2 [5], (.removeRow 1 : GridEdit Nat)] :=
  have hv : ValidRun 2 2 [.moveRow 0 1, .insertColumn 2 [5], (.removeRow 1 : GridEdit Nat)] :=
    ⟨⟨by decide, by decide⟩, Nat.le_refl 2, Nat.lt_succ_self 1, trivial⟩
  grid_staysInShape_iff (.ofViews [[1, 2], [3, 4]]) _ hv

/-- A second row that is shorter is not filled up, and a row without views raises. -/
theorem ragged_and_empty_rows :
    (¬ ∃ g, (GridCreation.ofViews [[1, 2], [3]]).perform = .ok g ∧ g.StaysInShape []) ∧
      ValidRun 1 2 [(.insertRow 1 [] : GridEdit Nat)] ∧
      ¬ ∃ g, (GridCreation.ofViews [[1, 2]]).perform = .ok g ∧ g.StaysInShape [.insertRow 1 []] := by
  refine ⟨?_, ⟨Nat.le_refl 1, trivial⟩, ?_⟩
  · rintro ⟨g, hok, hs⟩
    have hm : (GridCreation.ofViews [[1, 2], [3]]).perform = .ok
        ⟨[0, 5], [1, 3], [⟨2, some 0, some 1, some 1⟩, ⟨4, some 0, some 3, some 2⟩, ⟨6, some 5, some 1, some 3⟩],
          false, 7⟩ := rfl
    obtain rfl := Except.ok.inj (hm.symm.trans hok)
    exact absurd hs.count (by decide)
  · rintro ⟨g, hok, -, g', hin, -⟩
    have hm : (GridCreation.ofViews [[1, 2]]).perform = .ok
        ⟨[0], [1, 3], [⟨2, some 0, some 1, some 1⟩, ⟨4, some 0, some 3, some 2⟩], false, 5⟩ := rfl
    obtain rfl := Except.ok.inj (hm.symm.trans hok)
    cases hin

end GnustepGui.GridView
