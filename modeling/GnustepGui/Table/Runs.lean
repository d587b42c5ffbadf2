import GnustepGui.Table.Geometry

/-!
# Tables over their whole life

A table is edited any number of times, resized to any size. The geometry of its columns and rows is as it has to be in
every state that is reached, exactly when every edit suits the state that it is made in.
-/

namespace GnustepGui.Table

/-- A view that has been put in a row and a column; its size is that with its margins. -/
structure Put where
  row : Nat
  column : Nat
  width : ℚ
  height : ℚ

def Put.inColumn (p : Put) : Nat × ℚ := (p.column, p.width)

def Put.inRow (p : Put) : Nat × ℚ := (p.row, p.height)

inductive TableEdit
  | addRow
  | addColumn
  | putView (width height : ℚ) (row column : Int) (minXMargin maxXMargin minYMargin maxYMargin : ℚ)
  | setXResizingEnabled (flag : Bool) (column : Int)
  | setYResizingEnabled (flag : Bool) (row : Int)
  | setMinXBorder (border : ℚ)
  | setMaxXBorder (border : ℚ)
  | setMinYBorder (border : ℚ)
  | setMaxYBorder (border : ℚ)
  | setFrameSize (width height : ℚ)
  | sizeToFit

namespace GSTable

def perform (t : GSTable) : TableEdit → GSTable
  | .addRow => { t with rows := t.rows.addLine }
  | .addColumn => { t with columns := t.columns.addLine }
  | .putView width height row column minX maxX minY maxY => t.putView width height row column minX maxX minY maxY
  | .setXResizingEnabled flag column => { t with columns := t.columns.setResizingEnabled flag column }
  | .setYResizingEnabled flag row => { t with rows := t.rows.setResizingEnabled flag row }
  | .setMinXBorder border => { t with columns := t.columns.setMinBorder border }
  | .setMaxXBorder border => { t with columns := t.columns.setMaxBorder border }
  | .setMinYBorder border => { t with rows := t.rows.setMinBorder border }
  | .setMaxYBorder border => { t with rows := t.rows.setMaxBorder border }
  | .setFrameSize width height => ⟨t.rows.setFrameSize height, t.columns.setFrameSize width⟩
  | .sizeToFit => ⟨t.rows.sizeToFit, t.columns.sizeToFit⟩

/-- What has been put in the table after an edit. -/
def record (t : GSTable) (puts : List Put) : TableEdit → List Put
  | .putView width height row column minX maxX minY maxY =>
    match lineAt t.rows row, lineAt t.columns column with
    | some r, some c => puts ++ [⟨r, c, width + (minX + maxX), height + (minY + maxY)⟩]
    | _, _ => puts
  | _ => puts

/-- A view fills its column and its row, unless they are at their minimum, and a resize takes from no line more than it
has beyond its minimum. -/
def Suits (t : GSTable) : TableEdit → Prop
  | .putView width height row column minX maxX minY maxY =>
    match lineAt t.rows row, lineAt t.columns column with
    | some r, some c => t.columns.Filled c (width + (minX + maxX)) ∧ t.rows.Filled r (height + (minY + maxY))
    | _, _ => True
  | .setFrameSize width height => t.columns.Affords width ∧ t.rows.Affords height
  | _ => True

/-- Both axes are laid out for what has been put in the table. -/
structure Geometry (t : GSTable) (puts : List Put) : Prop where
  columns : Laid t.columns (puts.map Put.inColumn)
  rows : Laid t.rows (puts.map Put.inRow)

structure Holds (t : GSTable) (puts : List Put) : Prop where
  columns : Fits t.columns (puts.map Put.inColumn)
  rows : Fits t.rows (puts.map Put.inRow)

variable {t : GSTable} {puts : List Put}

theorem lineAt_lt {a : Axis} {i : Int} {n : Nat} (h : lineAt a i = some n) : n < a.lines.length := by
  unfold lineAt at h
  split at h
  · cases h
  · next hin =>
    obtain rfl := Option.some.inj h
    push Not at hin
    omega

end GSTable

/-! ## The lines of an edited axis -/

open Axis

variable {a a' : Axis} {puts : List (Nat × ℚ)}

theorem Fits.of_le (h : Fits a puts) (hle : a.lines.length ≤ a'.lines.length) : Fits a' puts :=
  ⟨List.ne_nil_of_length_pos (Nat.lt_of_lt_of_le (List.length_pos_of_ne_nil h.nonempty) hle),
    fun p hp => Nat.lt_of_lt_of_le (h.puts_lt p hp) hle⟩

theorem length_of_minDimensions {lines lines' : List Line}
    (h : lines'.map Line.minDimension = lines.map Line.minDimension) : lines'.length = lines.length := by
  have hl := congrArg List.length h
  rwa [List.length_map, List.length_map] at hl

theorem Axis.length_setFrameSize (size : ℚ) : (a.setFrameSize size).lines.length = a.lines.length := by
  unfold setFrameSize
  split
  · split
    · exact length_of_minDimensions (map_minDimension_fitLines _ _)
    · rfl
  · generalize (if a.frame < a.minimum then a.minimum else a.frame) = oldSize
    dsimp only
    split
    · exact length_of_minDimensions (map_minDimension_expandLines _ _ _)
    · rfl

theorem Axis.length_put {i : Nat} (hi : i < a.lines.length) (extent : ℚ) :
    (a.put i extent).lines.length = a.lines.length := by
  rw [put, List.getElem?_eq_getElem hi]
  dsimp only
  split
  · rw [List.length_append, List.length_cons, List.length_map, List.length_take, List.length_drop]
    omega
  · exact List.length_set

theorem Axis.put_fits (h : Fits a puts) {i : Nat} (hi : i < a.lines.length) (extent : ℚ) :
    Fits (a.put i extent) (puts ++ [(i, extent)]) := by
  have hl := length_put hi extent
  obtain ⟨hn, hlt⟩ := h.of_le (Nat.le_of_eq hl.symm)
  refine ⟨hn, fun p hp => ?_⟩
  rcases List.mem_append.mp hp with hp | hp
  · exact hlt p hp
  · rw [List.mem_singleton.mp hp, hl]
    exact hi

/-! ## One edit -/

namespace GSTable

variable {t : GSTable} {puts : List Put}

theorem perform_holds (h : Holds t puts) (edit : TableEdit) : Holds (t.perform edit) (t.record puts edit) := by
  cases edit with
  | addRow => exact ⟨h.columns, h.rows.of_le (by simp [perform, addLine])⟩
  | addColumn => exact ⟨h.columns.of_le (by simp [perform, addLine]), h.rows⟩
  | putView width height row column minX maxX minY maxY =>
    rw [perform, putView, record]
    cases hr : lineAt t.rows row with
    | none => exact h
    | some r =>
      cases hc : lineAt t.columns column with
      | none => exact h
      | some c =>
        refine ⟨?_, ?_⟩
        · rw [List.map_append]
          exact put_fits h.columns (lineAt_lt hc) _
        · rw [List.map_append]
          exact put_fits h.rows (lineAt_lt hr) _
  | setXResizingEnabled flag column =>
    exact ⟨h.columns.of_le (Nat.le_of_eq (length_setResizingEnabled flag column).symm), h.rows⟩
  | setYResizingEnabled flag row =>
    exact ⟨h.columns, h.rows.of_le (Nat.le_of_eq (length_setResizingEnabled flag row).symm)⟩
  | setMinXBorder border => exact ⟨h.columns.of_le (Nat.le_of_eq (List.length_map _).symm), h.rows⟩
  | setMaxXBorder border => exact ⟨h.columns.of_le le_rfl, h.rows⟩
  | setMinYBorder border => exact ⟨h.columns, h.rows.of_le (Nat.le_of_eq (List.length_map _).symm)⟩
  | setMaxYBorder border => exact ⟨h.columns, h.rows.of_le le_rfl⟩
  | setFrameSize width height =>
    exact ⟨h.columns.of_le (Nat.le_of_eq (length_setFrameSize width).symm),
      h.rows.of_le (Nat.le_of_eq (length_setFrameSize height).symm)⟩
  | sizeToFit =>
    exact ⟨h.columns.of_le (Nat.le_of_eq (length_of_minDimensions (map_minDimension_fitLines _ _)).symm),
      h.rows.of_le (Nat.le_of_eq (length_of_minDimensions (map_minDimension_fitLines _ _)).symm)⟩

theorem geometry_iff : Geometry t puts ↔ Laid t.columns (puts.map Put.inColumn) ∧ Laid t.rows (puts.map Put.inRow) :=
  ⟨fun h => ⟨h.columns, h.rows⟩, fun h => ⟨h.1, h.2⟩⟩

/-- An edit keeps the geometry if and only if it suits the table. -/
theorem perform_geometry_iff (h : Geometry t puts) (hh : Holds t puts) (edit : TableEdit) :
    Geometry (t.perform edit) (t.record puts edit) ↔ t.Suits edit := by
  cases edit with
  | addRow => exact iff_of_true ⟨h.columns, addLine_laid h.rows hh.rows⟩ trivial
  | addColumn => exact iff_of_true ⟨addLine_laid h.columns hh.columns, h.rows⟩ trivial
  | putView width height row column minX maxX minY maxY =>
    rw [perform, putView, record, Suits]
    cases hr : lineAt t.rows row with
    | none => exact iff_of_true h trivial
    | some r =>
      cases hc : lineAt t.columns column with
      | none => exact iff_of_true h trivial
      | some c =>
        dsimp only
        rw [geometry_iff, List.map_append, List.map_append]
        exact and_congr (put_laid_iff h.columns (lineAt_lt hc) _) (put_laid_iff h.rows (lineAt_lt hr) _)
  | setXResizingEnabled flag column => exact iff_of_true ⟨setResizingEnabled_laid h.columns flag column, h.rows⟩ trivial
  | setYResizingEnabled flag row => exact iff_of_true ⟨h.columns, setResizingEnabled_laid h.rows flag row⟩ trivial
  | setMinXBorder border => exact iff_of_true ⟨setMinBorder_laid h.columns border, h.rows⟩ trivial
  | setMaxXBorder border => exact iff_of_true ⟨setMaxBorder_laid h.columns border, h.rows⟩ trivial
  | setMinYBorder border => exact iff_of_true ⟨h.columns, setMinBorder_laid h.rows border⟩ trivial
  | setMaxYBorder border => exact iff_of_true ⟨h.columns, setMaxBorder_laid h.rows border⟩ trivial
  | setFrameSize width height =>
    rw [geometry_iff]
    exact and_congr (setFrameSize_laid_iff h.columns width) (setFrameSize_laid_iff h.rows height)
  | sizeToFit => exact iff_of_true ⟨fit_laid h.columns _, fit_laid h.rows _⟩ trivial

/-! ## Runs -/

/-- The geometry is as it has to be in every state of a run. -/
def StaysLaid (t : GSTable) (puts : List Put) : List TableEdit → Prop
  | [] => Geometry t puts
  | edit :: edits => Geometry t puts ∧ (t.perform edit).StaysLaid (t.record puts edit) edits

/-- Each edit suits the state it is made in. -/
def Suited (t : GSTable) : List TableEdit → Prop
  | [] => True
  | edit :: edits => t.Suits edit ∧ (t.perform edit).Suited edits

theorem StaysLaid.geometry {edits : List TableEdit} (h : t.StaysLaid puts edits) : Geometry t puts := by
  cases edits with
  | nil => exact h
  | cons edit edits => exact h.1

theorem staysLaid_iff (edits : List TableEdit) (h : Geometry t puts) (hh : Holds t puts) :
    t.StaysLaid puts edits ↔ t.Suited edits := by
  induction edits generalizing t puts with
  | nil => exact iff_of_true h trivial
  | cons edit edits ih =>
    have hsp := perform_geometry_iff h hh edit
    rw [StaysLaid, and_iff_right h, Suited]
    by_cases hs : t.Suits edit
    · rw [and_iff_right hs]
      exact ih (hsp.mpr hs) (perform_holds hh edit)
    · exact iff_of_false (fun hl => hs (hsp.mp hl.geometry)) fun hsu => hs hsu.1

end GSTable

open GSTable

/-- Of a new table, whatever the edits. -/
theorem table_staysLaid_iff (rows columns : Int) (edits : List TableEdit) :
    (GSTable.init rows columns).StaysLaid [] edits ↔ (GSTable.init rows columns).Suited edits := by
  obtain ⟨hrw, hr⟩ := init_laid rows
  obtain ⟨hcl, hc⟩ := init_laid columns
  exact staysLaid_iff edits ⟨hcl, hrw⟩ ⟨hc, hr⟩

/-- A view that is put in a table that has been enlarged makes its whole column the minimum. -/
theorem put_after_expanding :
    (GSTable.init 1 1).columns.minimum ≤ 10 ∧ (GSTable.init 1 1).rows.minimum ≤ 10 ∧
      ¬ (GSTable.init 1 1).StaysLaid [] [.setFrameSize 10 10, .putView 1 1 0 0 0 0 0 0] := by
  refine ⟨by decide, by decide, ?_⟩
  rintro ⟨-, -, hl⟩
  have hp : (((GSTable.init 1 1).perform (.setFrameSize 10 10)).perform (.putView 1 1 0 0 0 0 0 0)).columns.lines =
      [⟨true, 10, 0, 10⟩] := by decide +kernel
  have hm := hl.columns.minDimensions 0 ⟨true, 10, 0, 10⟩ (by rw [hp]; rfl)
  exact absurd hm (by decide +kernel)

end GnustepGui.Table
