import Mathlib
import GnustepGui.Browser.Stack
import GnustepGui.Browser.Window

/-!
# A browser and the stack that it shows

A call that fits keeps `Represents browser stack` (`perform_represents`). A loaded column is like a new
one as long as its matrix, when it is reused, can be emptied or holds nothing selected.
-/

namespace GnustepGui.Browser

namespace NSBrowser

/-- The loaded columns show the stack. -/
structure Represents (browser : NSBrowser) (stack : List ShownColumn) : Prop where
  lastColumnLoaded : browser.lastColumnLoaded + 1 = stack.length
  column : ∀ (i : Nat) (shown : ShownColumn), stack[i]? = some shown → ∃ matrix,
    browser.browserColumns[i]? = some ⟨true, some matrix⟩ ∧ matrix.Shows shown.rows shown.selected

/-- With so many rows the column is loaded like a new one. -/
def Renewable (settings : Settings) (column : NSBrowserColumn) (rows : Nat) : Prop :=
  settings.reusesColumns = false ∨ settings.Empties ∨
    ∀ matrix, column.columnMatrix = some matrix → matrix.Unmarked rows

def RenewableAt (settings : Settings) (browser : NSBrowser) (i rows : Nat) : Prop :=
  ∀ column, browser.browserColumns[i]? = some column → Renewable settings column rows

variable {settings : Settings} {delegate : Delegate} {browser before middle after : NSBrowser}
variable {stack : List ShownColumn} {shown : ShownColumn} {i rows : Nat}

/-! ## Titles -/

theorem Represents.lt (h : Represents browser stack) (hs : stack[i]? = some shown) :
    (i : Int) ≤ browser.lastColumnLoaded := by
  have hlt := (List.getElem?_eq_some_iff.mp hs).1
  have hl := h.lastColumnLoaded
  omega

theorem Represents.matrixInColumn (h : Represents browser stack) (hs : stack[i]? = some shown) :
    ∃ matrix, browser.matrixInColumn i = some (some matrix) ∧
      browser.browserColumns[i]? = some ⟨true, some matrix⟩ ∧ matrix.Shows shown.rows shown.selected := by
  obtain ⟨matrix, hg, hsh⟩ := h.column i shown hs
  have hle := h.lt hs
  refine ⟨matrix, ?_, hg, hsh⟩
  rw [NSBrowser.matrixInColumn, if_neg (by omega), columnAt, if_neg (by omega), Int.toNat_natCast, hg]
  rfl

theorem Represents.matrixInColumn_eq_none (h : Represents browser stack) (hs : stack[i]? = none) :
    browser.matrixInColumn i = some none := by
  have hle := List.getElem?_eq_none_iff.mp hs
  have hl := h.lastColumnLoaded
  exact matrixInColumn_other (by omega)

theorem Represents.selectedCellInColumn (h : Represents browser stack) (i : Nat) :
    ∃ cell, browser.selectedCellInColumn i = some cell ∧
      cell.map (·.stringValue) = stack[i]?.bind ShownColumn.selectedTitle := by
  cases hs : stack[i]? with
  | none =>
    refine ⟨none, ?_, rfl⟩
    rw [NSBrowser.selectedCellInColumn, h.matrixInColumn_eq_none hs]
    rfl
  | some shown =>
    obtain ⟨matrix, hm, -, hsh⟩ := h.matrixInColumn hs
    refine ⟨matrix.selectedCell, by rw [NSBrowser.selectedCellInColumn, hm]; rfl, ?_⟩
    rw [Option.bind_some, ShownColumn.selectedTitle, ← hsh.selectedCell, Option.map_map]
    rfl

theorem Represents.titlesFrom (h : Represents browser stack) (columns i : Nat) :
    browser.titlesFrom columns i = some (titles ((stack.drop i).take columns)) := by
  induction columns generalizing i with
  | zero => rfl
  | succ columns ih =>
    obtain ⟨cell, hc, ht⟩ := h.selectedCellInColumn i
    have hn := ih (i + 1)
    push_cast at hn
    rw [NSBrowser.titlesFrom, hc, hn]
    cases hs : stack[i]? with
    | none =>
      rw [hs] at ht
      obtain rfl := Option.map_eq_none_iff.mp ht
      rw [List.drop_eq_nil_of_le (List.getElem?_eq_none_iff.mp hs)]
      rfl
    | some shown =>
      rw [hs, Option.bind_some] at ht
      obtain ⟨hlt, rfl⟩ := List.getElem?_eq_some_iff.mp hs
      rw [List.drop_eq_getElem_cons hlt, List.take_succ_cons, titles, ← ht]
      cases cell <;> rfl

theorem Represents.titlesToColumn (h : Represents browser stack) (column : Nat) :
    browser.titlesToColumn column = some (titles (stack.take column)) := by
  have hls := h.lastColumnLoaded
  rw [NSBrowser.titlesToColumn]
  split
  · have hl : (browser.lastColumnLoaded + 1).toNat = stack.length := by omega
    rw [hl]
    refine (h.titlesFrom stack.length 0).trans ?_
    rw [List.drop_zero, List.take_length, List.take_of_length_le (by omega)]
  · exact h.titlesFrom column 0

theorem Represents.selectedTitles (h : Represents browser stack) : browser.selectedTitles = titles stack := by
  rw [NSBrowser.selectedTitles, h.lastColumnLoaded, h.titlesToColumn, List.take_length]
  rfl

variable (settings) in
theorem Represents.path (h : Represents browser stack) : browser.path settings =
    some (settings.pathSeparator ++ settings.pathSeparator.intercalate (titles stack)) := by
  rw [NSBrowser.path, pathToColumn, h.lastColumnLoaded, h.titlesToColumn, List.take_length]
  rfl

/-! ## Columns -/

theorem Represents.lasts {column : Int} (h : Represents before stack) (hl : Lasts column before after)
    (hge : -1 ≤ column) (hle : column ≤ before.lastColumnLoaded) :
    Represents after (stack.take (column + 1).toNat) := by
  have hls := h.lastColumnLoaded
  refine ⟨?_, fun i shown hs => ?_⟩
  · rw [hl.lastColumnLoaded, List.length_take]
    omega
  · rw [List.getElem?_take] at hs
    split at hs
    · rw [hl.loaded i (by omega)]
      exact h.column i shown hs
    · exact nomatch hs

theorem setLastColumn_represents (h : Represents browser stack) (hs : Sound browser)
    (hr : Ready settings browser) (column : Int) : ∃ after, browser.setLastColumn settings column = some after ∧
      Sound after ∧ Ready settings after ∧ Represents after (stack.take (column + 1).toNat) ∧
      ∀ i, MatrixKept i browser after := by
  have hge := hs.lastColumnLoaded_ge
  have hls := h.lastColumnLoaded
  obtain ⟨after, ha, hs', hr', hl, -⟩ := setLastColumn_spec hs hr column
  refine ⟨after, ha, hs', hr', ?_, hl.kept⟩
  have hrep := h.lasts hl (by omega) (by omega)
  have hc : (min (max column (-1)) browser.lastColumnLoaded + 1).toNat = min (column + 1).toNat stack.length := by
    omega
  rwa [hc, ← List.take_take, List.take_length] at hrep

variable {matrix : NSMatrix}

theorem Represents.addsColumn {contents : List (Title × Bool)} (h : Represents before stack)
    (ha : AddsColumn matrix before after) (hsh : matrix.Shows contents none) :
    Represents after (stack ++ [⟨contents, none⟩]) := by
  have hl := h.lastColumnLoaded
  refine ⟨?_, fun i shown hs => ?_⟩
  · rw [ha.lastColumnLoaded, List.length_append, List.length_singleton]
    omega
  · by_cases hi : i < stack.length
    · rw [List.getElem?_append_left hi] at hs
      rw [ha.others i (by omega)]
      exact h.column i shown hs
    · have hlt := (List.getElem?_eq_some_iff.mp hs).1
      rw [List.length_append, List.length_singleton] at hlt
      obtain rfl : i = stack.length := by omega
      rw [List.getElem?_concat_length] at hs
      obtain rfl := Option.some.inj hs
      have hidx : (before.lastColumnLoaded + 1).toNat = stack.length := by omega
      exact ⟨matrix, hidx ▸ ha.loaded, hsh⟩

variable (browser) in
theorem Renewable.shows {column : NSBrowserColumn} {contents : List (Title × Bool)}
    (hr : Renewable settings column contents.length) :
    (browser.loadedMatrix settings column contents).1.Shows contents none := by
  unfold loadedMatrix
  split
  · rename_i matrix hrs hm
    refine NSMatrix.shows_renewRows contents _ ?_
    obtain h | (h | h) | h := hr
    · exact absurd (hrs.symm.trans h) nofun
    · exact .inl h
    · exact .inr (.inl (if_pos h))
    · exact .inr (.inr (h matrix hm))
  · exact NSMatrix.shows_newMatrix contents _

theorem RenewableAt.nextColumn (hr : RenewableAt settings browser i rows)
    (hi : browser.lastColumnLoaded + 1 = i) : Renewable settings browser.nextColumn rows := by
  rw [NSBrowser.nextColumn, hi, Int.toNat_natCast]
  cases hc : browser.browserColumns[i]? with
  | none => exact .inr (.inr fun _ h => by cases h)
  | some column => exact hr column hc

theorem RenewableAt.kept (hr : RenewableAt settings before i rows) (hk : MatrixKept i before after) :
    RenewableAt settings after i rows := by
  intro column hc
  obtain hn | ⟨old, ho, heq⟩ := hk column hc
  · exact .inr (.inr fun matrix h => nomatch hn.symm.trans h)
  · obtain h | h | h := hr old ho
    · exact .inl h
    · exact .inr (.inl h)
    · exact .inr (.inr fun matrix hm => h matrix (heq.trans hm))

variable (settings delegate) in
theorem addColumn_represents (h : Represents browser stack) (hs : Sound browser) (hr : Ready settings browser)
    (hrnw : RenewableAt settings browser stack.length (delegate (titles stack)).length) :
    ∃ after, browser.addColumn settings delegate = some after ∧ Sound after ∧ Tiled settings after ∧
      Represents after (Stack.addColumn delegate stack) ∧ ∀ i, i ≠ stack.length → MatrixKept i browser after := by
  have hl := h.lastColumnLoaded
  obtain ⟨after, ha, hs', ht, had⟩ := addColumn_spec delegate hs hr
  rw [h.selectedTitles] at had
  refine ⟨after, ha, hs', ht, h.addsColumn had ((hrnw.nextColumn hl).shows _), fun i hi => ?_⟩
  exact had.kept i (by omega)

variable (settings delegate) in
theorem loadColumnZero_represents (h : Represents browser stack) (hs : Sound browser)
    (hr : Ready settings browser) (hrnw : RenewableAt settings browser 0 (delegate []).length) :
    ∃ after, browser.loadColumnZero settings delegate = some after ∧ Sound after ∧ Tiled settings after ∧
      Represents after (Stack.addColumn delegate []) ∧ ∀ i, i ≠ 0 → MatrixKept i browser after := by
  have hge := hs.lastColumnLoaded_ge
  obtain ⟨empty, after, ha, hs', ht, -, hl, had⟩ := loadColumnZero_spec delegate hs hr
  have he : Represents empty [] := h.lasts hl le_rfl hge
  have hls := he.lastColumnLoaded
  rw [he.selectedTitles] at had
  refine ⟨after, ha, hs', ht, ?_, fun i hi => ?_⟩
  · exact he.addsColumn had (((hrnw.kept (hl.kept 0)).nextColumn hls).shows _)
  · refine (hl.kept i).trans (had.kept i ?_)
    have hz : (([] : List ShownColumn).length : Int) = 0 := rfl
    omega

theorem setMatrix_represents (h : Represents browser stack) (i : Nat) (hs : matrix.Shows shown.rows shown.selected) :
    Represents (browser.setMatrix i matrix) (stack.set i shown) := by
  refine ⟨?_, fun j column hc => ?_⟩
  · rw [List.length_set]
    exact h.lastColumnLoaded
  · rw [setMatrix_getElem?, Int.toNat_natCast]
    by_cases hj : i = j
    · subst hj
      have hlt : i < stack.length := by
        have hlt := (List.getElem?_eq_some_iff.mp hc).1
        rwa [List.length_set] at hlt
      rw [List.getElem?_set_self hlt] at hc
      obtain rfl := Option.some.inj hc
      obtain ⟨old, ho, -⟩ := h.column i _ (List.getElem?_eq_getElem hlt)
      exact ⟨matrix, by rw [ho, Option.map_some, if_pos rfl], hs⟩
    · rw [List.getElem?_set_ne hj] at hc
      obtain ⟨old, ho, ho'⟩ := h.column j column hc
      exact ⟨old, by rw [ho, Option.map_some, if_neg hj], ho'⟩

theorem setMatrix_kept (browser : NSBrowser) (column : Nat) (matrix : NSMatrix) (hne : i ≠ column) :
    MatrixKept i browser (browser.setMatrix column matrix) := by
  refine .of_eq ?_
  rw [setMatrix_getElem?, Int.toNat_natCast]
  simp only [if_neg hne.symm, Option.map_id']

/-! ## Selecting titles -/

theorem rowWithTitle_of_shows (hs : matrix.Shows shown.rows shown.selected) (title : Title) :
    rowWithTitle matrix title = (shown.rowWithTitle title).map Prod.fst := by
  have hc {row : Nat} (hlt : row < shown.rows.length) :
      (matrix.cellAtRow row).map (·.stringValue) = some title ↔ shown.rows[row].1 = title := by
    obtain ⟨cell, hc, ht, -⟩ := hs.cellAtRow (List.getElem?_eq_getElem hlt)
    rw [hc, Option.map_some, ht, Option.some.injEq]
    rfl
  rw [Stack.rowWithTitle_map_fst, rowWithTitle, hs.numRows]
  cases hf : shown.rows.findIdx? (·.1 = title) with
  | none =>
    rw [List.find?_range_eq_none]
    intro row hr
    have hother := List.findIdx?_eq_none_iff.mp hf _ (List.getElem_mem hr)
    rw [decide_eq_false_iff_not] at hother
    rw [Bool.not_eq_true', decide_eq_false_iff_not, hc hr]
    exact hother
  | some row =>
    obtain ⟨hlt, ht, hfst⟩ := List.findIdx?_eq_some_iff_getElem.mp hf
    rw [List.find?_range_eq_some]
    refine ⟨decide_eq_true ((hc hlt).mpr (of_decide_eq_true ht)), List.mem_range.mpr hlt, fun j hj => ?_⟩
    rw [Bool.not_eq_true', decide_eq_false_iff_not, hc (by omega)]
    exact fun h => hfst j hj (decide_eq_true h)

variable (settings delegate) in
theorem selectTitles_represents {last : ShownColumn} {before : List Title} (path : List Title)
    (h : Represents browser (stack ++ [last])) (hs : Sound browser) (hrdy : Ready settings browser)
    (htr : Stack.Trail delegate stack before) (hrw : last.rows = delegate before)
    (hrnw : ∀ k < Stack.branches delegate before path,
      RenewableAt settings browser (stack.length + 1 + k) (delegate (before ++ path.take (k + 1))).length) :
    ∃ after, selectTitles settings delegate path stack.length browser =
        some (after, (Stack.selectTitles delegate stack last path).2) ∧ Sound after ∧ Ready settings after ∧
      Represents after (Stack.selectTitles delegate stack last path).1 := by
  induction path generalizing browser stack last before with
  | nil => exact ⟨browser, rfl, hs, hrdy, h⟩
  | cons title path ih =>
    have hls : (stack ++ [last])[stack.length]? = some last := List.getElem?_concat_length
    obtain ⟨matrix, hg, hsh⟩ := h.column _ _ hls
    have hc : browser.columnAt stack.length = some ⟨true, some matrix⟩ := by
      rw [columnAt, if_neg (by omega), Int.toNat_natCast, hg]
    have hfst := rowWithTitle_of_shows hsh title
    rw [selectTitles, hc]
    simp only [Option.bind_eq_bind, Option.bind_some, hfst]
    cases hf : last.rowWithTitle title with
    | none =>
      rw [Stack.selectTitles, hf]
      exact ⟨browser, rfl, hs, hrdy, h⟩
    | some found =>
      obtain ⟨row, isLeaf⟩ := found
      obtain ⟨hr, hfn⟩ := Stack.rowWithTitle_eq_some hf
      obtain ⟨cell, hcl, -, hlf⟩ := hsh.cellAtRow hr
      have hlt := (List.getElem?_eq_some_iff.mp hr).1
      have hs' := setMatrix_sound hs stack.length (matrix.selectCellAtRow settings.matrix row)
      have hsel : Represents (browser.setMatrix stack.length (matrix.selectCellAtRow settings.matrix row))
          (stack ++ [last.select row]) := by
        have hr' : (matrix.selectCellAtRow settings.matrix row).Shows (last.select row).rows (last.select row).selected :=
          hsh.selectCellAtRow hlt
        have hset := setMatrix_represents h stack.length hr'
        rwa [List.set_append_right _ _ le_rfl, Nat.sub_self] at hset
      rw [hrw] at hfn
      rw [Stack.selectTitles, hf]
      simp only [Option.map_some, hcl, hlf]
      cases isLeaf with
      | true => exact ⟨_, rfl, hs', hrdy, hsel⟩
      | false =>
        have htr' : Stack.Trail delegate (stack ++ [last.select row]) (before ++ [title]) := htr.branch hrw rfl hr
        have htt := htr'.titles_eq.1
        have hl : (stack ++ [last.select row]).length = stack.length + 1 := List.length_append
        rw [Stack.branches, hfn] at hrnw
        have hkp {i : Nat} (hne : i ≠ stack.length) :=
          setMatrix_kept browser stack.length (matrix.selectCellAtRow settings.matrix row) hne
        have hn : RenewableAt settings (browser.setMatrix stack.length (matrix.selectCellAtRow settings.matrix row))
            (stack ++ [last.select row]).length (delegate (titles (stack ++ [last.select row]))).length := by
          rw [htt, hl]
          exact (hrnw 0 (Nat.succ_pos _)).kept (hkp (by omega))
        obtain ⟨more, hm, hs'', ht, hrep, hkp'⟩ := addColumn_represents settings delegate hsel hs' hrdy hn
        obtain ⟨after, ha, hfin⟩ := ih hrep hs'' (.inl ht) htr'
          (by rw [Stack.nextColumn, htt]) fun k hk => by
            have ho := hrnw (k + 1) (Nat.succ_lt_succ hk)
            rw [List.take_succ_cons] at ho
            rw [hl, List.append_assoc]
            have hi : stack.length + 1 + 1 + k = stack.length + 1 + (k + 1) := by omega
            rw [hi]
            exact (ho.kept (hkp (by omega))).kept (hkp' _ (by omega))
        rw [hl] at ha
        push_cast at ha
        simp only [Bool.false_eq_true, if_false, hm, Option.bind_some]
        exact ⟨after, ha, hfin⟩

/-! ## Paths -/

variable (settings) in
theorem deselectAllCells_shows (hs : matrix.Shows shown.rows shown.selected) :
    (matrix.deselectAllCells settings.matrix).Shows (shown.deselect (!settings.Empties)).rows
      (shown.deselect (!settings.Empties)).selected := by
  by_cases he : settings.Empties
  · rw [decide_eq_true he]
    exact hs.deselectAllCells (he.imp id fun hm => if_pos hm)
  · rw [decide_eq_false he]
    obtain ⟨hem, hm⟩ := not_or.mp he
    exact hs.deselectAllCells_of_keeps (Bool.eq_false_of_not_eq_true hem) (if_neg hm)

variable (settings) in
theorem deselect_represents (h : Represents browser stack) (i : Nat) : ∃ after,
    keepMatching.deselect settings i browser = some after ∧
      Represents after (stack.modify i (·.deselect (!settings.Empties))) ∧
      ∀ j rows, RenewableAt settings browser j rows → RenewableAt settings after j rows := by
  rw [keepMatching.deselect]
  cases hs : stack[i]? with
  | none =>
    rw [h.matrixInColumn_eq_none hs, List.modify_eq_self (List.getElem?_eq_none_iff.mp hs)]
    exact ⟨browser, rfl, h, fun _ _ => id⟩
  | some shown =>
    obtain ⟨matrix, hm, hg, hsh⟩ := h.matrixInColumn hs
    have hset := setMatrix_represents h i (deselectAllCells_shows settings hsh)
    rw [hm, List.modify_eq_set_getElem?, hs]
    refine ⟨_, rfl, hset, fun j rows hr column hc => ?_⟩
    rw [setMatrix_getElem?, Int.toNat_natCast, Option.map_eq_some_iff] at hc
    obtain ⟨old, ho, rfl⟩ := hc
    obtain hrs | he | hu := hr old ho
    · exact .inl hrs
    · exact .inr (.inl he)
    · refine .inr (.inr fun matrix' hm' => ?_)
      split at hm'
      · rename_i hi
        subst hi
        obtain rfl := Option.some.inj (hg.symm.trans ho)
        obtain rfl := Option.some.inj hm'
        exact (hu matrix rfl).deselectAllCells
      · exact hu matrix' hm'

/-- The columns are kept that match, and the selection of the next one is emptied. -/
theorem keepMatching_represents (h : Represents browser stack) (hs : Sound browser)
    (hr : Ready settings browser) (columns i : Nat) (path : List Title) (column : Nat)
    (hcs : i + columns = stack.length) :
    ∃ after, keepMatching settings columns i path column browser =
        some (after, ((if Stack.matching (stack.drop i) path = 0 then column
          else i + Stack.matching (stack.drop i) path - 1 : Nat) : Int)) ∧
      Sound after ∧ Ready settings after ∧
      Represents after (stack.modify (i + Stack.matching (stack.drop i) path) (·.deselect (!settings.Empties))) ∧
      ∀ j rows, RenewableAt settings browser j rows → RenewableAt settings after j rows := by
  induction columns generalizing i path column with
  | zero =>
    have hd : stack.drop i = [] := List.drop_eq_nil_of_le (by omega)
    have hn : Stack.matching (stack.drop i) path = 0 := by rw [hd]; rfl
    rw [hn, List.modify_eq_self (by omega)]
    exact ⟨browser, rfl, hs, hr, h, fun _ _ => id⟩
  | succ columns ih =>
    have hlt : i < stack.length := by omega
    obtain ⟨cell, hc, ht⟩ := h.selectedCellInColumn i
    obtain ⟨after, ha, hrep, hrnw⟩ := deselect_represents settings h i
    obtain ⟨after', ha', hs', hr', -⟩ := deselect_safe hs hr i
    obtain rfl := Option.some.inj (ha.symm.trans ha')
    rw [List.getElem?_eq_getElem hlt, Option.bind_some] at ht
    rw [keepMatching, hc, List.drop_eq_getElem_cons hlt]
    cases path with
    | nil =>
      simp only [Option.bind_eq_bind, Option.bind_some, ha]
      exact ⟨after, rfl, hs', hr', hrep, hrnw⟩
    | cons title path =>
      simp only [Option.bind_eq_bind, Option.bind_some, ht]
      by_cases hsel : stack[i].selectedTitle = some title
      · obtain ⟨kept, hk, hf⟩ := ih (i + 1) path i (by omega)
        refine ⟨kept, ?_, ?_⟩
        · rw [if_pos hsel, hk, Stack.matching, if_pos hsel, if_neg (Nat.succ_ne_zero _)]
          congr 3
          split <;> omega
        · rw [Stack.matching, if_pos hsel]
          have hi : i + (Stack.matching (stack.drop (i + 1)) path + 1) =
              i + 1 + Stack.matching (stack.drop (i + 1)) path := by omega
          rw [hi]
          exact hf
      · rw [if_neg hsel, ha, Stack.matching, if_neg hsel]
        exact ⟨after, rfl, hs', hr', hrep, hrnw⟩

/-! ## Calls -/

/-- The call leaves a browser that is sound and shows the stack. -/
def LeadsTo (settings : Settings) (call : Option NSBrowser) (stack : List ShownColumn) : Prop :=
  ∃ after, call = some after ∧ Sound after ∧ Ready settings after ∧ Represents after stack

variable (settings delegate) in
/-- The columns can be loaded like new ones. -/
def CanLoad (browser : NSBrowser) (loads : List (Nat × List Title)) : Prop :=
  ∀ loaded ∈ loads, RenewableAt settings browser loaded.1 (delegate loaded.2).length

theorem selectRow_represents (h : Represents browser stack) (hsnd : Sound browser) (hr : Ready settings browser)
    (hp : Stack.Proper delegate stack) (row column : Int)
    (hld : CanLoad settings delegate browser (Stack.loads delegate settings stack (.selectRow row column))) :
    LeadsTo settings (browser.selectRow settings delegate row column)
      (Stack.perform delegate settings stack (.selectRow row column)) := by
  have hsl : LeadsTo settings (some browser) stack := ⟨browser, rfl, hsnd, hr, h⟩
  by_cases hc : column < 0
  · rw [selectRow, matrixInColumn_other (.inl hc), Stack.perform, if_pos (.inr hc)]
    exact hsl
  obtain ⟨i, rfl⟩ := Int.eq_ofNat_of_zero_le (not_lt.mp hc)
  cases hs : stack[i]? with
  | none =>
    have hnn : Stack.perform delegate settings stack (.selectRow row i) = stack := by
      rw [Stack.perform, Stack.selectRow, Int.toNat_natCast, hs]
      exact ite_self _
    rw [selectRow, h.matrixInColumn_eq_none hs, hnn]
    exact hsl
  | some shown =>
    obtain ⟨matrix, hm, -, hsh⟩ := h.matrixInColumn hs
    unfold selectRow
    rw [hm]
    by_cases hrow : row < 0 ∨ shown.rows.length ≤ row
    · have hnn : Stack.perform delegate settings stack (.selectRow row i) = stack := by
        rw [Stack.perform]
        split
        · rfl
        · have ho : shown.rows[row.toNat]? = none := List.getElem?_eq_none_iff.mpr (by omega)
          simp only [Stack.selectRow, Int.toNat_natCast, hs, ho]
      simp only [Option.bind_eq_bind, Option.bind_some, hsh.cellAtRow_eq_none hrow, hnn]
      exact hsl
    · obtain ⟨k, rfl⟩ := Int.eq_ofNat_of_zero_le (not_lt.mp (not_or.mp hrow).1)
      have hk : k < shown.rows.length := by omega
      obtain ⟨⟨title, isLeaf⟩, hcn⟩ : ∃ content, shown.rows[k]? = some content := ⟨_, List.getElem?_eq_getElem hk⟩
      obtain ⟨cell, hcl, -, hlf⟩ := hsh.cellAtRow hcn
      obtain ⟨last, hls, hsnd', hr', hrep, hkp⟩ := setLastColumn_represents h hsnd hr i
      have hsel : (NSMatrix.selectCellAtRow settings.matrix
          (if settings.allowsMultipleSelection then matrix else matrix.deselectAllCells settings.matrix) k).Shows
          (shown.select k).rows (shown.select k).selected := by
        split
        · exact hsh.selectCellAtRow hk
        · have hrw : (shown.deselect (!settings.Empties)).rows = shown.rows := by
            cases !decide settings.Empties <;> rfl
          have hd := deselectAllCells_shows settings hsh
          rw [hrw] at hd
          exact hd.selectCellAtRow hk
      have hi := (List.getElem?_eq_some_iff.mp hs).1
      have hset := setMatrix_represents hrep i hsel
      rw [Int.toNat_natCast_add_one, List.take_add_one, hs, Option.toList_some,
        List.set_append_right _ _ (by rw [List.length_take]; omega), List.length_take, min_eq_left hi.le,
        Nat.sub_self] at hset
      have hset : Represents _ (stack.take i ++ [shown.select k]) := hset
      simp only [Option.bind_eq_bind, Option.bind_some, hcl, hls, hlf, Int.toNat_natCast]
      have hpf : Stack.perform delegate settings stack (.selectRow k i) =
          if isLeaf then stack.take i ++ [shown.select k]
          else Stack.addColumn delegate (stack.take i ++ [shown.select k]) := by
        rw [Stack.perform, if_neg (by omega), Stack.selectRow]
        simp only [Int.toNat_natCast, hs, hcn]
      rw [hpf]
      cases isLeaf with
      | true => exact ⟨_, rfl, setMatrix_sound hsnd' _ _, hr', hset⟩
      | false =>
        obtain ⟨htr, hrw⟩ := hp.getElem? hs
        have htr' : Stack.Trail delegate (stack.take i ++ [shown.select k]) ((titles stack).take i ++ [title]) :=
          htr.branch hrw rfl hcn
        have htt := htr'.titles_eq.1
        have hl : (stack.take i ++ [shown.select k]).length = i + 1 := by
          rw [List.length_append, List.length_take, List.length_singleton, min_eq_left hi.le]
        have hn : RenewableAt settings browser (i + 1) (delegate ((titles stack).take i ++ [title])).length := by
          refine hld (i + 1, (titles stack).take i ++ [title]) ?_
          rw [Stack.loads, if_neg (by omega), Int.toNat_natCast, Int.toNat_natCast, hs, Option.bind_some, hcn]
          exact List.mem_singleton_self _
        have hn := (hn.kept (hkp _)).kept (setMatrix_kept last i (NSMatrix.selectCellAtRow settings.matrix
          (if settings.allowsMultipleSelection then matrix else matrix.deselectAllCells settings.matrix) k)
          (Nat.succ_ne_self i))
        obtain ⟨after, ha, hsnd'', ht, hf, -⟩ := addColumn_represents settings delegate hset
          (setMatrix_sound hsnd' _ _) hr' (by rwa [hl, htt])
        exact ⟨after, ha, hsnd'', .inl ht, hf⟩

theorem Represents.loads (h : Represents before stack) (hl : Loads i matrix before after)
    (hs : stack[i]? = some shown) (hsh : matrix.Shows shown.rows shown.selected) : Represents after stack := by
  have hle := h.lt hs
  refine ⟨?_, fun j column hc => ?_⟩
  · rw [hl.lastColumnLoaded, max_eq_right hle]
    exact h.lastColumnLoaded
  · by_cases hj : j = i
    · subst hj
      obtain rfl := Option.some.inj (hc.symm.trans hs)
      exact ⟨matrix, hl.loaded, hsh⟩
    · rw [hl.others j (h.lt hc) hj]
      exact h.column j column hc

variable (settings) in
/-- A column with nothing selected stays as it is when it is reloaded, and becomes the last one. -/
theorem reloadColumn_represents (h : Represents browser stack) (hsnd : Sound browser)
    (hr : Ready settings browser) (hp : Stack.Proper delegate stack) (column : Int)
    (hsel : ∀ shown, 0 ≤ column → stack[column.toNat]? = some shown → shown.selected = none) :
    LeadsTo settings (browser.reloadColumn settings delegate column)
      (Stack.perform delegate settings stack (.reloadColumn column)) := by
  rw [Stack.perform]
  split
  · rename_i hneg
    rw [reloadColumn, matrixInColumn_other (.inl hneg)]
    exact ⟨browser, rfl, hsnd, hr, h⟩
  · rename_i hnn
    obtain ⟨i, rfl⟩ := Int.eq_ofNat_of_zero_le (not_lt.mp hnn)
    have hc : ((i : Int) + 1).toNat = i + 1 := Int.toNat_natCast_add_one
    rw [hc]
    cases hs : stack[i]? with
    | none =>
      rw [reloadColumn, h.matrixInColumn_eq_none hs,
        List.take_of_length_le (Nat.le_succ_of_le (List.getElem?_eq_none_iff.mp hs))]
      exact ⟨browser, rfl, hsnd, hr, h⟩
    | some shown =>
      obtain ⟨matrix, hm, hg, hsh⟩ := h.matrixInColumn hs
      have hno := hsel shown (not_lt.mp hnn) hs
      obtain ⟨htr, hrw⟩ := hp.getElem? hs
      rw [hno] at hsh
      have hrnw : Renewable settings ⟨true, some matrix⟩ (delegate (titles (stack.take i))).length := by
        rw [htr.titles_eq.1, ← hrw]
        refine .inr (.inr fun matrix' h' => ?_)
        obtain rfl := Option.some.inj h'
        exact hsh.unmarked
      have hn := hrnw.shows browser
      rw [htr.titles_eq.1, ← hrw, ← hno] at hn
      obtain ⟨loaded, hld, hsnd₁, ht, hl⟩ := performLoadOfColumn_spec delegate hsnd hr hg
        (by have := h.lt hs; omega) (h.titlesToColumn i)
      rw [htr.titles_eq.1, ← hrw] at hl
      obtain ⟨last, hla, hsnd₂, hr₂, hrep, -⟩ := setLastColumn_represents (h.loads hl hs hn) hsnd₁ (.inl ht) i
      rw [hc] at hrep
      have hs' : (stack.take (i + 1))[i]? = some shown := by
        rw [List.getElem?_take_of_lt (Nat.lt_succ_self i), hs]
      obtain ⟨matrix', hm', -, hsh'⟩ := hrep.matrixInColumn hs'
      have hset := setMatrix_represents hrep i hsh'
      obtain ⟨hlt, hsl⟩ := List.getElem?_eq_some_iff.mp hs'
      rw [← hsl, List.set_getElem_self] at hset
      unfold reloadColumn
      rw [hm]
      simp only [Option.bind_eq_bind, Option.bind_some, hld, hla, hm', hsh.selectedCells_eq_nil]
      exact ⟨_, rfl, setMatrix_sound hsnd₂ _ _, hr₂, hset⟩

variable (settings delegate) in
theorem ensureLoaded_represents (h : Represents browser stack) (hs : Sound browser)
    (hr : Ready settings browser)
    (hl : CanLoad settings delegate browser (if stack = [] then [(0, [])] else [])) : ∃ after,
    browser.ensureLoaded settings delegate = some after ∧ Sound after ∧ Ready settings after ∧
      Represents after (Stack.ensureLoaded delegate stack) ∧ ∀ i, i ≠ 0 → MatrixKept i browser after := by
  have hls := h.lastColumnLoaded
  rw [ensureLoaded, Stack.ensureLoaded]
  by_cases hn : stack = []
  · subst hn
    have hz : (([] : List ShownColumn).length : Int) = 0 := rfl
    rw [if_pos (by omega), if_pos rfl]
    obtain ⟨after, ha, hs', ht, hrep, hk⟩ :=
      loadColumnZero_represents settings delegate h hs hr (hl (0, []) (List.mem_singleton_self _))
    exact ⟨after, ha, hs', .inl ht, hrep, hk⟩
  · have hp := List.length_pos_of_ne_nil hn
    rw [if_neg (by omega), if_neg hn]
    exact ⟨browser, rfl, hs, hr, h, fun _ _ => .of_eq rfl⟩

theorem selectTitles_leadsTo {last : ShownColumn} {before path : List Title}
    (h : Represents browser (stack ++ [last])) (hs : Sound browser) (hr : Ready settings browser)
    (ht : Stack.Trail delegate stack before) (hrw : last.rows = delegate before)
    (hl : CanLoad settings delegate browser (Stack.loadsBelow delegate before path)) :
    ∃ after, selectTitles settings delegate path stack.length browser =
        some (after, (Stack.selectTitles delegate stack last path).2) ∧ Sound after ∧ Ready settings after ∧
      Represents after (Stack.selectTitles delegate stack last path).1 := by
  refine selectTitles_represents settings delegate path h hs hr ht hrw fun k hk => ?_
  rw [← ht.titles_eq.2]
  exact hl (before.length + 1 + k, before ++ path.take (k + 1)) (List.mem_map.mpr ⟨k, List.mem_range.mpr hk, rfl⟩)

theorem setPath_represents (h : Represents browser stack) (hs : Sound browser) (hrdy : Ready settings browser)
    (hpp : Stack.Proper delegate stack) (path : List Char)
    (hls : CanLoad settings delegate browser (Stack.loads delegate settings stack (.setPath path))) :
    ∃ after, browser.setPath settings delegate path =
        some (after, (Stack.setPath delegate settings stack path).2) ∧ Sound after ∧ Ready settings after ∧
      Represents after (Stack.setPath delegate settings stack path).1 := by
  have hne : Stack.ensureLoaded delegate stack ≠ [] := Stack.ensureLoaded_ne_nil
  have hpp' := Stack.ensureLoaded_proper hpp
  obtain ⟨loaded, hld, hs₁, hrdy₁, hr₁, hk⟩ := ensureLoaded_represents settings delegate h hs
    hrdy fun pair hpr => hls pair (List.mem_append_left _ hpr)
  have hb : ∀ pair ∈ Stack.loadsForPath delegate settings stack path,
      RenewableAt settings loaded pair.1 (delegate pair.2).length := by
    intro pair hpr
    exact (hls pair (List.mem_append_right _ hpr)).kept (hk _ (Stack.loadsForPath_pos hpr).ne')
  unfold Stack.setPath
  unfold Stack.loadsForPath at hb
  rw [setPath, hld]
  generalize Stack.ensureLoaded delegate stack = stack' at *
  generalize subStrings settings.pathSeparator path = titles at *
  simp only [Option.bind_eq_bind, Option.bind_some]
  dsimp only at hb
  split
  · rename_i habs
    rw [if_pos habs] at hb
    obtain ⟨kept, hk, hs₂, hrdy₂, hr₂, hrnw⟩ := keepMatching_represents hr₁ hs₁
      hrdy₁ stack'.length 0 titles 0 (Nat.zero_add _)
    obtain ⟨column, hc, ht, hrw, -⟩ := Stack.setAbsolutePath_kept delegate hpp' hne (!settings.Empties) titles
    rw [List.drop_zero, Nat.zero_add] at hk hr₂
    have hi : (if Stack.matching stack' titles = 0 then 0 else Stack.matching stack' titles - 1) =
        Stack.matching stack' titles - 1 := by
      split <;> omega
    rw [hi] at hk
    rw [Stack.setAbsolutePath_eq hc]
    generalize Stack.matching stack' titles - 1 = last at *
    generalize stack'.modify (Stack.matching stack' titles) (·.deselect (!settings.Empties)) = modified at *
    obtain ⟨cut, hcut, hs₃, hrdy₃, hr₃, hk₃⟩ := setLastColumn_represents hr₂ hs₂ hrdy₂ last
    rw [Int.toNat_natCast_add_one, List.take_add_one, hc] at hr₃
    have hl : (modified.take last).length = last := by
      have hlt := (List.getElem?_eq_some_iff.mp hc).1
      rw [List.length_take, min_eq_left hlt.le]
    obtain ⟨after, ha, hf⟩ := selectTitles_leadsTo hr₃ hs₃ hrdy₃ ht hrw
      fun pair hpr => (hrnw _ _ (hb pair hpr)).kept (hk₃ _)
    rw [hl] at ha
    have hcnt : (loaded.lastColumnLoaded + 1).toNat = stack'.length := by
      rw [hr₁.lastColumnLoaded, Int.toNat_natCast]
    rw [hcnt]
    push_cast at hk
    simp only [hk, Option.bind_some, hcut, Int.toNat_natCast]
    exact ⟨after, ha, hf⟩
  · rename_i hrel
    rw [if_neg hrel] at hb
    obtain ⟨column, hc, ht, hrw⟩ := Stack.setRelativePath_last hpp' hne
    have hp := List.length_pos_of_ne_nil hne
    have hspl : stack' = stack'.take (stack'.length - 1) ++ [column] := by
      have hall : stack'.length - 1 + 1 = stack'.length := by omega
      have htk := List.take_add_one (l := stack') (i := stack'.length - 1)
      rw [hall, List.take_length, hc] at htk
      exact htk
    have hr : Represents loaded (stack'.take (stack'.length - 1) ++ [column]) := hspl ▸ hr₁
    obtain ⟨after, ha, hf⟩ := selectTitles_leadsTo hr hs₁ hrdy₁ ht hrw hb
    have hla : loaded.lastColumnLoaded = ((stack'.take (stack'.length - 1)).length : Nat) := by
      have hla := hr₁.lastColumnLoaded
      rw [List.length_take]
      omega
    rw [Stack.setRelativePath_eq hc, hla]
    exact ⟨after, ha, hf⟩

variable (settings delegate) in
theorem perform_represents {call : Call} (hc : call.Browses) (h : Represents browser stack) (hs : Sound browser)
    (hr : Ready settings browser) (hp : Stack.Proper delegate stack)
    (hl : CanLoad settings delegate browser (Stack.loads delegate settings stack call))
    (hrl : ∀ column shown, call = .reloadColumn column → 0 ≤ column → stack[column.toNat]? = some shown →
      shown.selected = none) :
    LeadsTo settings (call.perform settings delegate browser) (Stack.perform delegate settings stack call) := by
  cases call with
  | loadColumnZero =>
    obtain ⟨after, ha, hs', ht, hrep, -⟩ :=
      loadColumnZero_represents settings delegate h hs hr (hl (0, []) (List.mem_singleton_self _))
    exact ⟨after, ha, hs', .inl ht, hrep⟩
  | setLastColumn column =>
    obtain ⟨after, ha, hs', hr', hrep, -⟩ := setLastColumn_represents h hs hr column
    exact ⟨after, ha, hs', hr', hrep⟩
  | selectRow row column => exact selectRow_represents h hs hr hp row column hl
  | setPath path =>
    obtain ⟨after, ha, hf⟩ := setPath_represents h hs hr hp path hl
    exact ⟨after, by rw [Call.perform, ha]; rfl, hf⟩
  | reloadColumn column =>
    exact reloadColumn_represents settings h hs hr hp column fun shown => hrl column shown rfl
  | addColumn => exact hc.elim
  | scrollColumnsLeftBy shiftAmount => exact hc.elim
  | scrollColumnsRightBy shiftAmount => exact hc.elim
  | scrollColumnToVisible column => exact hc.elim
  | setMaxVisibleColumns columnCount => exact hc.elim
  | setFrameWidth frameWidth => exact hc.elim

end NSBrowser

end GnustepGui.Browser
