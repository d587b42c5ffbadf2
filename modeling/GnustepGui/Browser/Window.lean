import GnustepGui.Browser.Browser

/-!
# The window on the columns

A call keeps `Sound` and `Ready`, and is not `none` (`perform_sound`). A browser that has been tiled shows
as many columns as `tile` computes, and is not changed by `tile`; a new one shows one column.
-/

namespace GnustepGui.Browser

namespace NSBrowser

/-- The loaded columns come first, and the window is within the columns. -/
structure Sound (browser : NSBrowser) : Prop where
  lastColumnLoaded_ge : -1 ≤ browser.lastColumnLoaded
  lastColumnLoaded_lt : browser.lastColumnLoaded < browser.browserColumns.length
  isLoaded_iff : ∀ (i : Nat) (column : NSBrowserColumn), browser.browserColumns[i]? = some column →
    (column.isLoaded = true ↔ (i : Int) ≤ browser.lastColumnLoaded)
  hasMatrix : ∀ (i : Nat) (column : NSBrowserColumn), browser.browserColumns[i]? = some column →
    column.isLoaded = true → column.columnMatrix.isSome
  firstVisibleColumn_nonneg : 0 ≤ browser.firstVisibleColumn
  first_le_last : browser.firstVisibleColumn ≤ browser.lastVisibleColumn
  lastVisibleColumn_lt : browser.lastVisibleColumn < browser.browserColumns.length
  maxVisibleColumns_pos : 1 ≤ browser.maxVisibleColumns

/-- As many columns are visible as `tile` computes. -/
def Tiled (settings : Settings) (browser : NSBrowser) : Prop :=
  browser.lastVisibleColumn - browser.firstVisibleColumn + 1 = browser.columnCount settings

/-- The window of a new browser. -/
def Untouched (browser : NSBrowser) : Prop :=
  browser.lastColumnLoaded = -1 ∧ browser.firstVisibleColumn = 0 ∧ browser.lastVisibleColumn = 0

/-- Only the window is another one, and there may be new columns. -/
structure Reframed (before after : NSBrowser) : Prop where
  columns : ∃ count, after.browserColumns = before.browserColumns ++ List.replicate count createdColumn
  lastColumnLoaded : after.lastColumnLoaded = before.lastColumnLoaded
  cellsMade : after.cellsMade = before.cellsMade

variable {settings : Settings} {browser before middle after : NSBrowser}

theorem Reframed.refl (browser : NSBrowser) : Reframed browser browser := ⟨⟨0, (List.append_nil _).symm⟩, rfl, rfl⟩

theorem Reframed.trans (h : Reframed before middle) (h' : Reframed middle after) : Reframed before after := by
  obtain ⟨count, hc⟩ := h.columns
  obtain ⟨count', hc'⟩ := h'.columns
  refine ⟨⟨count + count', ?_⟩, h'.lastColumnLoaded.trans h.lastColumnLoaded, h'.cellsMade.trans h.cellsMade⟩
  rw [hc', hc, List.append_assoc, List.replicate_append_replicate]

theorem Reframed.getElem? (h : Reframed before after) {i : Nat} (hi : i < before.browserColumns.length) :
    after.browserColumns[i]? = before.browserColumns[i]? := by
  obtain ⟨count, hc⟩ := h.columns
  rw [hc, List.getElem?_append_left hi]

/-! ## Tiling -/

theorem minColumnWidth_le_colWidth (settings : Settings) : settings.minColumnWidth ≤ settings.colWidth := by
  have hs := settings.scrollerWidth_nonneg
  have hsep := settings.browserColumnSeparation_nonneg
  rw [Settings.colWidth]
  split <;> linarith

theorem one_le_fittingColumnCount (hle : browser.firstVisibleColumn ≤ browser.lastVisibleColumn) :
    1 ≤ browser.fittingColumnCount settings := by
  rw [fittingColumnCount]
  split
  · rename_i hm
    split
    · rename_i hlt
      have hp : 0 < settings.colWidth := lt_of_lt_of_le hm (minColumnWidth_le_colWidth settings)
      rw [Int.le_floor, le_div_iff₀ hp, Int.cast_one, one_mul]
      exact le_of_lt hlt
    · exact le_rfl
  · omega

variable (settings) in
theorem one_le_columnCount (hle : browser.firstVisibleColumn ≤ browser.lastVisibleColumn)
    (hm : 1 ≤ browser.maxVisibleColumns) : 1 ≤ browser.columnCount settings := by
  rw [columnCount]
  split
  · exact hm
  · exact one_le_fittingColumnCount hle

theorem createColumns_of_le {count : Int} (h : count ≤ browser.browserColumns.length) :
    browser.createColumns count = browser := by
  have hz : count.toNat - browser.browserColumns.length = 0 := by omega
  rw [createColumns, hz, List.replicate_zero, List.append_nil]

theorem tile_of_tiled (hs : Sound browser) (ht : Tiled settings browser) : browser.tile settings = some browser := by
  have hsm : ¬ browser.columnCount settings ≠ browser.lastVisibleColumn - browser.firstVisibleColumn + 1 :=
    fun hne => hne ht.symm
  have hlt := hs.lastVisibleColumn_lt
  unfold tile
  simp only [if_neg hsm, if_neg (not_lt.mpr hs.first_le_last), gt_iff_lt,
    if_neg (not_lt.mpr hs.firstVisibleColumn_nonneg)]
  rw [createColumns_of_le (by omega)]
  rfl

theorem showFromFirst_eq {columns : List NSBrowserColumn} {last : Nat} (hl : last < columns.length)
    (fuel i : Nat) : showFromFirst columns last fuel i = some () := by
  induction fuel generalizing i with
  | zero => rfl
  | succ fuel ih =>
    rw [showFromFirst]
    split
    · rw [List.getElem?_eq_getElem (by omega)]
      exact ih (i + 1)
    · rfl

theorem showFromLast_eq {columns : List NSBrowserColumn} {first last : Nat} (hf : 0 < first)
    (hl : last < columns.length) : showFromLast columns first last = some () := by
  induction last with
  | zero => rw [showFromLast, if_neg (by omega)]
  | succ last ih =>
    rw [showFromLast]
    split
    · rw [List.getElem?_eq_getElem hl]
      exact ih (by omega)
    · rfl

theorem remapColumnSubviews_true (hs : Sound browser) : browser.remapColumnSubviews true = some () := by
  have hlt := hs.lastVisibleColumn_lt
  have hf := hs.firstVisibleColumn_nonneg
  have hle := hs.first_le_last
  unfold remapColumnSubviews
  simp only [gt_iff_lt, if_neg (not_lt.mpr hle), if_neg (not_lt.mpr hf), if_true]
  exact showFromFirst_eq (by omega) _ _

theorem remapColumnSubviews_false (hs : Sound browser) (hf : 0 < browser.firstVisibleColumn) :
    browser.remapColumnSubviews false = some () := by
  have hlt := hs.lastVisibleColumn_lt
  have hle := hs.first_le_last
  unfold remapColumnSubviews
  simp only [gt_iff_lt, if_neg (not_lt.mpr hle), if_neg (not_lt.mpr hf.le), Bool.false_eq_true, if_false]
  exact showFromLast_eq (by omega) (by omega)

/-- New columns and another window leave a browser sound. -/
theorem Sound.reframed (hs : Sound before) (h : Reframed before after)
    (hf : 0 ≤ after.firstVisibleColumn) (hle : after.firstVisibleColumn ≤ after.lastVisibleColumn)
    (hls : after.lastVisibleColumn < after.browserColumns.length) (hm : 1 ≤ after.maxVisibleColumns) : Sound after := by
  obtain ⟨count, hcnt⟩ := h.columns
  have hge := hs.lastColumnLoaded_ge
  have hlt := hs.lastColumnLoaded_lt
  have hcas {i : Nat} {column : NSBrowserColumn} (hc : after.browserColumns[i]? = some column) :
      before.browserColumns[i]? = some column ∨ (before.browserColumns.length ≤ i ∧ column = createdColumn) := by
    rw [hcnt] at hc
    by_cases hi : i < before.browserColumns.length
    · rw [List.getElem?_append_left hi] at hc
      exact .inl hc
    · rw [List.getElem?_append_right (not_lt.mp hi)] at hc
      exact .inr ⟨not_lt.mp hi, List.eq_of_mem_replicate (List.mem_of_getElem? hc)⟩
  refine ⟨?_, ?_, fun i column hc => ?_, fun i column hc hl => ?_, hf, hle, hls, hm⟩
  · rwa [h.lastColumnLoaded]
  · rw [h.lastColumnLoaded, hcnt, List.length_append]
    omega
  · rw [h.lastColumnLoaded]
    obtain ho | ⟨hi, rfl⟩ := hcas hc
    · exact hs.isLoaded_iff i column ho
    · exact ⟨fun h => absurd h Bool.false_ne_true, fun h => by omega⟩
  · obtain ho | ⟨-, rfl⟩ := hcas hc
    · exact hs.hasMatrix i column ho hl
    · exact absurd hl Bool.false_ne_true

theorem createColumns_reframed (browser : NSBrowser) (count : Int) : Reframed browser (browser.createColumns count) :=
  ⟨⟨_, rfl⟩, rfl, rfl⟩

theorem length_createColumns (browser : NSBrowser) (count : Int) :
    ((browser.createColumns count).browserColumns.length : Int) = max (browser.browserColumns.length : Int) count := by
  simp only [createColumns, List.length_append, List.length_replicate]
  omega

theorem columnCount_congr (hw : after.lastVisibleColumn - after.firstVisibleColumn =
      before.lastVisibleColumn - before.firstVisibleColumn)
    (hm : after.maxVisibleColumns = before.maxVisibleColumns) (hwd : after.frameWidth = before.frameWidth) :
    after.columnCount settings = before.columnCount settings := by
  have hf : after.fittingColumnCount settings = before.fittingColumnCount settings := by
    rw [fittingColumnCount, fittingColumnCount, hw, hwd]
  rw [columnCount, columnCount, hf, hm]

theorem columnCount_of_window (hw : after.lastVisibleColumn - after.firstVisibleColumn + 1 =
      before.columnCount settings)
    (hm : after.maxVisibleColumns = before.maxVisibleColumns) (hwd : after.frameWidth = before.frameWidth) :
    after.columnCount settings = before.columnCount settings := by
  by_cases hmin : settings.minColumnWidth > 0
  · simp only [columnCount, fittingColumnCount, if_pos hmin, hm, hwd]
  · have hf : after.fittingColumnCount settings = before.columnCount settings := by
      rw [fittingColumnCount, if_neg hmin, hw]
    rw [columnCount, hf, hm]
    split
    · rename_i hc
      rw [columnCount] at hc ⊢
      split at hc
      · omega
      · rename_i hn
        exact absurd hc hn
    · rfl

variable (settings) in
theorem retile_first (hs : Sound browser) : 0 ≤ (browser.retile settings).firstVisibleColumn := by
  have hf := hs.firstVisibleColumn_nonneg
  change 0 ≤ browser.firstVisibleFor (browser.columnCount settings)
  unfold firstVisibleFor
  dsimp only
  split_ifs <;> omega

variable (settings) in
theorem retile_window (browser : NSBrowser) :
    (browser.retile settings).lastVisibleColumn - (browser.retile settings).firstVisibleColumn + 1 =
      browser.columnCount settings := by
  simp only [retile]
  omega

variable (settings) in
theorem tile_spec (hs : Sound browser) : ∃ after, browser.tile settings = some after ∧ Sound after ∧
    Tiled settings after ∧ Reframed browser after := by
  by_cases ht : Tiled settings browser
  · exact ⟨browser, tile_of_tiled hs ht, hs, ht, .refl browser⟩
  · have hc : browser.columnCount settings ≠ browser.lastVisibleColumn - browser.firstVisibleColumn + 1 :=
      fun h => ht h.symm
    have ho := one_le_columnCount settings hs.first_le_last hs.maxVisibleColumns_pos
    have hw := retile_window settings browser
    have hf := retile_first settings hs
    have hle : (browser.retile settings).firstVisibleColumn ≤ (browser.retile settings).lastVisibleColumn := by
      omega
    have hr : Reframed browser (browser.retile settings) := ⟨⟨_, rfl⟩, rfl, rfl⟩
    have hfrd := hr.trans
      (createColumns_reframed _ ((browser.retile settings).lastVisibleColumn + 1))
    have ha : Sound ((browser.retile settings).createColumns ((browser.retile settings).lastVisibleColumn + 1)) := by
      refine hs.reframed hfrd hf hle ?_ hs.maxVisibleColumns_pos
      have hl := length_createColumns (browser.retile settings)
        ((browser.retile settings).lastVisibleColumn + 1)
      have hsm : ((browser.retile settings).createColumns
        ((browser.retile settings).lastVisibleColumn + 1)).lastVisibleColumn =
          (browser.retile settings).lastVisibleColumn := rfl
      omega
    refine ⟨_, ?_, ha, ?_, hfrd⟩
    · unfold tile
      simp only [if_pos hc, gt_iff_lt, if_neg (not_lt.mpr hle), if_neg (not_lt.mpr hf)]
      rw [remapColumnSubviews_true ha]
      rfl
    · refine hw.trans ?_
      exact (columnCount_of_window hw rfl rfl).symm

/-! ## Scrolling -/

/-- Tiled, or as new. -/
def Ready (settings : Settings) (browser : NSBrowser) : Prop :=
  Tiled settings browser ∨ Untouched browser

/-- What a call does that loads no column and unloads none. -/
def Reframes (settings : Settings) (before : NSBrowser) (call : Option NSBrowser) : Prop :=
  ∃ after, call = some after ∧ Sound after ∧ Ready settings after ∧ Reframed before after ∧
    (Tiled settings before → Tiled settings after)

theorem Reframes.self (hs : Sound browser) (hr : Ready settings browser) : Reframes settings browser (some browser) :=
  ⟨browser, rfl, hs, hr, .refl browser, id⟩

theorem shifted_reframed (browser : NSBrowser) (shiftAmount : Int) : Reframed browser (browser.shifted shiftAmount) :=
  ⟨⟨0, (List.append_nil _).symm⟩, rfl, rfl⟩

theorem shifted_tiled (ht : Tiled settings browser) (shiftAmount : Int) :
    Tiled settings (browser.shifted shiftAmount) := by
  have hw : (browser.shifted shiftAmount).lastVisibleColumn - (browser.shifted shiftAmount).firstVisibleColumn =
      browser.lastVisibleColumn - browser.firstVisibleColumn := by
    simp only [shifted]
    omega
  rw [Tiled, columnCount_congr hw rfl rfl, hw]
  exact ht

theorem shifted_sound (hs : Sound browser) {shiftAmount : Int} (hf : 0 ≤ browser.firstVisibleColumn + shiftAmount)
    (hl : browser.lastVisibleColumn + shiftAmount < browser.browserColumns.length) :
    Sound (browser.shifted shiftAmount) :=
  hs.reframed (shifted_reframed browser shiftAmount) hf (Int.add_le_add_right hs.first_le_last _) hl
    hs.maxVisibleColumns_pos

theorem scrollColumnsLeftBy_spec (hs : Sound browser) (hr : Ready settings browser) (shiftAmount : Int) :
    Reframes settings browser (browser.scrollColumnsLeftBy settings shiftAmount) := by
  unfold scrollColumnsLeftBy
  dsimp only
  generalize hsh : (if browser.firstVisibleColumn - shiftAmount < 0 then browser.firstVisibleColumn
    else shiftAmount) = shift
  have hsh : shift ≤ browser.firstVisibleColumn := by
    rw [← hsh]
    split <;> omega
  by_cases hle : shift ≤ 0
  · rw [if_pos hle]
    exact .self hs hr
  · have ht : Tiled settings browser := hr.resolve_right fun h => by
      have hz := h.2.1
      omega
    have hlt := hs.lastVisibleColumn_lt
    have hs' : Sound (browser.shifted (-shift)) := shifted_sound hs (by omega) (by omega)
    have ht' := shifted_tiled ht (-shift)
    rw [if_neg hle, tile_of_tiled hs' ht', Option.bind_eq_bind, Option.bind_some, remapColumnSubviews_true hs']
    exact ⟨_, rfl, hs', .inl ht', shifted_reframed _ _, fun _ => ht'⟩

theorem scrollColumnsRightBy_spec (hs : Sound browser) (hr : Ready settings browser) (shiftAmount : Int) :
    Reframes settings browser (browser.scrollColumnsRightBy settings shiftAmount) := by
  unfold scrollColumnsRightBy
  dsimp only
  generalize hsh : (if shiftAmount + browser.lastVisibleColumn > browser.lastColumnLoaded then
    browser.lastColumnLoaded - browser.lastVisibleColumn else shiftAmount) = shift
  have hsh : shift + browser.lastVisibleColumn ≤ browser.lastColumnLoaded := by
    rw [← hsh]
    split <;> omega
  have hl := hs.lastColumnLoaded_lt
  by_cases hle : shift ≤ 0
  · rw [if_pos hle]
    exact .self hs hr
  · have ht : Tiled settings browser := hr.resolve_right fun h => by
      have hn := h.1
      have hz := h.2.2
      omega
    have hf := hs.firstVisibleColumn_nonneg
    have hs' : Sound (browser.shifted shift) := shifted_sound hs (by omega) (by omega)
    have ht' := shifted_tiled ht shift
    have hp : 0 < (browser.shifted shift).firstVisibleColumn := by
      simp only [shifted]
      omega
    rw [if_neg hle, tile_of_tiled hs' ht', Option.bind_eq_bind, Option.bind_some, remapColumnSubviews_false hs' hp]
    exact ⟨_, rfl, hs', .inl ht', shifted_reframed _ _, fun _ => ht'⟩

theorem scrollColumnToVisible_spec (hs : Sound browser) (hr : Ready settings browser) (column : Int) :
    Reframes settings browser (browser.scrollColumnToVisible settings column) := by
  unfold scrollColumnToVisible
  split
  · exact scrollColumnsRightBy_spec hs hr _
  · split
    · exact scrollColumnsLeftBy_spec hs hr _
    · exact .self hs hr

/-! ## Unloading -/

theorem unloadColumns_eq (reusesColumns : Bool) (lastVisibleColumn i : Int) (columns : List NSBrowserColumn) :
    unloadColumns reusesColumns lastVisibleColumn i columns =
      (columns.map ({ · with isLoaded := false })).take
        (if reusesColumns then columns.length else (lastVisibleColumn + 1 - i).toNat) := by
  induction columns generalizing i with
  | nil => rw [unloadColumns, List.map_nil, List.take_nil]
  | cons column columns ih =>
    rw [unloadColumns]
    cases reusesColumns with
    | true =>
      simp only [Bool.true_eq_false, false_and, if_false, if_true] at ih ⊢
      rw [ih]
      rfl
    | false =>
      simp only [true_and, Bool.false_eq_true, if_false] at ih ⊢
      split
      · rename_i hlt
        have hz : (lastVisibleColumn + 1 - i).toNat = 0 := by omega
        rw [ih, hz, List.take_zero, List.take_zero]
      · rename_i hle
        have hs : (lastVisibleColumn + 1 - i).toNat = (lastVisibleColumn + 1 - (i + 1)).toNat + 1 := by omega
        rw [ih, hs]
        rfl

/-- If there is a matrix in column `i`, then it is the one that was there. -/
def MatrixKept (i : Nat) (before after : NSBrowser) : Prop :=
  ∀ column, after.browserColumns[i]? = some column → column.columnMatrix = none ∨
    ∃ old, before.browserColumns[i]? = some old ∧ old.columnMatrix = column.columnMatrix

theorem MatrixKept.of_eq {i : Nat} (h : after.browserColumns[i]? = before.browserColumns[i]?) :
    MatrixKept i before after :=
  fun column hc => .inr ⟨column, h.symm.trans hc, rfl⟩

theorem MatrixKept.trans {i : Nat} (h : MatrixKept i before middle) (h' : MatrixKept i middle after) :
    MatrixKept i before after := by
  intro column hc
  obtain hn | ⟨old, ho, heq⟩ := h' column hc
  · exact .inl hn
  · rw [← heq]
    exact h old ho

theorem Reframed.matrixKept (h : Reframed before after) (i : Nat) : MatrixKept i before after := by
  by_cases hi : i < before.browserColumns.length
  · exact .of_eq (h.getElem? hi)
  · intro column hc
    obtain ⟨count, hcnt⟩ := h.columns
    rw [hcnt, List.getElem?_append_right (not_lt.mp hi)] at hc
    rw [List.eq_of_mem_replicate (List.mem_of_getElem? hc)]
    exact .inl rfl

/-- The columns up to `column` are left alone, and the others keep at most their matrices. -/
structure Lasts (column : Int) (before after : NSBrowser) : Prop where
  lastColumnLoaded : after.lastColumnLoaded = column
  loaded : ∀ i : Nat, (i : Int) ≤ column → after.browserColumns[i]? = before.browserColumns[i]?
  kept : ∀ i, MatrixKept i before after
  cellsMade : after.cellsMade = before.cellsMade

theorem Lasts.self (browser : NSBrowser) : Lasts browser.lastColumnLoaded browser browser :=
  ⟨rfl, fun _ _ => rfl, fun _ => .of_eq rfl, rfl⟩

theorem Lasts.reframed {column : Int} (h : Lasts column before middle) (hf : Reframed middle after)
    (hlt : column < middle.browserColumns.length) : Lasts column before after := by
  refine ⟨hf.lastColumnLoaded.trans h.lastColumnLoaded, fun i hi => ?_,
    fun i => (h.kept i).trans (hf.matrixKept i), hf.cellsMade.trans h.cellsMade⟩
  rw [hf.getElem? (by omega)]
  exact h.loaded i hi

section UnloadAfter

variable {column : Int}

theorem unloadAfter_loaded (hlt : column < browser.browserColumns.length) {i : Nat} (hi : (i : Int) ≤ column) :
    (browser.unloadAfter settings column).browserColumns[i]? = browser.browserColumns[i]? := by
  have hl : i < (browser.browserColumns.take (column + 1).toNat).length := by
    rw [List.length_take]
    omega
  rw [unloadAfter, List.getElem?_append_left hl, List.getElem?_take_of_lt (by omega)]

/-- A later column that is still there has been unloaded. -/
theorem unloadAfter_unloaded (hlt : column < browser.browserColumns.length) {i : Nat} (hi : column < i)
    {browserColumn : NSBrowserColumn}
    (h : (browser.unloadAfter settings column).browserColumns[i]? = some browserColumn) :
    ∃ old, browser.browserColumns[i]? = some old ∧ browserColumn = { old with isLoaded := false } := by
  have hl : (browser.browserColumns.take (column + 1).toNat).length = (column + 1).toNat := by
    rw [List.length_take]
    omega
  rw [unloadAfter, List.getElem?_append_right (by omega), hl, unloadColumns_eq] at h
  generalize (if settings.reusesColumns = true then (browser.browserColumns.drop (column + 1).toNat).length
    else (browser.lastVisibleColumn + 1 - (column + 1)).toNat) = count at h
  rw [List.getElem?_take] at h
  split at h
  · rw [List.getElem?_map, List.getElem?_drop, Option.map_eq_some_iff] at h
    obtain ⟨old, ho, rfl⟩ := h
    refine ⟨old, ?_, rfl⟩
    rw [← ho]
    congr 1
    omega
  · exact absurd h nofun

variable (settings) in
theorem length_unloadAfter (hge : -1 ≤ column) (hlt : column < browser.browserColumns.length)
    (hl : browser.lastVisibleColumn < browser.browserColumns.length) :
    column < (browser.unloadAfter settings column).browserColumns.length ∧
      browser.lastVisibleColumn < (browser.unloadAfter settings column).browserColumns.length := by
  rw [unloadAfter, List.length_append, unloadColumns_eq, List.length_take, List.length_take, List.length_map,
    List.length_drop]
  constructor
  · omega
  · split <;> omega

variable (settings) in
theorem unloadAfter_sound (hs : Sound browser) (hge : -1 ≤ column) (hle : column ≤ browser.lastColumnLoaded) :
    Sound (browser.unloadAfter settings column) := by
  have hlt : column < browser.browserColumns.length := lt_of_le_of_lt hle hs.lastColumnLoaded_lt
  obtain ⟨hc, hls⟩ := length_unloadAfter settings hge hlt hs.lastVisibleColumn_lt
  refine ⟨hge, hc, fun i browserColumn hg => ?_, fun i browserColumn hg hl => ?_,
    hs.firstVisibleColumn_nonneg, hs.first_le_last, hls, hs.maxVisibleColumns_pos⟩
  · change browserColumn.isLoaded = true ↔ (i : Int) ≤ column
    by_cases hi : (i : Int) ≤ column
    · rw [unloadAfter_loaded hlt hi] at hg
      rw [hs.isLoaded_iff i browserColumn hg]
      exact ⟨fun _ => hi, fun _ => hi.trans hle⟩
    · obtain ⟨old, -, rfl⟩ := unloadAfter_unloaded hlt (not_le.mp hi) hg
      exact ⟨fun h => absurd h Bool.false_ne_true, fun h => absurd h hi⟩
  · by_cases hi : (i : Int) ≤ column
    · rw [unloadAfter_loaded hlt hi] at hg
      exact hs.hasMatrix i browserColumn hg hl
    · obtain ⟨old, -, rfl⟩ := unloadAfter_unloaded hlt (not_le.mp hi) hg
      exact absurd hl Bool.false_ne_true

variable (settings) in
theorem unloadAfter_lasts (hlt : column < browser.browserColumns.length) :
    Lasts column browser (browser.unloadAfter settings column) := by
  refine ⟨rfl, fun i hi => unloadAfter_loaded hlt hi, fun i => ?_, rfl⟩
  by_cases hi : (i : Int) ≤ column
  · exact .of_eq (unloadAfter_loaded hlt hi)
  · intro browserColumn hg
    obtain ⟨old, ho, rfl⟩ := unloadAfter_unloaded hlt (not_le.mp hi) hg
    exact .inr ⟨old, ho, rfl⟩

theorem unloadAfter_ready (hr : Ready settings browser) (hge : -1 ≤ column) (hle : column ≤ browser.lastColumnLoaded) :
    Ready settings (browser.unloadAfter settings column) := by
  obtain ht | ⟨hn, hf, hl⟩ := hr
  · exact .inl ht
  · refine .inr ⟨?_, hf, hl⟩
    change column = -1
    omega

end UnloadAfter

/-- What a call does after which `column` is the last one. -/
def LastsIn (settings : Settings) (column : Int) (before : NSBrowser) (call : Option NSBrowser) : Prop :=
  ∃ after, call = some after ∧ Sound after ∧ Ready settings after ∧ Lasts column before after ∧
    (Tiled settings before → Tiled settings after)

theorem scrolled_lastsIn {column : Int} (hs : Sound middle) (hr : Ready settings middle)
    (hl : Lasts column before middle) (ht : Tiled settings before → Tiled settings middle) (target : Int) :
    LastsIn settings column before (middle.scrollColumnToVisible settings target) := by
  obtain ⟨after, ha, hs', hr', hf, ht'⟩ := scrollColumnToVisible_spec hs hr target
  have hlt := hs.lastColumnLoaded_lt
  rw [hl.lastColumnLoaded] at hlt
  exact ⟨after, ha, hs', hr', hl.reframed hf hlt, fun h => ht' (ht h)⟩

theorem setLastColumn_spec (hs : Sound browser) (hr : Ready settings browser) (column : Int) :
    LastsIn settings (min (max column (-1)) browser.lastColumnLoaded) browser
      (browser.setLastColumn settings column) := by
  have hge := hs.lastColumnLoaded_ge
  unfold setLastColumn
  split
  · rename_i hgt
    rw [min_eq_right (by omega)]
    exact ⟨browser, rfl, hs, hr, .self browser, id⟩
  · rename_i hle
    rw [min_eq_left (by omega)]
    split
    · rename_i hn
      rw [max_eq_right (by omega)]
      have hlt : (-1 : Int) < browser.browserColumns.length := lt_of_le_of_lt hge hs.lastColumnLoaded_lt
      have hu := unloadAfter_sound settings hs le_rfl hge
      have hs' : Sound { browser.unloadAfter settings (-1) with isLoaded := false } :=
        ⟨hu.1, hu.2, hu.3, hu.4, hu.5, hu.6, hu.7, hu.8⟩
      have hl := unloadAfter_lasts settings hlt
      have hr' : Ready settings (browser.unloadAfter settings (-1)) := unloadAfter_ready hr le_rfl hge
      have hr' : Ready settings { browser.unloadAfter settings (-1) with isLoaded := false } := hr'
      exact scrolled_lastsIn hs' hr' ⟨hl.1, hl.2, hl.3, hl.4⟩ id (-1)
    · rename_i hp
      rw [max_eq_left (by omega)]
      have hlt : column < browser.browserColumns.length := lt_of_le_of_lt (not_lt.mp hle) hs.lastColumnLoaded_lt
      exact scrolled_lastsIn (unloadAfter_sound settings hs (by omega) (not_lt.mp hle))
        (unloadAfter_ready hr (by omega) (not_lt.mp hle)) (unloadAfter_lasts settings hlt) id column

/-! ## Looking at columns -/

theorem columnAt_of_lt {column : Nat} (hlt : column < browser.browserColumns.length) :
    browser.columnAt column = some browser.browserColumns[column] := by
  rw [columnAt, if_neg (by omega), Int.toNat_natCast, List.getElem?_eq_getElem hlt]

theorem matrixInColumn_loaded (hs : Sound browser) {column : Nat} (hle : (column : Int) ≤ browser.lastColumnLoaded) :
    ∃ matrix, browser.matrixInColumn column = some (some matrix) ∧
      browser.browserColumns[column]? = some ⟨true, some matrix⟩ := by
  have hlt : column < browser.browserColumns.length := by
    have := hs.lastColumnLoaded_lt
    omega
  have hg := List.getElem?_eq_getElem hlt
  have hl := (hs.isLoaded_iff column _ hg).mpr hle
  obtain ⟨matrix, hm⟩ := Option.isSome_iff_exists.mp (hs.hasMatrix column _ hg hl)
  refine ⟨matrix, ?_, ?_⟩
  · rw [matrixInColumn, if_neg (by omega), columnAt_of_lt hlt, Option.bind_eq_bind, Option.bind_some, hl,
      hm]
    rfl
  · rw [hg, ← hl, ← hm]

theorem matrixInColumn_other {column : Int} (h : column < 0 ∨ browser.lastColumnLoaded < column) :
    browser.matrixInColumn column = some none := by
  rw [matrixInColumn, if_pos h]

theorem matrixInColumn_isSome (hs : Sound browser) (column : Int) :
    ∃ matrix, browser.matrixInColumn column = some matrix := by
  by_cases h : column < 0 ∨ browser.lastColumnLoaded < column
  · exact ⟨none, matrixInColumn_other h⟩
  · obtain ⟨i, rfl⟩ := Int.eq_ofNat_of_zero_le (a := column) (by omega)
    have hle : (i : Int) ≤ browser.lastColumnLoaded := by omega
    obtain ⟨matrix, hm, -⟩ := matrixInColumn_loaded hs hle
    exact ⟨some matrix, hm⟩

theorem selectedCellInColumn_isSome (hs : Sound browser) (column : Int) :
    ∃ cell, browser.selectedCellInColumn column = some cell := by
  obtain ⟨matrix, hm⟩ := matrixInColumn_isSome hs column
  exact ⟨_, by rw [selectedCellInColumn, hm]; rfl⟩

theorem titlesFrom_isSome (hs : Sound browser) (columns : Nat) (column : Int) :
    ∃ titles, browser.titlesFrom columns column = some titles := by
  induction columns generalizing column with
  | zero => exact ⟨[], rfl⟩
  | succ columns ih =>
    obtain ⟨cell, hc⟩ := selectedCellInColumn_isSome hs column
    obtain ⟨titles, ht⟩ := ih (column + 1)
    rw [titlesFrom, hc]
    cases cell with
    | none => exact ⟨[], rfl⟩
    | some cell =>
      simp only [Option.bind_eq_bind, Option.bind_some, ht]
      exact ⟨_, rfl⟩

theorem titlesToColumn_isSome (hs : Sound browser) (column : Int) :
    ∃ titles, browser.titlesToColumn column = some titles := titlesFrom_isSome hs _ _

/-! ## Loading -/

/-- `column` has been loaded with this matrix. -/
structure Loads (column : Nat) (matrix : NSMatrix) (before after : NSBrowser) : Prop where
  lastColumnLoaded : after.lastColumnLoaded = max (column : Int) before.lastColumnLoaded
  loaded : after.browserColumns[column]? = some ⟨true, some matrix⟩
  others : ∀ i : Nat, (i : Int) ≤ before.lastColumnLoaded → i ≠ column →
    after.browserColumns[i]? = before.browserColumns[i]?
  kept : ∀ i, i ≠ column → MatrixKept i before after

/-- `_performLoadOfColumn:` before it displays the column. -/
def filled (browser : NSBrowser) (column : Nat) (matrix : NSMatrix) (cellsMade : Nat) : NSBrowser :=
  { browser with
    browserColumns := browser.browserColumns.set column ⟨true, some matrix⟩
    lastColumnLoaded := if (column : Int) > browser.lastColumnLoaded then (column : Int) else browser.lastColumnLoaded
    cellsMade := cellsMade }

section Filled

variable {column : Nat} {matrix : NSMatrix} {cellsMade : Nat}

theorem filled_getElem? {i : Nat} (hne : i ≠ column) :
    (browser.filled column matrix cellsMade).browserColumns[i]? = browser.browserColumns[i]? :=
  List.getElem?_set_ne hne.symm

theorem filled_lastColumnLoaded : (browser.filled column matrix cellsMade).lastColumnLoaded =
    max (column : Int) browser.lastColumnLoaded := by
  simp only [filled]
  split <;> omega

theorem filled_sound (hs : Sound browser) (hlt : column < browser.browserColumns.length)
    (hle : (column : Int) ≤ browser.lastColumnLoaded + 1) : Sound (browser.filled column matrix cellsMade) := by
  have hl : (browser.filled column matrix cellsMade).browserColumns.length = browser.browserColumns.length :=
    List.length_set
  have hsl : (browser.filled column matrix cellsMade).browserColumns[column]? = some ⟨true, some matrix⟩ :=
    List.getElem?_set_self hlt
  have hls := hs.lastColumnLoaded_lt
  refine ⟨?_, ?_, fun i browserColumn hg => ?_, fun i browserColumn hg hld => ?_,
    hs.firstVisibleColumn_nonneg, hs.first_le_last, ?_, hs.maxVisibleColumns_pos⟩
  · rw [filled_lastColumnLoaded]
    omega
  · rw [filled_lastColumnLoaded, hl]
    omega
  · rw [filled_lastColumnLoaded]
    by_cases hi : i = column
    · subst hi
      obtain rfl := Option.some.inj (hg.symm.trans hsl)
      exact ⟨fun _ => by omega, fun _ => rfl⟩
    · rw [filled_getElem? hi] at hg
      rw [hs.isLoaded_iff i browserColumn hg]
      omega
  · by_cases hi : i = column
    · subst hi
      obtain rfl := Option.some.inj (hg.symm.trans hsl)
      rfl
    · rw [filled_getElem? hi] at hg
      exact hs.hasMatrix i browserColumn hg hld
  · rw [hl]
    exact hs.lastVisibleColumn_lt

theorem filled_loads (hlt : column < browser.browserColumns.length) :
    Loads column matrix browser (browser.filled column matrix cellsMade) :=
  ⟨filled_lastColumnLoaded, List.getElem?_set_self hlt, fun _ _ hne => filled_getElem? hne,
    fun _ hne => .of_eq (filled_getElem? hne)⟩

end Filled

section Loading

variable {delegate : Delegate} {column : Nat} {titles : List Title} {old : NSBrowserColumn} {matrix : NSMatrix}

theorem Loads.reframed (h : Loads column matrix before middle) (hf : Reframed middle after)
    (hlt : middle.lastColumnLoaded < middle.browserColumns.length) : Loads column matrix before after := by
  have hm := h.lastColumnLoaded
  refine ⟨hf.lastColumnLoaded.trans hm, ?_, fun i hi hne => ?_, fun i hne => (h.kept i hne).trans (hf.matrixKept i)⟩
  · rw [hf.getElem? (by omega)]
    exact h.loaded
  · rw [hf.getElem? (by omega)]
    exact h.others i hi hne

variable (delegate) in
/-- A column is loaded with what the delegate shows below the titles selected before it. -/
theorem performLoadOfColumn_spec (hs : Sound browser) (hr : Ready settings browser)
    (ho : browser.browserColumns[column]? = some old) (hle : (column : Int) ≤ browser.lastColumnLoaded + 1)
    (htt : browser.titlesToColumn column = some titles) :
    ∃ after, browser.performLoadOfColumn settings delegate column = some after ∧ Sound after ∧
      Tiled settings after ∧ Loads column (browser.loadedMatrix settings old (delegate titles)).1 browser after := by
  have hlt := (List.getElem?_eq_some_iff.mp ho).1
  have hc : browser.columnAt column = some old := by rw [columnAt, if_neg (by omega), Int.toNat_natCast, ho]
  generalize hm : browser.loadedMatrix settings old (delegate titles) = loaded
  obtain ⟨matrix, cellsMade⟩ := loaded
  have hp : browser.performLoadOfColumn settings delegate column =
      if (column : Int) < browser.firstVisibleColumn ∨ (column : Int) > browser.lastVisibleColumn then
        some (browser.filled column matrix cellsMade)
      else (browser.filled column matrix cellsMade).tile settings := by
    rw [performLoadOfColumn, htt, hc]
    simp only [Option.bind_eq_bind, Option.bind_some, hm]
    rfl
  have hf : Sound (browser.filled column matrix cellsMade) := filled_sound hs hlt hle
  have hl : Loads column matrix browser (browser.filled column matrix cellsMade) := filled_loads hlt
  rw [hp]
  split
  · rename_i hh
    refine ⟨_, rfl, hf, hr.resolve_right ?_, hl⟩
    rintro ⟨hn, hfst, hls⟩
    omega
  · obtain ⟨after, ha, hs', ht, hfrd⟩ := tile_spec settings hf
    exact ⟨after, ha, hs', ht, hl.reframed hfrd hf.lastColumnLoaded_lt⟩

/-- The column after the last one has been loaded with this matrix. -/
structure AddsColumn (matrix : NSMatrix) (before after : NSBrowser) : Prop where
  lastColumnLoaded : after.lastColumnLoaded = before.lastColumnLoaded + 1
  loaded : after.browserColumns[(before.lastColumnLoaded + 1).toNat]? = some ⟨true, some matrix⟩
  others : ∀ i : Nat, (i : Int) ≤ before.lastColumnLoaded → after.browserColumns[i]? = before.browserColumns[i]?
  kept : ∀ i : Nat, (i : Int) ≠ before.lastColumnLoaded + 1 → MatrixKept i before after

/-- The column object that is loaded next, and a new one where there is none. -/
def nextColumn (browser : NSBrowser) : NSBrowserColumn :=
  (browser.browserColumns[(browser.lastColumnLoaded + 1).toNat]?).getD createdColumn

/-- The titles selected in the loaded columns up to the first one without. -/
def selectedTitles (browser : NSBrowser) : List Title :=
  (browser.titlesToColumn (browser.lastColumnLoaded + 1)).getD []

theorem titlesToColumn_eq (hs : Sound browser) :
    browser.titlesToColumn (browser.lastColumnLoaded + 1) = some browser.selectedTitles := by
  obtain ⟨titles, ht⟩ := titlesToColumn_isSome hs (browser.lastColumnLoaded + 1)
  rw [selectedTitles, ht]
  rfl

theorem titlesFrom_congr (hl : after.lastColumnLoaded = before.lastColumnLoaded)
    (hc : ∀ i : Nat, (i : Int) ≤ before.lastColumnLoaded →
      after.browserColumns[i]? = before.browserColumns[i]?) (columns : Nat) (i : Nat) :
    after.titlesFrom columns i = before.titlesFrom columns i := by
  have hm (i : Nat) : after.matrixInColumn i = before.matrixInColumn i := by
    rw [matrixInColumn, matrixInColumn, hl]
    split
    · rfl
    · rename_i h
      rw [columnAt, columnAt, if_neg (by omega), if_neg (by omega), Int.toNat_natCast, hc i (by omega)]
  induction columns generalizing i with
  | zero => rfl
  | succ columns ih =>
    rw [titlesFrom, titlesFrom, selectedCellInColumn, selectedCellInColumn, hm]
    have hn := ih (i + 1)
    push_cast at hn
    rw [hn]

/-- `addColumn` has a column object to load. -/
theorem exists_nextColumn (hs : Sound browser) (hr : Ready settings browser) {column : Nat}
    (hc : browser.lastColumnLoaded + 1 = column) : ∃ ready,
      (if browser.lastColumnLoaded + 1 ≥ (browser.browserColumns.length : Int) then
        browser.createColumns (browser.browserColumns.length + 1) else browser) = ready ∧
      Reframed browser ready ∧ Sound ready ∧ Ready settings ready ∧
      ready.browserColumns[column]? = some browser.nextColumn := by
  have hn : browser.nextColumn = (browser.browserColumns[column]?).getD createdColumn := by
    rw [nextColumn, hc, Int.toNat_natCast]
  have hlt := hs.lastColumnLoaded_lt
  split
  · rename_i hfl
    have hl : browser.browserColumns.length = column := by omega
    have hf := createColumns_reframed browser (browser.browserColumns.length + 1)
    have hm := length_createColumns browser (browser.browserColumns.length + 1)
    have hls := hs.lastVisibleColumn_lt
    have hls' : browser.lastVisibleColumn <
        (browser.createColumns (browser.browserColumns.length + 1)).browserColumns.length := by
      rw [hm]
      omega
    refine ⟨_, rfl, hf, hs.reframed hf hs.firstVisibleColumn_nonneg hs.first_le_last hls'
      hs.maxVisibleColumns_pos, hr, ?_⟩
    have ho : ((browser.browserColumns.length : Int) + 1).toNat - browser.browserColumns.length = 1 := by omega
    have hnn : browser.browserColumns[column]? = none := List.getElem?_eq_none (by omega)
    rw [hn, hnn]
    simp only [createColumns, ho]
    rw [List.getElem?_append_right (by omega), hl, Nat.sub_self]
    rfl
  · rename_i hrm
    refine ⟨browser, rfl, .refl browser, hs, hr, ?_⟩
    rw [hn, List.getElem?_eq_getElem (by omega)]
    rfl

variable (delegate) in
theorem addColumn_spec (hs : Sound browser) (hr : Ready settings browser) :
    ∃ after, browser.addColumn settings delegate = some after ∧ Sound after ∧ Tiled settings after ∧
      AddsColumn (browser.loadedMatrix settings browser.nextColumn (delegate browser.selectedTitles)).1
        browser after := by
  have hge := hs.lastColumnLoaded_ge
  have hlt := hs.lastColumnLoaded_lt
  obtain ⟨column, hc⟩ := Int.eq_ofNat_of_zero_le (a := browser.lastColumnLoaded + 1) (by omega)
  obtain ⟨ready, hcr, hf, hs₁, hr₁, hn⟩ := exists_nextColumn hs hr hc
  have hidx : (if browser.lastColumnLoaded + 1 ≥ (browser.browserColumns.length : Int) then
      (browser.browserColumns.length : Int) else browser.lastColumnLoaded + 1) = column := by
    split <;> omega
  have htt : ready.titlesToColumn column = some browser.selectedTitles := by
    rw [← titlesToColumn_eq hs, titlesToColumn, titlesToColumn, if_pos (by rw [hf.lastColumnLoaded]; omega),
      if_pos (by omega), hf.lastColumnLoaded]
    exact titlesFrom_congr hf.lastColumnLoaded (fun i hi => hf.getElem? (by omega)) _ 0
  obtain ⟨loaded, hld, hs₂, ht₂, hls⟩ := performLoadOfColumn_spec delegate hs₁ hr₁
    hn (by rw [hf.lastColumnLoaded]; omega) htt
  have hla₂ : loaded.lastColumnLoaded = column := by
    rw [hls.lastColumnLoaded, hf.lastColumnLoaded]
    omega
  have hmin : min (max (column : Int) (-1)) loaded.lastColumnLoaded = column := by omega
  obtain ⟨kept, hk, hs₃, -, hl, ht₃⟩ := setLastColumn_spec hs₂ (.inl ht₂) (column : Int)
  rw [hmin] at hl
  have hm : Sound { kept with isLoaded := true } := ⟨hs₃.1, hs₃.2, hs₃.3, hs₃.4, hs₃.5, hs₃.6, hs₃.7, hs₃.8⟩
  have ht : Tiled settings { kept with isLoaded := true } := ht₃ ht₂
  have hmat : (ready.loadedMatrix settings browser.nextColumn (delegate browser.selectedTitles)).1 =
      (browser.loadedMatrix settings browser.nextColumn (delegate browser.selectedTitles)).1 := by
    rw [loadedMatrix, loadedMatrix, hf.cellsMade]
  have had : AddsColumn (browser.loadedMatrix settings browser.nextColumn (delegate browser.selectedTitles)).1
      browser { kept with isLoaded := true } := by
    refine ⟨hl.lastColumnLoaded.trans hc.symm, ?_, fun i hi => ?_, fun i hne => ?_⟩
    · rw [hc, Int.toNat_natCast, ← hmat]
      exact (hl.loaded column le_rfl).trans hls.loaded
    · have hi' : (i : Int) ≤ ready.lastColumnLoaded := by rwa [hf.lastColumnLoaded]
      refine (hl.loaded i (by omega)).trans ((hls.others i hi' (by omega)).trans ?_)
      exact hf.getElem? (by omega)
    · exact ((hf.matrixKept i).trans (hls.kept i (by omega))).trans (hl.kept i)
  have ha : browser.addColumn settings delegate =
      if (column : Int) > 0 ∧ (column : Int) - 1 = kept.lastVisibleColumn then
        scrollColumnsRightBy settings { kept with isLoaded := true } 1
      else some { kept with isLoaded := true } := by
    unfold addColumn
    simp only [hidx, hcr, if_neg (Int.not_lt.mpr (Int.natCast_nonneg column)), hld, hk,
      tile_of_tiled hm ht, Option.bind_eq_bind, Option.bind_some]
    rfl
  rw [ha]
  split
  · obtain ⟨after, haft, hs', hr', hf', ht'⟩ := scrollColumnsRightBy_spec hm (.inl ht) 1
    refine ⟨after, haft, hs', ht' ht, ?_⟩
    have hlt' := hm.lastColumnLoaded_lt
    have hla' := had.lastColumnLoaded
    refine ⟨hf'.lastColumnLoaded.trans hla', ?_, fun i hi => ?_,
      fun i hne => (had.kept i hne).trans (hf'.matrixKept i)⟩
    · rw [hf'.getElem? (by omega)]
      exact had.loaded
    · rw [hf'.getElem? (by omega)]
      exact had.others i hi
  · exact ⟨_, rfl, hm, ht, had⟩

end Loading

/-! ## The calls -/

/-- A call that is not `none` leaves a browser that is sound, and tiled if it was. -/
def Safe (settings : Settings) (before : NSBrowser) (call : Option NSBrowser) : Prop :=
  ∃ after, call = some after ∧ Sound after ∧ Ready settings after ∧ (Tiled settings before → Tiled settings after)

theorem Safe.self (hs : Sound browser) (hr : Ready settings browser) : Safe settings browser (some browser) :=
  ⟨browser, rfl, hs, hr, id⟩

theorem Reframes.safe {call : Option NSBrowser} (h : Reframes settings before call) : Safe settings before call := by
  obtain ⟨after, ha, hs, hr, -, ht⟩ := h
  exact ⟨after, ha, hs, hr, ht⟩

theorem LastsIn.safe {column : Int} {call : Option NSBrowser} (h : LastsIn settings column before call) :
    Safe settings before call := by
  obtain ⟨after, ha, hs, hr, -, ht⟩ := h
  exact ⟨after, ha, hs, hr, ht⟩

variable {delegate : Delegate}

variable (delegate) in
/-- `loadColumnZero` loads the first column, and unloads the others. -/
theorem loadColumnZero_spec (hs : Sound browser) (hr : Ready settings browser) :
    ∃ empty after, browser.loadColumnZero settings delegate = some after ∧ Sound after ∧ Tiled settings after ∧
      Sound empty ∧ Lasts (-1) browser empty ∧
      AddsColumn (empty.loadedMatrix settings empty.nextColumn (delegate empty.selectedTitles)).1 empty after := by
  have hge := hs.lastColumnLoaded_ge
  obtain ⟨empty, he, hs₁, hr₁, hl, -⟩ := setLastColumn_spec hs hr (-1)
  rw [max_self, min_eq_left hge] at hl
  obtain ⟨after, ha, hs₂, ht, had⟩ := addColumn_spec delegate hs₁ hr₁
  refine ⟨empty, after, ?_, hs₂, ht, hs₁, hl, had⟩
  rw [loadColumnZero, he]
  simp only [Option.bind_eq_bind, Option.bind_some, ha, remapColumnSubviews_true hs₂]
  rfl

theorem setMatrix_getElem? (browser : NSBrowser) (column : Int) (matrix : NSMatrix) (i : Nat) :
    (browser.setMatrix column matrix).browserColumns[i]? =
      browser.browserColumns[i]?.map fun browserColumn =>
        if column.toNat = i then { browserColumn with columnMatrix := some matrix } else browserColumn := by
  rw [setMatrix, List.getElem?_modify]
  rfl

theorem setMatrix_sound (hs : Sound browser) (column : Int) (matrix : NSMatrix) :
    Sound (browser.setMatrix column matrix) := by
  have hl : (browser.setMatrix column matrix).browserColumns.length = browser.browserColumns.length :=
    List.length_modify ..
  have hc {i : Nat} {browserColumn : NSBrowserColumn}
      (hg : (browser.setMatrix column matrix).browserColumns[i]? = some browserColumn) :
      ∃ old, browser.browserColumns[i]? = some old ∧ browserColumn.isLoaded = old.isLoaded ∧
        (old.columnMatrix.isSome → browserColumn.columnMatrix.isSome) := by
    rw [setMatrix_getElem?, Option.map_eq_some_iff] at hg
    obtain ⟨old, ho, rfl⟩ := hg
    refine ⟨old, ho, ?_, fun h => ?_⟩
    · split <;> rfl
    · split
      · rfl
      · exact h
  refine ⟨hs.1, ?_, fun i browserColumn hg => ?_, fun i browserColumn hg hld => ?_, hs.5, hs.6, ?_, hs.8⟩
  · rw [hl]
    exact hs.lastColumnLoaded_lt
  · obtain ⟨old, ho, heq, -⟩ := hc hg
    rw [heq]
    exact hs.isLoaded_iff i old ho
  · obtain ⟨old, ho, heq, hsm⟩ := hc hg
    exact hsm (hs.hasMatrix i old ho (heq ▸ hld))
  · rw [hl]
    exact hs.lastVisibleColumn_lt

theorem selectRow_safe (hs : Sound browser) (hr : Ready settings browser) (row column : Int) :
    Safe settings browser (browser.selectRow settings delegate row column) := by
  obtain ⟨matrix, hm⟩ := matrixInColumn_isSome hs column
  unfold selectRow
  rw [hm]
  cases matrix with
  | none => exact .self hs hr
  | some matrix =>
    cases hc : matrix.cellAtRow row with
    | none =>
      simp only [Option.bind_eq_bind, Option.bind_some, hc]
      exact .self hs hr
    | some cell =>
      obtain ⟨last, hl, hs', hr', -, ht'⟩ := setLastColumn_spec hs hr column
      simp only [Option.bind_eq_bind, Option.bind_some, hc, hl]
      have hsel (selected : NSMatrix) := setMatrix_sound hs' column selected
      split
      · exact ⟨_, rfl, hsel _, hr', ht'⟩
      · obtain ⟨after, ha, hs'', ht'', -⟩ := addColumn_spec delegate (hsel _) hr'
        exact ⟨after, ha, hs'', .inl ht'', fun _ => ht''⟩

theorem reloadColumn_safe (hs : Sound browser) (hr : Ready settings browser) (column : Int) :
    Safe settings browser (browser.reloadColumn settings delegate column) := by
  unfold reloadColumn
  by_cases hc : column < 0 ∨ browser.lastColumnLoaded < column
  · rw [matrixInColumn_other hc]
    exact .self hs hr
  · obtain ⟨i, rfl⟩ := Int.eq_ofNat_of_zero_le (a := column) (by omega)
    have hle : (i : Int) ≤ browser.lastColumnLoaded := by omega
    obtain ⟨matrix, hm, hg⟩ := matrixInColumn_loaded hs hle
    obtain ⟨titles, htt⟩ := titlesToColumn_isSome hs i
    obtain ⟨loaded, hl, hs', ht, -⟩ := performLoadOfColumn_spec delegate hs hr hg
      (by omega) htt
    obtain ⟨last, hls, hs'', -, -, ht'⟩ := setLastColumn_spec hs' (.inl ht) i
    obtain ⟨new, hn⟩ := matrixInColumn_isSome hs'' i
    rw [hm]
    simp only [Option.bind_eq_bind, Option.bind_some, hl, hls, hn]
    cases new with
    | none => exact ⟨last, rfl, hs'', .inl (ht' ht), fun _ => ht' ht⟩
    | some new => exact ⟨_, rfl, setMatrix_sound hs'' _ _, .inl (ht' ht), fun _ => ht' ht⟩

theorem deselect_safe (hs : Sound browser) (hr : Ready settings browser) (i : Nat) :
    Safe settings browser (keepMatching.deselect settings i browser) := by
  obtain ⟨matrix, hm⟩ := matrixInColumn_isSome hs i
  rw [keepMatching.deselect, hm]
  cases matrix with
  | none => exact .self hs hr
  | some matrix => exact ⟨_, rfl, setMatrix_sound hs _ _, hr, id⟩

theorem deselect_lastColumnLoaded {i : Nat} (h : keepMatching.deselect settings i before = some after) :
    after.lastColumnLoaded = before.lastColumnLoaded := by
  rw [keepMatching.deselect] at h
  cases hm : before.matrixInColumn i with
  | none =>
    rw [hm] at h
    exact nomatch h
  | some matrix =>
    rw [hm] at h
    cases matrix with
    | none =>
      obtain rfl := Option.some.inj h
      rfl
    | some matrix =>
      obtain rfl := Option.some.inj h
      rfl

theorem keepMatching_safe (hs : Sound browser) (hr : Ready settings browser) (columns i : Nat)
    (titles : List Title) (column : Nat) :
    ∃ after, ∃ last : Nat, keepMatching settings columns i titles column browser = some (after, (last : Int)) ∧
      Sound after ∧ Ready settings after ∧ (Tiled settings browser → Tiled settings after) ∧
      after.lastColumnLoaded = browser.lastColumnLoaded ∧ (last = column ∨ last < i + columns) := by
  induction columns generalizing i titles column with
  | zero => exact ⟨browser, column, rfl, hs, hr, id, rfl, .inl rfl⟩
  | succ columns ih =>
    obtain ⟨cell, hc⟩ := selectedCellInColumn_isSome hs i
    obtain ⟨after, ha, hs', hr', ht'⟩ := deselect_safe hs hr i
    have hl := deselect_lastColumnLoaded ha
    rw [keepMatching, hc]
    cases titles with
    | nil =>
      simp only [Option.bind_eq_bind, Option.bind_some, ha]
      exact ⟨after, column, rfl, hs', hr', ht', hl, .inl rfl⟩
    | cons title titles =>
      simp only [Option.bind_eq_bind, Option.bind_some]
      split
      · obtain ⟨after, last, hk, hs', hr', ht', hl', hb⟩ := ih (i + 1) titles i
        refine ⟨after, last, hk, hs', hr', ht', hl', .inr ?_⟩
        obtain rfl | hlt := hb <;> omega
      · rw [ha]
        exact ⟨after, column, rfl, hs', hr', ht', hl, .inl rfl⟩

variable (delegate) in
theorem selectTitles_safe (hs : Sound browser) (hr : Ready settings browser) (titles : List Title) {column : Nat}
    (hc : (column : Int) ≤ browser.lastColumnLoaded) :
    Safe settings browser ((selectTitles settings delegate titles column browser).map Prod.fst) := by
  induction titles generalizing browser column with
  | nil => exact .self hs hr
  | cons title titles ih =>
    have hlt : column < browser.browserColumns.length := by
      have hl := hs.lastColumnLoaded_lt
      omega
    rw [selectTitles, columnAt_of_lt hlt]
    simp only [Option.bind_eq_bind, Option.bind_some]
    cases (browser.browserColumns[column]).columnMatrix with
    | none => exact .self hs hr
    | some matrix =>
      dsimp only
      cases rowWithTitle matrix title with
      | none => exact .self hs hr
      | some row =>
        dsimp only
        cases matrix.cellAtRow row with
        | none => exact .self hs hr
        | some cell =>
          dsimp only
          have hsel := setMatrix_sound hs column (matrix.selectCellAtRow settings.matrix row)
          split
          · exact ⟨_, rfl, hsel, hr, id⟩
          · obtain ⟨more, hm, hs', ht, had⟩ := addColumn_spec delegate hsel hr
            have hn : ((column + 1 : Nat) : Int) ≤ more.lastColumnLoaded := by
              rw [had.lastColumnLoaded]
              push_cast
              exact Int.add_le_add_right hc 1
            obtain ⟨after, ha, hs'', hr'', ht''⟩ := ih hs' (.inl ht) hn
            simp only [hm, Option.bind_some]
            push_cast at ha
            exact ⟨after, ha, hs'', hr'', fun _ => ht'' ht⟩

variable (delegate) in
theorem ensureLoaded_spec (hs : Sound browser) (hr : Ready settings browser) : ∃ loaded,
    browser.ensureLoaded settings delegate = some loaded ∧ Sound loaded ∧ Tiled settings loaded ∧
      0 ≤ loaded.lastColumnLoaded := by
  rw [ensureLoaded]
  split
  · obtain ⟨empty, after, ha, hs', ht, -, hl, had⟩ := loadColumnZero_spec delegate hs hr
    refine ⟨after, ha, hs', ht, ?_⟩
    rw [had.lastColumnLoaded, hl.lastColumnLoaded]
    omega
  · refine ⟨browser, rfl, hs, hr.resolve_right ?_, by omega⟩
    rintro ⟨hn, -⟩
    omega

variable (delegate) in
theorem setPath_spec (hs : Sound browser) (hr : Ready settings browser) (path : List Char) :
    ∃ after, (browser.setPath settings delegate path).map Prod.fst = some after ∧ Sound after ∧
      Tiled settings after := by
  obtain ⟨loaded, hld, hs₁, ht₁, hn⟩ := ensureLoaded_spec delegate hs hr
  rw [setPath, hld]
  simp only [Option.bind_eq_bind, Option.bind_some]
  split
  · obtain ⟨kept, column, hk, hs₂, hr₂, ht₂, hls₂, hb⟩ :=
      keepMatching_safe hs₁ (.inl ht₁) (loaded.lastColumnLoaded + 1).toNat 0
        (subStrings settings.pathSeparator path) 0
    obtain ⟨last, hls, hs₃, hr₃, hl, ht₃⟩ := setLastColumn_spec hs₂ hr₂ column
    have hle : (column : Int) ≤ last.lastColumnLoaded := by
      rw [hl.lastColumnLoaded, hls₂]
      omega
    obtain ⟨after, ha, hs₄, hr₄, ht₄⟩ := selectTitles_safe delegate hs₃ hr₃
      ((subStrings settings.pathSeparator path).drop column) hle
    push_cast at hk
    rw [hk]
    simp only [Option.bind_some, hls, Int.toNat_natCast]
    exact ⟨after, ha, hs₄, ht₄ (ht₃ (ht₂ ht₁))⟩
  · obtain ⟨column, hc⟩ := Int.eq_ofNat_of_zero_le hn
    have hle : (column : Int) ≤ loaded.lastColumnLoaded := hc.symm.le
    rw [hc]
    obtain ⟨after, ha, hs₂, -, ht₂⟩ := selectTitles_safe delegate hs₁ (.inl ht₁)
      (subStrings settings.pathSeparator path) hle
    exact ⟨after, ha, hs₂, ht₂ ht₁⟩

end NSBrowser

open NSBrowser

variable {settings : Settings} {browser : NSBrowser} {delegate : Delegate} {call : Call}

/-- The calls that tile a browser that is as new. -/
def Call.Tiles : Call → Prop
  | .loadColumnZero | .addColumn | .setPath _ | .setFrameWidth _ => True
  | .setMaxVisibleColumns columnCount => 1 ≤ columnCount ∧ columnCount ≠ 3
  | _ => False

variable (delegate call) in
/-- No call indexes outside the columns, and each leaves the browser sound. -/
theorem perform_safe (hs : Sound browser) (hr : Ready settings browser) :
    Safe settings browser (call.perform settings delegate browser) := by
  have htl {resized : NSBrowser} (hrs : Sound resized) : Safe settings browser (resized.tile settings) := by
    obtain ⟨after, ha, hs', ht, -⟩ := tile_spec settings hrs
    exact ⟨after, ha, hs', .inl ht, fun _ => ht⟩
  cases call with
  | loadColumnZero =>
    obtain ⟨_, after, ha, hs', ht, -⟩ := loadColumnZero_spec delegate hs hr
    exact ⟨after, ha, hs', .inl ht, fun _ => ht⟩
  | addColumn =>
    obtain ⟨after, ha, hs', ht, -⟩ := addColumn_spec delegate hs hr
    exact ⟨after, ha, hs', .inl ht, fun _ => ht⟩
  | setLastColumn column => exact (setLastColumn_spec hs hr column).safe
  | selectRow row column => exact selectRow_safe hs hr row column
  | setPath path =>
    obtain ⟨after, ha, hs', ht⟩ := setPath_spec delegate hs hr path
    exact ⟨after, ha, hs', .inl ht, fun _ => ht⟩
  | reloadColumn column => exact reloadColumn_safe hs hr column
  | scrollColumnsLeftBy shiftAmount => exact (scrollColumnsLeftBy_spec hs hr shiftAmount).safe
  | scrollColumnsRightBy shiftAmount => exact (scrollColumnsRightBy_spec hs hr shiftAmount).safe
  | scrollColumnToVisible column => exact (scrollColumnToVisible_spec hs hr column).safe
  | setMaxVisibleColumns columnCount =>
    rw [Call.perform, setMaxVisibleColumns]
    split
    · exact .self hs hr
    · rename_i hc
      exact htl ⟨hs.1, hs.2, hs.3, hs.4, hs.5, hs.6, hs.7, by simp only; omega⟩
  | setFrameWidth frameWidth =>
    exact htl ⟨hs.1, hs.2, hs.3, hs.4, hs.5, hs.6, hs.7, hs.8⟩

variable (delegate) in
theorem perform_tiled (hs : Sound browser) (hr : Ready settings browser)
    (hm : Untouched browser → browser.maxVisibleColumns = 3) (htl : call.Tiles) :
    ∃ after, call.perform settings delegate browser = some after ∧ Tiled settings after := by
  cases call with
  | loadColumnZero =>
    obtain ⟨_, after, ha, -, ht, -⟩ := loadColumnZero_spec delegate hs hr
    exact ⟨after, ha, ht⟩
  | addColumn =>
    obtain ⟨after, ha, -, ht, -⟩ := addColumn_spec delegate hs hr
    exact ⟨after, ha, ht⟩
  | setPath path =>
    obtain ⟨after, ha, -, ht⟩ := setPath_spec delegate hs hr path
    exact ⟨after, ha, ht⟩
  | setMaxVisibleColumns columnCount =>
    rw [Call.perform, setMaxVisibleColumns]
    split
    · rename_i hsm
      refine ⟨browser, rfl, hr.resolve_right fun hu => ?_⟩
      have hthr := hm hu
      have hother := htl
      simp only [Call.Tiles] at hother
      omega
    · have hrs : Sound { browser with maxVisibleColumns := columnCount } :=
        ⟨hs.1, hs.2, hs.3, hs.4, hs.5, hs.6, hs.7, htl.1⟩
      obtain ⟨after, ha, -, ht, -⟩ := tile_spec settings hrs
      exact ⟨after, ha, ht⟩
  | setFrameWidth frameWidth =>
    have hrs : Sound { browser with frameWidth } := ⟨hs.1, hs.2, hs.3, hs.4, hs.5, hs.6, hs.7, hs.8⟩
    obtain ⟨after, ha, -, ht, -⟩ := tile_spec settings hrs
    exact ⟨after, ha, ht⟩
  | setLastColumn column => exact htl.elim
  | selectRow row column => exact htl.elim
  | reloadColumn column => exact htl.elim
  | scrollColumnsLeftBy shiftAmount => exact htl.elim
  | scrollColumnsRightBy shiftAmount => exact htl.elim
  | scrollColumnToVisible column => exact htl.elim

theorem scrollColumnsLeftBy_untouched (h : Untouched browser) (shiftAmount : Int) :
    browser.scrollColumnsLeftBy settings shiftAmount = some browser := by
  obtain ⟨-, hf, -⟩ := h
  rw [scrollColumnsLeftBy, hf]
  exact if_pos (by split <;> omega)

theorem scrollColumnsRightBy_untouched (h : Untouched browser) (shiftAmount : Int) :
    browser.scrollColumnsRightBy settings shiftAmount = some browser := by
  obtain ⟨hn, -, hl⟩ := h
  rw [scrollColumnsRightBy, hn, hl]
  exact if_pos (by split <;> omega)

theorem scrollColumnToVisible_untouched (h : Untouched browser) (column : Int) :
    browser.scrollColumnToVisible settings column = some browser := by
  rw [scrollColumnToVisible, scrollColumnsRightBy_untouched h, scrollColumnsLeftBy_untouched h]
  split
  · rfl
  · split <;> rfl

variable (settings delegate) in
theorem perform_untouched (hu : Untouched browser) (hm : browser.maxVisibleColumns = 3)
    (ht : ¬ call.Tiles) : ∃ after, call.perform settings delegate browser = some after ∧ Untouched after ∧
      after.maxVisibleColumns = 3 := by
  have hmat (column : Int) : browser.matrixInColumn column = some none := matrixInColumn_other (by have := hu.1; omega)
  cases call with
  | loadColumnZero => exact absurd trivial ht
  | addColumn => exact absurd trivial ht
  | setPath path => exact absurd trivial ht
  | setFrameWidth frameWidth => exact absurd trivial ht
  | setMaxVisibleColumns columnCount =>
    refine ⟨browser, ?_, hu, hm⟩
    rw [Call.perform, setMaxVisibleColumns, if_pos]
    rw [hm]
    simp only [Call.Tiles] at ht
    omega
  | setLastColumn column =>
    rw [Call.perform, setLastColumn, hu.1]
    split
    · exact ⟨browser, rfl, hu, hm⟩
    · rw [if_pos (by omega)]
      have hun : Untouched { browser.unloadAfter settings (-1) with isLoaded := false } := ⟨rfl, hu.2.1, hu.2.2⟩
      exact ⟨_, scrollColumnToVisible_untouched hun _, hun, hm⟩
  | selectRow row column =>
    refine ⟨browser, ?_, hu, hm⟩
    rw [Call.perform, selectRow, hmat]
    rfl
  | reloadColumn column =>
    refine ⟨browser, ?_, hu, hm⟩
    rw [Call.perform, reloadColumn, hmat]
    rfl
  | scrollColumnsLeftBy shiftAmount => exact ⟨browser, scrollColumnsLeftBy_untouched hu _, hu, hm⟩
  | scrollColumnsRightBy shiftAmount => exact ⟨browser, scrollColumnsRightBy_untouched hu _, hu, hm⟩
  | scrollColumnToVisible column => exact ⟨browser, scrollColumnToVisible_untouched hu _, hu, hm⟩

/-! ## Runs -/

/-- A call, and the delegate that it asks. -/
structure Step where
  delegate : Delegate
  call : Call

def run (settings : Settings) (browser : NSBrowser) (steps : List Step) : Option NSBrowser :=
  steps.foldlM (fun browser step => step.call.perform settings step.delegate browser) browser

theorem initWithFrame_sound (frameWidth : ℚ) : Sound (initWithFrame frameWidth) := by
  have hc {i : Nat} {column : NSBrowserColumn}
      (hg : (initWithFrame frameWidth).browserColumns[i]? = some column) : column = createdColumn :=
    List.mem_singleton.mp (List.mem_of_getElem? hg)
  refine ⟨le_rfl, Int.negSucc_lt_zero 0 |>.trans Int.zero_lt_one, fun i column hg => ?_, fun i column hg hl => ?_,
    le_rfl, le_rfl, Int.zero_lt_one, show (1 : Int) ≤ 3 by decide⟩
  · rw [hc hg]
    exact ⟨fun h => absurd h Bool.false_ne_true, fun h => absurd h (by simp only [initWithFrame]; omega)⟩
  · rw [hc hg] at hl
    exact absurd hl Bool.false_ne_true

/-- A run from a browser that is sound ends in one; it is tiled as soon as a call has tiled it. -/
theorem run_sound (hs : Sound browser) (hr : Ready settings browser)
    (hmax : ¬ Tiled settings browser → Untouched browser ∧ browser.maxVisibleColumns = 3) (steps : List Step) :
    ∃ after, run settings browser steps = some after ∧ Sound after ∧
      (Tiled settings browser ∨ (∃ step ∈ steps, step.call.Tiles) → Tiled settings after) := by
  induction steps generalizing browser with
  | nil => exact ⟨browser, rfl, hs, fun h => h.resolve_right fun ⟨_, h, _⟩ => absurd h List.not_mem_nil⟩
  | cons step steps ih =>
    obtain ⟨next, hnx, hs', hr', ht'⟩ := perform_safe step.delegate step.call hs hr
    have hn : (Tiled settings browser ∨ step.call.Tiles → Tiled settings next) ∧
        (¬ Tiled settings next → Untouched next ∧ next.maxVisibleColumns = 3) := by
      by_cases ht : Tiled settings browser
      · exact ⟨fun _ => ht' ht, fun h => absurd (ht' ht) h⟩
      · obtain ⟨hu, hthr⟩ := hmax ht
        by_cases htl : step.call.Tiles
        · obtain ⟨next', hnx', ht''⟩ := perform_tiled step.delegate hs hr (fun _ => hthr) htl
          obtain rfl := Option.some.inj (hnx.symm.trans hnx')
          exact ⟨fun _ => ht'', fun h => absurd ht'' h⟩
        · obtain ⟨next', hnx', hn⟩ := perform_untouched settings step.delegate hu hthr htl
          obtain rfl := Option.some.inj (hnx.symm.trans hnx')
          exact ⟨fun h => absurd h (not_or.mpr ⟨ht, htl⟩), fun _ => hn⟩
    obtain ⟨after, ha, hs'', ht''⟩ := ih hs' hr' hn.2
    refine ⟨after, ?_, hs'', fun h => ht'' ?_⟩
    · rw [run, List.foldlM_cons, hnx]
      exact ha
    · obtain ht | ⟨tiling, hm, htl⟩ := h
      · exact .inl (hn.1 (.inl ht))
      · obtain rfl | hm := List.mem_cons.mp hm
        · exact .inl (hn.1 (.inr htl))
        · exact .inr ⟨tiling, hm, htl⟩

theorem numberOfVisibleColumns_of_sound (hs : Sound browser) :
    browser.numberOfVisibleColumns = browser.lastVisibleColumn - browser.firstVisibleColumn + 1 := by
  have hle := hs.first_le_last
  unfold numberOfVisibleColumns
  exact if_pos (by omega)

/-- In every run no call indexes outside the columns, the loaded columns come first, the window is within the
columns, and from the first call on that tiles it has the size that `tile` computes. -/
theorem window_kept (settings : Settings) (frameWidth : ℚ) (steps : List Step) :
    ∃ after, run settings (initWithFrame frameWidth) steps = some after ∧
      after.lastColumnLoaded < after.browserColumns.length ∧
      (∀ (i : Nat) (column : NSBrowserColumn), after.browserColumns[i]? = some column →
        (column.isLoaded = true ↔ (i : Int) ≤ after.lastColumnLoaded)) ∧
      0 ≤ after.firstVisibleColumn ∧ after.firstVisibleColumn ≤ after.lastVisibleColumn ∧
      after.lastVisibleColumn < after.browserColumns.length ∧
      ((∃ step ∈ steps, step.call.Tiles) → after.numberOfVisibleColumns = after.columnCount settings) := by
  obtain ⟨after, ha, hs, ht⟩ := run_sound (initWithFrame_sound frameWidth) (.inr ⟨rfl, rfl, rfl⟩)
    (fun _ => ⟨⟨rfl, rfl, rfl⟩, rfl⟩) steps
  refine ⟨after, ha, hs.lastColumnLoaded_lt, hs.isLoaded_iff, hs.firstVisibleColumn_nonneg,
    hs.first_le_last, hs.lastVisibleColumn_lt, fun h => ?_⟩
  rw [numberOfVisibleColumns_of_sound hs]
  exact ht (.inr h)

/-- Columns of at least 100, with scrollers of 18 and 4 between the columns. -/
def someSettings (reusesColumns : Bool) : Settings where
  reusesColumns := reusesColumns
  allowsEmptySelection := true
  allowsMultipleSelection := true
  separatesColumns := true
  pathSeparator := ['/']
  minColumnWidth := 100
  scrollerWidth := 18
  browserColumnSeparation := 4
  scrollerWidth_nonneg := by norm_num
  browserColumnSeparation_nonneg := by norm_num

/-- A new browser shows one column, however wide it is, until it is tiled. -/
theorem new_window_not_tiled : ∃ after,
    run (someSettings false) (initWithFrame 300) [⟨fun _ => [], .scrollColumnsLeftBy 1⟩] = some after ∧
      after.numberOfVisibleColumns ≠ after.columnCount (someSettings false) := by
  refine ⟨initWithFrame 300, rfl, ?_⟩
  have hw : (someSettings false).colWidth = 122 := by
    norm_num [Settings.colWidth, someSettings]
  have hf : (initWithFrame 300).fittingColumnCount (someSettings false) = 2 := by
    rw [fittingColumnCount, hw]
    norm_num [someSettings, initWithFrame, Int.floor_eq_iff]
  rw [columnCount, hf]
  decide

end GnustepGui.Browser
