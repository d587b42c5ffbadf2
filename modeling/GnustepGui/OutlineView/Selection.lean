import GnustepGui.OutlineView.Calls

/-!
# The selection of an outline view

What `_noteNumberOfRowsChangedBelowItem:by:` makes of the selected rows when empty selection is
allowed: indexes are moved up, or taken out and moved down, and those behind the last row are dropped.
The single selected row stays one of them (`note_valid`).
-/

namespace GnustepGui.OutlineView

open IndexSets

namespace NSTableView

variable {t : NSTableView} {rowIndex n i : Nat}

/-- Rows are selected, empty selection is allowed, and the single selected row is one of the selected
ones or -1 if there are none. -/
structure Valid (t : NSTableView) : Prop where
  selecting_rows : t.selectingColumns = false
  allows_empty : t.allowsEmptySelection = true
  none_selected : t.selectedRows = ∅ → t.selectedRow = -1
  single : t.selectedRows ≠ ∅ → ∃ i ∈ t.selectedRows, t.selectedRow = i

theorem Valid.neg_one_iff (h : t.Valid) : t.selectedRow = -1 ↔ t.selectedRows = ∅ := by
  refine ⟨fun hr => ?_, h.none_selected⟩
  by_contra hne
  obtain ⟨i, -, hi⟩ := h.single hne
  omega

theorem unsigned_natCast (i : Nat) : unsigned i = i := by
  unfold unsigned
  rw [if_neg (by omega)]
  exact Int.toNat_natCast i

theorem indexGreaterThanOrEqual_eq_none {s : Finset Nat} :
    indexGreaterThanOrEqual s rowIndex = none ↔ ∀ i ∈ s, i < rowIndex := by
  have he : indexGreaterThanOrEqual s rowIndex = none ↔ s.filter (rowIndex ≤ ·) = ∅ := Finset.min_eq_top
  rw [he, Finset.filter_eq_empty_iff]
  exact forall₂_congr fun i _ => Nat.not_le

variable (rowIndex) in
/-- Rows have been added. -/
theorem shiftSelection_added (h : t.Valid) (hn : 0 < n) : (t.shiftSelection rowIndex n).Valid ∧
      (t.shiftSelection rowIndex n).selectedRows = shiftRight t.selectedRows rowIndex n := by
  unfold shiftSelection
  have hp : (n : Int) > 0 := by omega
  split
  · rename_i hnn
    have hb := indexGreaterThanOrEqual_eq_none.1 hnn
    refine ⟨h, ?_⟩
    ext i
    rw [mem_shiftRight]
    constructor
    · intro hi
      exact .inl ⟨hb i hi, hi⟩
    · rintro (⟨-, hi⟩ | ⟨hle, hi⟩)
      · exact hi
      · have := hb _ hi
        omega
  · rename_i first hf
    have hm : first ∈ t.selectedRows := (Finset.mem_filter.1 (Finset.mem_of_min hf)).1
    rw [if_pos hp]
    refine ⟨⟨h.selecting_rows, h.allows_empty, fun he => ?_, fun _ => ?_⟩, rfl⟩
    · exact absurd (Finset.image_eq_empty.1 he) (Finset.ne_empty_of_mem hm)
    · obtain ⟨i, hi, hr⟩ := h.single (Finset.ne_empty_of_mem hm)
      dsimp only
      rw [hr, unsigned_natCast, Int.toNat_natCast]
      split
      · exact ⟨i + n, mem_shiftRight.2 (.inr ⟨by omega, by rwa [Nat.add_sub_cancel]⟩), by omega⟩
      · exact ⟨i, mem_shiftRight.2 (.inl ⟨by omega, hi⟩), rfl⟩

theorem closestRow_mem {s : Finset Nat} (hne : s ≠ ∅) : ∃ i ∈ s, closestRow s rowIndex = i := by
  unfold closestRow
  split
  · rename_i r1 r2 h1 h2
    split
    · exact ⟨r1, indexLessThan_mem h1, rfl⟩
    · exact ⟨r2, (Finset.mem_filter.1 (Finset.mem_of_min h2)).1, rfl⟩
  · rename_i r1 h1 _
    exact ⟨r1, indexLessThan_mem h1, rfl⟩
  · rename_i r2 _ h2
    exact ⟨r2, (Finset.mem_filter.1 (Finset.mem_of_min h2)).1, rfl⟩
  · rename_i h1 h2
    have hb := indexGreaterThanOrEqual_eq_none.1 h2
    have hl : s.filter (· < rowIndex) = ∅ := Finset.max_eq_bot.1 h1
    obtain ⟨i, hi⟩ := Finset.nonempty_iff_ne_empty.2 hne
    exact absurd (Finset.mem_filter.2 ⟨hi, hb i hi⟩) (hl ▸ Finset.notMem_empty i)

theorem closestRow_empty (rowIndex : Nat) : closestRow ∅ rowIndex = -1 := by
  have hl : indexLessThan ∅ rowIndex = none := Finset.max_empty
  have hg : indexGreaterThanOrEqual ∅ rowIndex = none := Finset.min_empty
  rw [closestRow, hl, hg]

variable (rowIndex n) in
theorem shiftSelection_removed (h : t.Valid) : (t.shiftSelection rowIndex (-n)).Valid ∧
      (t.shiftSelection rowIndex (-n)).selectedRows = shiftLeft t.selectedRows (rowIndex + n) n := by
  unfold shiftSelection
  have hn : ¬ (-n : Int) > 0 := by omega
  have ht : (- -(n : Int)).toNat = n := by omega
  split
  · rename_i hnn
    have hb := indexGreaterThanOrEqual_eq_none.1 hnn
    refine ⟨h, ?_⟩
    ext i
    rw [mem_shiftLeft (by omega)]
    constructor
    · intro hi
      have := hb i hi
      exact .inl ⟨by omega, hi⟩
    · rintro (⟨-, hi⟩ | ⟨hle, hi⟩)
      · exact hi
      · have := hb _ hi
        omega
  · rename_i first hf
    have hm : first ∈ t.selectedRows := (Finset.mem_filter.1 (Finset.mem_of_min hf)).1
    have ha : ¬ (shiftLeft t.selectedRows (rowIndex + n) n = ∅ ∧ t.allowsEmptySelection = false) := by
      rw [h.allows_empty]
      exact fun h => nomatch h.2
    rw [if_neg hn, ht]
    simp only [if_neg ha]
    refine ⟨⟨h.selecting_rows, h.allows_empty, fun he => ?_, fun hne => ?_⟩, trivial⟩
    · obtain ⟨i, hi, hr⟩ := h.single (Finset.ne_empty_of_mem hm)
      have hg : rowIndex ≤ i ∧ i < rowIndex + n := by
        by_contra ho
        have hk : ∃ j, j ∈ shiftLeft t.selectedRows (rowIndex + n) n := by
          rcases Nat.lt_or_ge i rowIndex with hlt | hge
          · exact ⟨i, (mem_shiftLeft (by omega)).2 (.inl ⟨by omega, hi⟩)⟩
          · exact ⟨i - n, (mem_shiftLeft (by omega)).2
              (.inr ⟨by omega, by rwa [Nat.sub_add_cancel (by omega)]⟩)⟩
        obtain ⟨j, hj⟩ := hk
        exact Finset.ne_empty_of_mem hj he
      dsimp only at he ⊢
      rw [hr, unsigned_natCast, if_neg (by omega), if_pos hg.1, he]
      exact closestRow_empty rowIndex
    · obtain ⟨i, hi, hr⟩ := h.single (Finset.ne_empty_of_mem hm)
      dsimp only
      rw [hr, unsigned_natCast]
      split
      · exact ⟨i - n, (mem_shiftLeft (by omega)).2 (.inr ⟨by omega, by rwa [Nat.sub_add_cancel (by omega)]⟩),
          by omega⟩
      · split
        · exact closestRow_mem hne
        · exact ⟨i, (mem_shiftLeft (by omega)).2 (.inl ⟨by omega, hi⟩), rfl⟩

theorem noteNumberOfRowsChanged_valid (h : t.Valid) (numRows : Nat) : (t.noteNumberOfRowsChanged numRows).Valid ∧
      (t.noteNumberOfRowsChanged numRows).selectedRows = t.selectedRows.filter (· < numRows) := by
  have hc : ¬ t.selectingColumns = true := by
    rw [h.selecting_rows]
    exact Bool.false_ne_true
  unfold noteNumberOfRowsChanged
  dsimp only
  rw [if_neg hc]
  split
  · rename_i hn
    have he : t.selectedRows = ∅ := Finset.max_eq_bot.1 hn
    rw [if_pos h.allows_empty, he]
    exact ⟨⟨h.selecting_rows, h.allows_empty, fun _ => h.none_selected he, fun hne => absurd rfl hne⟩, rfl⟩
  · rename_i row hr
    have hm (i : Nat) (hi : i ∈ t.selectedRows) : i ≤ row := Finset.le_max_of_eq hi hr
    split
    · have hf : (t.selectedRows.filter fun i => ¬ (numRows ≤ i ∧ i ≤ row)) = t.selectedRows.filter (· < numRows) := by
        refine Finset.filter_congr fun i hi => ?_
        have := hm i hi
        omega
      rw [hf]
      obtain ⟨single, hs, hsin⟩ := h.single (Finset.ne_empty_of_mem (Finset.mem_of_max hr))
      split
      · rename_i hd
        split
        · rename_i last hl
          refine ⟨⟨h.selecting_rows, h.allows_empty, fun he => ?_, fun _ => ?_⟩, rfl⟩
          · exact absurd he (Finset.ne_empty_of_mem (Finset.mem_of_max hl))
          · exact ⟨last, Finset.mem_of_max hl, rfl⟩
        · rename_i hn
          rw [if_pos h.allows_empty]
          exact ⟨⟨h.selecting_rows, h.allows_empty, fun _ => rfl,
            fun hne => absurd (Finset.max_eq_bot.1 hn) hne⟩, rfl⟩
      · rename_i hk
        have hin : single ∈ t.selectedRows.filter (· < numRows) := Finset.mem_filter.2 ⟨hs, by omega⟩
        exact ⟨⟨h.selecting_rows, h.allows_empty, fun he => absurd he (Finset.ne_empty_of_mem hin),
          fun _ => ⟨single, hin, hsin⟩⟩, rfl⟩
    · refine ⟨⟨h.selecting_rows, h.allows_empty, h.none_selected, h.single⟩, ?_⟩
      refine (Finset.filter_eq_self.2 fun i hi => ?_).symm
      have := hm i hi
      omega

end NSTableView

namespace NSOutlineView

variable {α : Type*} [DecidableEq α] {D : DataSource α} {v v' v'' : NSOutlineView α} {s : Option α}
  {x y : α} {n i : Nat} {expandChildren : Bool}

theorem note_valid (h : v.Valid) (numItems : Int) : (v.noteNumberOfRowsChangedBelowItem s numItems).Valid := by
  rw [noteNumberOfRowsChangedBelowItem]
  split
  · exact h
  · rename_i hne
    refine (NSTableView.noteNumberOfRowsChanged_valid ?_ _).1
    rcases Int.lt_or_gt_of_ne hne with hn | hp
    · obtain ⟨n, rfl⟩ : ∃ n : Nat, numItems = -n := ⟨(-numItems).toNat, by omega⟩
      exact (NSTableView.shiftSelection_removed _ n h).1
    · obtain ⟨n, rfl⟩ : ∃ n : Nat, numItems = n := ⟨numItems.toNat, by omega⟩
      exact (NSTableView.shiftSelection_added _ h (by omega)).1

theorem note_added (h : v.Valid) (hn : 0 < n) : (v.noteNumberOfRowsChangedBelowItem s n).selectedRows =
      (shiftRight v.selectedRows (v.rowIndexBelow s) n).filter (· < v.items.length) := by
  obtain ⟨hv, hr⟩ := NSTableView.shiftSelection_added (v.rowIndexBelow s) h hn
  rw [noteNumberOfRowsChangedBelowItem, if_neg (by omega)]
  exact hr ▸ (NSTableView.noteNumberOfRowsChanged_valid hv v.items.length).2

theorem note_removed (h : v.Valid) (hn : 0 < n) : (v.noteNumberOfRowsChangedBelowItem s (-n)).selectedRows =
      (shiftLeft v.selectedRows (v.rowIndexBelow s + n) n).filter (· < v.items.length) := by
  obtain ⟨hv, hr⟩ := NSTableView.shiftSelection_removed (v.rowIndexBelow s) n h
  rw [noteNumberOfRowsChangedBelowItem, if_neg (by omega)]
  exact hr ▸ (NSTableView.noteNumberOfRowsChanged_valid hv v.items.length).2

/-! ## Selected items -/

def IsSelected (v : NSOutlineView α) (y : α) : Prop := ∃ i ∈ v.selectedRows, v.items[i]? = some y

/-- The selection is made of rows. -/
structure ValidSelection (v : NSOutlineView α) : Prop where
  valid : v.Valid
  in_range : ∀ i ∈ v.selectedRows, i < v.items.length

/-- The selected items are those selected before that have a row, every selected index is a row, and the
single selected row is -1 if none is selected and one of them otherwise. -/
structure FollowsItems (v v' : NSOutlineView α) : Prop where
  selected : ∀ y, v'.IsSelected y ↔ v.IsSelected y ∧ y ∈ v'.items
  in_range : ∀ i ∈ v'.selectedRows, i < v'.items.length
  none_selected : v'.selectedRow = -1 ↔ v'.selectedRows = ∅
  single : v'.selectedRows ≠ ∅ → ∃ i ∈ v'.selectedRows, v'.selectedRow = i

section

omit [DecidableEq α]

theorem IsSelected.mem (h : v.IsSelected y) : y ∈ v.items := by
  obtain ⟨i, -, hi⟩ := h
  exact List.mem_of_getElem? hi

theorem ValidSelection.follows_iff (h : v'.ValidSelection) :
    FollowsItems v v' ↔ ∀ y, v'.IsSelected y ↔ v.IsSelected y ∧ y ∈ v'.items :=
  ⟨FollowsItems.selected, fun hs =>
    ⟨hs, h.in_range, h.valid.neg_one_iff, h.valid.single⟩⟩

/-- The same items are selected, and all of them have a row. -/
structure KeepsSelection (v v' : NSOutlineView α) : Prop where
  valid : v'.ValidSelection
  selected : ∀ y, v'.IsSelected y ↔ v.IsSelected y

theorem KeepsSelection.follows (h : KeepsSelection v v') : FollowsItems v v' :=
  h.valid.follows_iff.2 fun y =>
    ⟨fun hy => ⟨(h.selected y).1 hy, hy.mem⟩, fun hy => (h.selected y).2 hy.1⟩

theorem KeepsSelection.trans (h : KeepsSelection v v') (h' : KeepsSelection v' v'') : KeepsSelection v v'' :=
  ⟨h'.valid, fun y => (h'.selected y).trans (h.selected y)⟩

end

/-! ## Expanding -/

section Inserted

variable {front back inserted : List α}

theorem length_insertedFor (children : List α) :
    (children.flatMap (v.insertedFor D)).length = children.length + (children.map fun child =>
      if v.isItemExpanded (some child) then (v.collectItemsStartingWith D (some child)).length
      else 0).sum := by
  induction children with
  | nil => rfl
  | cons child children ih =>
    rw [List.flatMap_cons, List.length_append, ih, List.map_cons, List.sum_cons, List.length_cons, insertedFor]
    split <;> simp <;> omega

omit [DecidableEq α] in
theorem getElem?_front (hi : i < front.length) : (front ++ back)[i]? = front[i]? := List.getElem?_append_left hi

omit [DecidableEq α] in
theorem getElem?_inserted (hi : front.length ≤ i) :
    (front ++ (inserted ++ back))[i + inserted.length]? = (front ++ back)[i]? := by
  rw [List.getElem?_append_right (by omega), List.getElem?_append_right hi,
    List.getElem?_append_right (by omega)]
  congr 1
  omega

variable (front back) in
/-- Inserting rows and noting them moves the selected rows with their items. -/
theorem note_inserted (hv : v.ValidSelection) (hits : v.items = front ++ back)
    (hits' : v'.items = front ++ (inserted ++ back)) (ht : v'.toNSTableView = v.toNSTableView)
    (hr : v'.rowIndexBelow s = front.length) :
    KeepsSelection v (v'.noteNumberOfRowsChangedBelowItem s inserted.length) := by
  have hv' : v'.Valid := ht ▸ hv.valid
  have hrw' : v'.selectedRows = v.selectedRows := congrArg NSTableView.selectedRows ht
  rcases Nat.eq_zero_or_pos inserted.length with hz | hp
  · have hsm : v'.items = v.items := by
      rw [hits', hits, List.length_eq_zero_iff.1 hz]
      rfl
    rw [hz, noteNumberOfRowsChangedBelowItem, if_pos (show ((0 : Nat) : Int) = 0 from rfl)]
    refine ⟨⟨hv', fun i hi => ?_⟩, fun y => ?_⟩
    · rw [hsm]
      exact hv.in_range i (hrw' ▸ hi)
    · rw [IsSelected, IsSelected, hrw', hsm]
  · have hs := note_added (s := s) hv' hp
    rw [hr, hrw'] at hs
    have hl : v'.items.length = v.items.length + inserted.length := by
      rw [hits', hits]
      simp only [List.length_append]
      omega
    refine ⟨⟨note_valid hv' _, fun i hi => ?_⟩, fun y => ?_⟩
    · rw [note_items]
      rw [hs] at hi
      exact (Finset.mem_filter.1 hi).2
    · rw [hits'] at hl
      rw [IsSelected, hs, note_items, hits', IsSelected, hits]
      constructor
      · rintro ⟨i, hi, hy⟩
        rcases mem_shiftRight.1 (Finset.mem_filter.1 hi).1 with ⟨hlt, hi⟩ | ⟨hle, hi⟩
        · refine ⟨i, hi, ?_⟩
          rw [getElem?_front hlt] at hy ⊢
          exact hy
        · refine ⟨i - inserted.length, hi, ?_⟩
          rw [← hy, ← getElem?_inserted (by omega), Nat.sub_add_cancel (by omega)]
      · rintro ⟨i, hi, hy⟩
        have hrg := hv.in_range i hi
        rcases Nat.lt_or_ge i front.length with hlt | hge
        · refine ⟨i, Finset.mem_filter.2 ⟨mem_shiftRight.2 (.inl ⟨hlt, hi⟩), by omega⟩, ?_⟩
          rw [getElem?_front hlt] at hy ⊢
          exact hy
        · refine ⟨i + inserted.length, Finset.mem_filter.2 ⟨mem_shiftRight.2 (.inr ⟨by omega, ?_⟩), ?_⟩, ?_⟩
          · rwa [Nat.add_sub_cancel]
          · omega
          · rw [getElem?_inserted hge]
            exact hy

end Inserted

theorem loadIfNeeded_fits (hf : v.DictFits D) (s : Option α) : (v.loadIfNeeded D s).DictFits D := by
  rw [loadIfNeeded]
  split
  · exact hf
  · exact loadFuel_fits hf _ _

theorem not_mem_inserted (hf : v.DictFits D) : x ∉ (v.itemDict (some x)).flatMap (v.insertedFor D) := by
  intro hin
  obtain ⟨c, hc, hin⟩ := List.mem_flatMap.1 hin
  have hk := (hf.mem hc).2
  have hb : D.Below (some x) x := by
    rcases List.mem_cons.1 hin with rfl | hin
    · exact .child hk
    · split at hin
      · exact (Outline.Seen.child hk).trans rfl (below_of_mem_collect hf hin)
      · cases hin
  exact Nat.lt_irrefl _ hb.size_lt

theorem openItem_keepsSelection (hf : v.DictFits D) (hv : v.ValidSelection) (x : α) :
    KeepsSelection v (v.openItem D (some x)) := by
  have hsm := loadIfNeeded_same (D := D) (v := v.markExpanded (some x)) (some x)
  have hf₂ : ((v.markExpanded (some x)).loadIfNeeded D (some x)).DictFits D :=
    loadIfNeeded_fits (v := v.markExpanded (some x)) hf _
  rw [openItem]
  generalize (v.markExpanded (some x)).loadIfNeeded D (some x) = v₂ at hsm hf₂ ⊢
  have hits : v₂.items = v.items := by rw [hsm]; rfl
  have ht : v₂.toNSTableView = v.toNSTableView := by rw [hsm]; rfl
  have hc : v₂.numDescendants D (some x) =
      ((v₂.itemDict (some x)).flatMap (v₂.insertedFor D)).length := (length_insertedFor _).symm
  rw [hc]
  by_cases hx : x ∈ v.items
  · obtain ⟨front, back, hs, hfrt⟩ := List.eq_append_cons_of_mem hx
    have hn := insertChildren_row (D := D) (hits.trans hs) hfrt
    refine note_inserted (front ++ [x]) back hv ?_ ?_ ht (rowIndexBelow_row hn hfrt)
    · rw [hs, List.append_assoc]
      rfl
    · rw [hn, List.append_assoc]
      rfl
  · have hn := insertChildren_hidden (D := D) (hits.symm ▸ hx)
    refine note_inserted [] v.items hv rfl (by rw [hn, hits]; rfl) ht ?_
    rw [rowIndexBelow, if_neg]
    · rfl
    · rw [hn, hits]
      exact fun hin => (List.mem_append.1 hin).elim (not_mem_inserted hf₂) hx

theorem openItem_fits (hf : v.DictFits D) (x : α) : (v.openItem D (some x)).DictFits D := by
  rw [openItem, DictFits, note_itemDict]
  exact loadIfNeeded_fits (v := v.markExpanded (some x)) hf _

theorem expandFuel_keepsSelection (fuel : Nat) (hc : v.viewBased = false) (hf : v.DictFits D)
    (hv : v.ValidSelection) : KeepsSelection v (expandFuel D fuel v (some x) expandChildren) := by
  refine (expandFuel_keeps (P := fun w => w.viewBased = false ∧ w.DictFits D ∧ KeepsSelection v w)
    (fun w y _ h => ?_) (fun w h => ?_) fuel ⟨hc, hf, hv, fun _ => .rfl⟩).2.2
  · obtain ⟨hvw, hf, hk⟩ := h
    exact ⟨(openItem_viewBased y).trans hvw, openItem_fits hf y, hk.trans (openItem_keepsSelection hf hk.valid y)⟩
  · rw [refresh, if_neg (by rw [h.1]; exact Bool.false_ne_true)]
    exact h

/-! ## Reloading -/

theorem reloadData_selection (h : v.Valid) : (v.reloadData D).ValidSelection ∧ (v.reloadData D).selectedRows = ∅ := by
  have hv : (v.cleared.openItem D none).Valid := by
    have hl : ((v.cleared.loadIfNeeded D none).insertChildren D none).Valid := by
      change (v.cleared.loadIfNeeded D none).Valid
      rw [loadIfNeeded_same]
      exact h
    exact note_valid hl _
  obtain ⟨hv', hr⟩ := NSTableView.noteNumberOfRowsChanged_valid hv (v.cleared.openItem D none).items.length
  have hn : (v.reloadData D).selectedRows = ∅ := by
    refine hr.trans (Finset.filter_eq_empty_iff.2 fun i hi => ?_)
    have hl := loadIfNeeded_same (D := D) (v := v.cleared) none
    change i ∈ (((v.cleared.loadIfNeeded D none).insertChildren D none).noteNumberOfRowsChangedBelowItem none
      ((v.cleared.loadIfNeeded D none).numDescendants D none)).selectedRows at hi
    change ¬ i < (((v.cleared.loadIfNeeded D none).insertChildren D none).noteNumberOfRowsChangedBelowItem none
      ((v.cleared.loadIfNeeded D none).numDescendants D none)).items.length
    rw [note_items]
    generalize v.cleared.loadIfNeeded D none = w at hl hi ⊢
    have hits : w.items = [] := by rw [hl]; rfl
    have hval : (w.insertChildren D none).Valid := by
      change w.Valid
      rw [hl]
      exact h
    have hc : w.numDescendants D none = (w.insertChildren D none).items.length := by
      rw [insertChildren_top [] hits, List.append_nil]
      exact (length_insertedFor _).symm
    rw [hc] at hi
    rcases Nat.eq_zero_or_pos (w.insertChildren D none).items.length with hz | hp
    · omega
    · rw [note_added hval hp] at hi
      -- every selected index has been moved behind the last row
      rcases mem_shiftRight.1 (Finset.mem_filter.1 hi).1 with ⟨hlt, -⟩ | ⟨hle, -⟩
      · exact absurd hlt (Nat.not_lt_zero i)
      · omega
  exact ⟨⟨hv', fun i hi => absurd hi (hn ▸ Finset.notMem_empty i)⟩, hn⟩

theorem refresh_selection (hv : v.viewBased = true) (h : v.Valid) :
    (v.refresh D).ValidSelection ∧ (v.refresh D).selectedRows = ∅ := by
  rw [refresh, if_pos hv]
  exact reloadData_selection h

theorem openItem_valid (h : v.Valid) (x : α) : (v.openItem D (some x)).Valid := by
  refine note_valid (v := ((v.markExpanded (some x)).loadIfNeeded D (some x)).insertChildren D (some x)) ?_ _
  change ((v.markExpanded (some x)).loadIfNeeded D (some x)).Valid
  rw [loadIfNeeded_same]
  exact h

theorem refresh_valid (h : v.Valid) : (v.refresh D).Valid := by
  rw [refresh]
  split
  · exact (reloadData_selection h).1.valid
  · exact h

variable (expandChildren) in
theorem expandFuel_viewBased_selection (fuel : Nat) (hvw : v.viewBased = true)
    (hx : isExpandable D (some x) = true) (h : v.Valid) :
    (expandFuel D (fuel + 1) v (some x) expandChildren).ValidSelection ∧
      (expandFuel D (fuel + 1) v (some x) expandChildren).selectedRows = ∅ := by
  obtain ⟨w, ⟨hs, hv⟩, heq⟩ := expandFuel_eq_refresh (P := fun w => Steady D v w ∧ w.Valid) (x := x)
    (fun _ y hy h => ⟨h.1.trans (openItem_steady hy), openItem_valid h.2 y⟩)
    (fun _ h => ⟨h.1.trans refresh_steady, refresh_valid h.2⟩) fuel hx ⟨.refl v, h⟩
  rw [heq]
  exact refresh_selection (hs.viewBased.trans hvw) hv

theorem refresh_expandedItems : (v.refresh D).expandedItems = v.expandedItems := by
  rw [refresh]
  split
  · exact reloadData_expandedItems
  · rfl

theorem expandFuel_grows (fuel : Nat) (hy : y ∈ v.expandedItems) :
    y ∈ (expandFuel D fuel v (some x) expandChildren).expandedItems := by
  refine expandFuel_keeps (P := fun w => y ∈ w.expandedItems) (fun w z _ h => ?_) (fun w h => ?_) fuel hy
  · rw [openItem_expandedItems]
    exact List.mem_append_left _ h
  · rwa [refresh_expandedItems]

section

omit [DecidableEq α]

theorem not_isSelected (hn : v.selectedRows = ∅) (y : α) : ¬ v.IsSelected y := by
  rintro ⟨i, hi, -⟩
  exact Finset.notMem_empty i (hn ▸ hi)

theorem follows_iff_of_none (hv : v'.ValidSelection) (hn : v'.selectedRows = ∅) :
    FollowsItems v v' ↔ ∀ y, v.IsSelected y → y ∉ v'.items := by
  rw [hv.follows_iff]
  refine forall_congr' fun y => ⟨fun h hy hin => not_isSelected hn y (h.2 ⟨hy, hin⟩), fun h => ?_⟩
  exact iff_of_false (not_isSelected hn y) fun hy => h hy.1 hy.2

theorem isSelected_of_mem (hv : v.ValidSelection) (hi : i ∈ v.selectedRows) :
    ∃ y, v.items[i]? = some y ∧ v.IsSelected y := by
  have hr := hv.in_range i hi
  exact ⟨v.items[i], List.getElem?_eq_getElem hr, i, hi, List.getElem?_eq_getElem hr⟩

end

theorem expandItem_follows_iff (h : v.Sound D) (hv : v.ValidSelection) (x : α) :
    FollowsItems v (v.expandItem D (some x) expandChildren) ↔
      v.viewBased = false ∨ D.isItemExpandable x = false ∨ v.selectedRows = ∅ := by
  rw [expandItem]
  cases hvw : v.viewBased with
  | false =>
    exact iff_of_true (expandFuel_keepsSelection _ hvw h.consistent.fits hv).follows (.inl rfl)
  | true =>
    cases hx : D.isItemExpandable x with
    | false =>
      refine iff_of_true ?_ (.inr (.inl rfl))
      rw [expandFuel, if_neg (show ¬ isExpandable D (some x) = true by rw [isExpandable, hx]; exact Bool.false_ne_true)]
      exact KeepsSelection.follows ⟨hv, fun _ => .rfl⟩
    | true =>
      obtain ⟨hv', hn⟩ := expandFuel_viewBased_selection expandChildren D.bound
        hvw (show isExpandable D (some x) = true from hx) hv.valid
      have hs := expandFuel_viewBased expandChildren (x := x) D.bound hvw h
      rw [follows_iff_of_none hv' hn]
      constructor
      · intro hd
        refine .inr (.inr (Finset.eq_empty_of_forall_notMem fun i hi => ?_))
        obtain ⟨y, -, hy⟩ := isSelected_of_mem hv hi
        exact hd y hy (mem_items_of_grows h.consistent hs.consistent (fun z hz => expandFuel_grows _ hz) hy.mem)
      · rintro (hf | hf | he) y hy
        · cases hf
        · cases hf
        · exact absurd hy (not_isSelected he y)

end NSOutlineView

end GnustepGui.OutlineView
