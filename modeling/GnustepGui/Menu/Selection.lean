import GnustepGui.Menu.Selecting

/-!
# The selection of a pop-up cell

`Listed cell`: what holds of the items, their states and titles and the selected item at all times, also
between the change of the menu and the change of the view. `Proper cell`: the highlight is on the selected
item besides, as it is between two calls. A notification keeps the first (`Listed.post`), in whatever order
the cell and the view are told. A valid call gives the items and the selection it is to give
(`selection_follows_calls`).
-/

namespace GnustepGui.Menu

namespace NSPopUpButtonCell

variable {cell next : NSPopUpButtonCell} {item : Option Nat}

structure Listed (cell : NSPopUpButtonCell) : Prop where
  plain : cell.Plain
  nodup : cell.items.Nodup
  fresh : ∀ x ∈ cell.items, x < cell.newItem
  selected : ∀ x, cell.selectedItem = some x → x ∈ cell.items
  on : ∀ x ∈ cell.items, (cell.on x = true ↔ cell.selectedItem = some x)
  titles : (cell.items.map cell.title).Nodup

/-- The view has a cell for each item. -/
structure Viewed (cell : NSPopUpButtonCell) : Prop where
  lit : Lit cell.menu.view
  length : cell.menu.view.itemCells.length = cell.items.length

structure Proper (cell : NSPopUpButtonCell) : Prop extends cell.Listed, cell.Viewed where
  highlighted : cell.highlighted = cell.indexOfItem cell.selectedItem

/-- What a notification and the choice of an item leave alone. -/
structure SameList (cell next : NSPopUpButtonCell) : Prop where
  items : next.items = cell.items
  title : next.title = cell.title
  newItem : next.newItem = cell.newItem
  stateImages : next.stateImages = cell.stateImages
  attached : next.menu.attached = cell.menu.attached

theorem SameList.trans {last : NSPopUpButtonCell} (h : SameList cell next) (h' : SameList next last) :
    SameList cell last :=
  ⟨h'.items.trans h.items, h'.title.trans h.title, h'.newItem.trans h.newItem,
    h'.stateImages.trans h.stateImages, h'.attached.trans h.attached⟩

theorem SameList.indexOfItem (h : SameList cell next) (item : Option Nat) :
    next.indexOfItem item = cell.indexOfItem item := by
  unfold NSPopUpButtonCell.indexOfItem
  rw [h.items]

/-! ## Choosing an item -/

theorem sameList_chosen (cell : NSPopUpButtonCell) (item : Option Nat) : SameList cell (cell.chosen item) := by
  unfold chosen
  split <;> exact ⟨rfl, rfl, rfl, rfl, rfl⟩

theorem Listed.chosen (h : cell.Listed) (hit : ∀ x, item = some x → x ∈ cell.items) : (cell.chosen item).Listed := by
  by_cases hne : cell.selectedItem = item
  · rw [NSPopUpButtonCell.chosen, if_pos hne]
    exact h
  · rw [chosen_of_ne hne]
    refine ⟨⟨h.plain.popsUp, h.plain.alters, h.plain.uses⟩, h.nodup, h.fresh, hit, ?_, h.titles⟩
    intro x hx
    show (if item = some x then true else if cell.selectedItem = some x then false else cell.on x) = true ↔
      item = some x
    split
    · rename_i hs
      exact iff_of_true rfl hs
    · rename_i hother
      split
      · exact iff_of_false Bool.false_ne_true hother
      · rename_i ho
        rw [h.on x hx]
        exact iff_of_false ho hother

theorem neg_one_le_indexOfItem (cell : NSPopUpButtonCell) (item : Option Nat) : -1 ≤ cell.indexOfItem item := by
  unfold indexOfItem
  cases item with
  | none => exact Int.le_refl _
  | some x =>
    show -1 ≤ if x ∈ cell.items then (cell.items.idxOf x : Int) else -1
    split <;> omega

theorem lit_chosen (hl : Lit cell.menu.view) (hi : cell.indexOfItem item < cell.menu.view.itemCells.length) :
    Lit (cell.chosen item).menu.view ∧
      (cell.chosen item).menu.view.itemCells.length = cell.menu.view.itemCells.length := by
  by_cases hne : cell.selectedItem = item
  · rw [NSPopUpButtonCell.chosen, if_pos hne]
    exact ⟨hl, rfl⟩
  · rw [chosen_of_ne hne]
    have hv : (setHighlightedItemIndex { cell with
        selectedItem := item
        on := fun x => if item = some x then true else if cell.selectedItem = some x then false else cell.on x }
        (cell.indexOfItem item)).menu.view =
        ⟨relit cell.menu.view.itemCells (cell.indexOfItem item), cell.indexOfItem item⟩ :=
      setHighlightedItemIndex_of_lit hl _
    rw [hv]
    exact ⟨lit_relit _ (neg_one_le_indexOfItem cell item) hi, length_relit _ _⟩

theorem Viewed.chosen (h : cell.Viewed) (hi : cell.indexOfItem item < cell.items.length) :
    (cell.chosen item).Viewed := by
  obtain ⟨hl, hln⟩ := lit_chosen h.lit (h.length ▸ hi)
  exact ⟨hl, hln.trans (h.length.trans (congrArg List.length (sameList_chosen cell item).items.symm))⟩

theorem chosen_highlighted (hne : cell.selectedItem ≠ item) :
    (cell.chosen item).highlighted = cell.indexOfItem item := by
  rw [chosen_of_ne hne]
  exact highlighted_setHighlightedItemIndex _ _

theorem indexOfItem_lt (hit : ∀ x, item = some x → x ∈ cell.items) : cell.indexOfItem item < cell.items.length := by
  cases item with
  | none =>
    show (-1 : Int) < _
    omega
  | some x =>
    have hm := hit x rfl
    have hi : cell.indexOfItem (some x) = cell.items.idxOf x := if_pos hm
    have hlt := List.idxOf_lt_length_of_mem hm
    omega

theorem proper_chosen (h : cell.Listed) (hv : cell.Viewed) (hit : ∀ x, item = some x → x ∈ cell.items)
    (hs : cell.selectedItem = item → cell.highlighted = cell.indexOfItem item) : (cell.chosen item).Proper := by
  refine ⟨h.chosen hit, hv.chosen (indexOfItem_lt hit), ?_⟩
  rw [chosen_selectedItem, (sameList_chosen cell item).indexOfItem]
  by_cases hne : cell.selectedItem = item
  · rw [NSPopUpButtonCell.chosen, if_pos hne]
    exact hs hne
  · exact chosen_highlighted hne

theorem Proper.steady (h : cell.Proper) :
    cell.highlighted < 0 ∨ cell.itemAtIndex cell.highlighted = cell.selectedItem := by
  rw [h.highlighted]
  cases hs : cell.selectedItem with
  | none => exact .inl (show (-1 : Int) < 0 by decide)
  | some x => exact .inr (itemAtIndex_indexOfItem cell (h.selected x hs))

theorem Proper.selectItem (h : cell.Proper) (fuel : Nat) (item : Option Nat)
    (hit : ∀ x, item = some x → x ∈ cell.items) :
    selectItem (fuel + 3) cell item = .ok (cell.chosen item) ∧ (cell.chosen item).Proper := by
  refine ⟨selectItem_eq_chosen h.plain fuel hit (h.steady.imp id .inl), ?_⟩
  exact proper_chosen h.toListed h.toViewed hit fun hs => hs ▸ h.highlighted

/-! ## Notifications -/

/-- What a notification does to the highlight of the view. -/
structure Receives (items : List Nat) (n : NSMenuNotification) (moved : Int → Int) (old new : Nat) : Prop where
  view : ∀ view : NSMenuView Nat, Lit view → view.itemCells.length = old →
    ∃ view', view.receive items n = some view' ∧ Lit view' ∧ view'.itemCells.length = new ∧
      view'.highlightedItemIndex = moved view.highlightedItemIndex
  none : moved (-1) = -1

theorem Receives.tellView {n : NSMenuNotification} {moved : Int → Int} {old : Nat}
    (h : Receives cell.items n moved old cell.items.length) (hc : cell.Listed) (hl : Lit cell.menu.view)
    (ho : cell.menu.view.itemCells.length = old) :
    ∃ next, cell.tellView n = .ok next ∧ next.Listed ∧ next.Viewed ∧ SameList cell next ∧
      next.selectedItem = cell.selectedItem ∧ next.highlighted = moved cell.highlighted := by
  obtain ⟨view, hv, hl', hln, hm⟩ := h.view _ hl ho
  refine ⟨{ cell with menu := { cell.menu with view := view } }, ?_,
    ⟨⟨hc.plain.popsUp, hc.plain.alters, hc.plain.uses⟩, hc.nodup, hc.fresh, hc.selected,
      hc.on, hc.titles⟩,
    ⟨hl', hln⟩, ⟨rfl, rfl, rfl, rfl, rfl⟩, rfl, hm⟩
  unfold NSPopUpButtonCell.tellView
  rw [hv]

/-- After the notification the highlight is on the item that was selected before, which need not be
selected now; or there is none, as the cell, told first, found no item at the old index. -/
theorem Listed.post (h : cell.Listed) {n : NSMenuNotification} {moved : Int → Int} {old : Nat}
    (hr : Receives cell.items n moved old cell.items.length) (hlit : Lit cell.menu.view)
    (ho : cell.menu.view.itemCells.length = old) (hnn : cell.selectedItem = none → cell.highlighted = -1)
    (hso : ∀ s, cell.selectedItem = some s → 0 ≤ cell.highlighted ∧
      moved cell.highlighted = cell.indexOfItem (some s)) (fuel : Nat) :
    ∃ next, cell.post (fuel + 3) n = .ok next ∧ next.Listed ∧ next.Viewed ∧ SameList cell next ∧
      (cell.selectedItem = none → next.selectedItem = none) ∧ (next.highlighted = cell.indexOfItem cell.selectedItem ∨
        next.selectedItem ≠ cell.selectedItem ∧ next.highlighted = -1 ∧ cell.itemAtIndex cell.highlighted = none) := by
  have hm : moved cell.highlighted = cell.indexOfItem cell.selectedItem := by
    cases hs : cell.selectedItem with
    | none =>
      rw [hnn hs]
      exact hr.none
    | some s => exact (hso s hs).2
  unfold NSPopUpButtonCell.post
  split
  · cases hs : cell.selectedItem with
    | none =>
      obtain ⟨told, ht, hl, hv, hsm, hst, hh⟩ := hr.tellView h hlit ho
      refine ⟨told, ?_, hl, hv, hsm, fun _ => hst.trans hs, .inl ?_⟩
      · rw [synchronize_same h.plain fuel (.inl (by rw [hnn hs]; decide))]
        exact ht
      · rw [hh, hm, hs]
    | some s =>
      obtain ⟨hpos, hi⟩ := hso s hs
      obtain ⟨p, hp⟩ : ∃ p : Nat, cell.highlighted = p := ⟨cell.highlighted.toNat, by omega⟩
      have hsy : cell.synchronize (fuel + 3) = .ok (cell.chosen (cell.itemAtIndex cell.highlighted)) := by
        rw [synchronize_eq h.plain, if_neg]
        rintro (he | hneg)
        · exact List.not_mem_nil (he ▸ h.selected s hs)
        · omega
      generalize hit : cell.itemAtIndex cell.highlighted = item at hsy
      have hmem : ∀ x, item = some x → x ∈ cell.items := fun x hx => mem_of_itemAtIndex (hit.trans hx)
      -- the item found at the old index is at this index
      have ha : ∀ x, item = some x → cell.indexOfItem item = cell.highlighted := by
        rintro x rfl
        rw [hp, itemAtIndex_natCast] at hit
        rw [indexOfItem_eq h.nodup hit, hp]
      have hlt : cell.indexOfItem item < cell.menu.view.itemCells.length := by
        cases item with
        | none =>
          show (-1 : Int) < _
          omega
        | some x =>
          rw [ha x rfl]
          exact hlit.high
      obtain ⟨hlit', hln'⟩ := lit_chosen hlit hlt
      have hls := sameList_chosen cell item
      have hr' : Receives (cell.chosen item).items n moved old (cell.chosen item).items.length := by
        rw [hls.items]
        exact hr
      obtain ⟨told, ht, hl, hv, hsm, hst, hh⟩ := hr'.tellView (h.chosen hmem) hlit' (hln'.trans ho)
      refine ⟨told, ?_, hl, hv, hls.trans hsm, (fun hn => by cases hn), ?_⟩
      · rw [hsy]
        exact ht
      · rw [chosen_selectedItem] at hst
        by_cases hne : cell.selectedItem = item
        · left
          rw [hh, NSPopUpButtonCell.chosen, if_pos hne, hi]
        · rw [chosen_highlighted hne] at hh
          cases item with
          | none => exact .inr ⟨by rw [hst]; exact (Option.some_ne_none s).symm, hh.trans hr.none, rfl⟩
          | some x =>
            left
            rw [hh, ha x rfl, hi]
  · obtain ⟨told, ht, hl, hv, hsm, hs, hh⟩ := hr.tellView h hlit ho
    have hpr : told.Proper := ⟨hl, hv, by
      rw [hh, hm, hs, hsm.indexOfItem]⟩
    refine ⟨told, ?_, hl, hv, hsm, fun hn => hs.trans hn, .inl (hh.trans hm)⟩
    rw [ht]
    exact synchronize_same hl.plain fuel hpr.steady

theorem receives_removed {items : List Nat} {i : Nat} (hi : i < items.length) :
    Receives (items.eraseIdx i) (.didRemoveItem i) (unshifted · i) items.length (items.eraseIdx i).length where
  view view hl hln := by
    have hc : i < view.itemCells.length := hln ▸ hi
    refine ⟨_, itemRemoved_of_lit hl hc, lit_erased hl hc, ?_, rfl⟩
    rw [List.length_eraseIdx_of_lt hc, List.length_eraseIdx_of_lt hi, hln]
  none := by
    show unshifted (-1) i = -1
    unfold unshifted
    rw [if_neg (by omega), if_neg (by omega)]

theorem receives_inserted {items : List Nat} {i : Nat} (hi : i ≤ items.length) (new : Nat) :
    Receives (items.insertIdx i new) (.didAddItem i) (shifted · i) items.length
      (items.insertIdx i new).length where
  view view hl hln := by
    have hc : i ≤ view.itemCells.length := hln ▸ hi
    have hit : (items.insertIdx i new)[i]? = some new := by rw [List.getElem?_insertIdx_self, if_pos hi]
    refine ⟨_, itemAdded_of_lit hl hc hit, lit_inserted hl hc _, ?_, rfl⟩
    rw [List.length_insertIdx_of_le_length hc, List.length_insertIdx_of_le_length hi, hln]
  none := if_neg (by omega)

theorem Listed.reselect (h : next.Listed) (hv : next.Viewed) (hit : ∀ x, item = some x → x ∈ next.items)
    (hh : next.highlighted = next.indexOfItem item ∨ next.selectedItem ≠ item ∧ next.highlighted = -1) (fuel : Nat) :
    NSPopUpButtonCell.selectItem (fuel + 3) next item = .ok (next.chosen item) ∧ (next.chosen item).Proper := by
  refine ⟨selectItem_eq_chosen h.plain fuel hit ?_, proper_chosen h hv hit fun hs => ?_⟩
  · rcases hh with hi | ⟨-, hn⟩
    · rw [hi]
      cases item with
      | none => exact .inl (show (-1 : Int) < 0 by decide)
      | some x => exact .inr (.inr (itemAtIndex_indexOfItem next (hit x rfl)))
    · rw [hn]
      exact .inl (by decide)
  · exact hh.resolve_right fun hother => hother.1 hs

/-! ## Removing -/

theorem Proper.menuRemove (h : cell.Proper) {i x : Nat} (hx : cell.items[i]? = some x)
    (hne : cell.selectedItem ≠ some x) (fuel : Nat) :
    ∃ next, cell.menuRemoveItemAtIndex (fuel + 3) i = .ok next ∧ next.Listed ∧ next.Viewed ∧
      next.items = cell.items.eraseIdx i ∧ next.title = cell.title ∧ next.newItem = cell.newItem ∧
      (cell.selectedItem = none → next.selectedItem = none) ∧ (next.highlighted = next.indexOfItem cell.selectedItem ∨
        next.selectedItem ≠ cell.selectedItem ∧ next.highlighted = -1) := by
  have hi := (List.getElem?_eq_some_iff.1 hx).1
  let base : NSPopUpButtonCell := { cell with
    menu := { cell.menu with
      attached := Function.update cell.menu.attached x false, items := cell.items.eraseIdx i } }
  have hsl : ∀ s, cell.selectedItem = some s → ∃ p : Nat, cell.highlighted = p ∧ p ≠ i ∧ cell.items[p]? = some s := by
    intro s hs
    have hm := h.selected s hs
    have ha := itemAtIndex_indexOfItem cell hm
    have hh := h.highlighted
    rw [hs] at hh
    have hidx : cell.indexOfItem (some s) = cell.items.idxOf s := if_pos hm
    refine ⟨cell.items.idxOf s, hh.trans hidx, ?_, ?_⟩
    · rintro rfl
      rw [hidx, itemAtIndex_natCast, hx] at ha
      exact hne (hs.trans ha.symm)
    · rwa [hidx, itemAtIndex_natCast] at ha
  have hb : base.Listed := by
    refine ⟨⟨h.plain.popsUp, h.plain.alters, h.plain.uses⟩, h.nodup.sublist (List.eraseIdx_sublist ..), ?_, ?_,
      ?_, ?_⟩
    · exact fun y hy => h.fresh y (List.mem_of_mem_eraseIdx hy)
    · intro s hs
      obtain ⟨p, -, hpi, hp⟩ := hsl s hs
      exact List.mem_eraseIdx_iff_getElem?.2 ⟨p, hpi, hp⟩
    · exact fun y hy => h.on y (List.mem_of_mem_eraseIdx hy)
    · exact h.titles.sublist ((List.eraseIdx_sublist ..).map _)
  have hmvd : ∀ s, cell.selectedItem = some s → 0 ≤ base.highlighted ∧
      unshifted base.highlighted i = base.indexOfItem (some s) := by
    intro s hs
    obtain ⟨p, hh, hpi, hp⟩ := hsl s hs
    have hh' : base.highlighted = p := hh
    refine ⟨by omega, ?_⟩
    rw [hh']
    unfold unshifted
    rw [if_neg (by omega)]
    split
    · have ha : base.items[p - 1]? = some s := by
        show (cell.items.eraseIdx i)[p - 1]? = some s
        rw [List.getElem?_eraseIdx, if_neg (by omega), show p - 1 + 1 = p by omega]
        exact hp
      rw [indexOfItem_eq hb.nodup ha]
      omega
    · have ha : base.items[p]? = some s := by
        show (cell.items.eraseIdx i)[p]? = some s
        rw [List.getElem?_eraseIdx, if_pos (by omega)]
        exact hp
      rw [indexOfItem_eq hb.nodup ha]
  obtain ⟨next, hnx, hl, hv, hsm, hst, hh⟩ := hb.post (receives_removed hi) h.lit h.length
    (fun hn => by
      have hh := h.highlighted
      rw [show cell.selectedItem = none from hn] at hh
      exact hh) hmvd fuel
  refine ⟨next, ?_, hl, hv, hsm.items, hsm.title, hsm.newItem, hst, ?_⟩
  · unfold menuRemoveItemAtIndex
    rw [itemAtIndex_natCast, hx]
    exact hnx
  · rw [hsm.indexOfItem]
    exact hh.imp id fun hother => ⟨hother.1, hother.2.1⟩

/-- Without the item at the index; when the selected item goes, the first of the others is selected. -/
structure Removes (cell : NSPopUpButtonCell) (i : Nat) (next : NSPopUpButtonCell) : Prop where
  items : next.items = cell.items.eraseIdx i
  title : next.title = cell.title
  selectedItem : next.selectedItem =
    if cell.selectedItem = cell.items[i]? then next.items.head? else cell.selectedItem

theorem Proper.removeItemAtIndex (h : cell.Proper) {i : Nat} (hi : i < cell.items.length) (fuel : Nat) :
    ∃ next, cell.removeItemAtIndex (fuel + 3) i = .ok next ∧ next.Proper ∧ Removes cell i next ∧
      next.newItem = cell.newItem := by
  obtain ⟨x, hx⟩ : ∃ x, cell.items[i]? = some x := ⟨_, List.getElem?_eq_getElem hi⟩
  have hidx : ∀ s, cell.indexOfItem (some s) = i ↔ s = x := by
    intro s
    constructor
    · intro hs
      by_cases hm : s ∈ cell.items
      · have ha := itemAtIndex_indexOfItem cell hm
        rw [hs, itemAtIndex_natCast, hx] at ha
        exact (Option.some.inj ha).symm
      · have hneg : cell.indexOfItem (some s) = -1 := if_neg hm
        omega
    · rintro rfl
      exact indexOfItem_eq h.nodup hx
  unfold NSPopUpButtonCell.removeItemAtIndex indexOfSelectedItem
  by_cases hsel : cell.selectedItem = some x
  · rw [if_pos (by rw [hsel]; exact ((hidx x).2 rfl).symm)]
    obtain ⟨hsl, hpr⟩ := h.selectItem fuel none fun _ hn => nomatch hn
    have hls := sameList_chosen cell none
    rw [hsl]
    obtain ⟨next, hnx, hl, hv, hits, ht, hnew, hst, hh⟩ := hpr.menuRemove
      (show (cell.chosen none).items[i]? = some x by rw [hls.items]; exact hx)
      (by rw [chosen_selectedItem]; exact nofun) fuel
    have hnn : next.selectedItem = none := hst (chosen_selectedItem cell none)
    have hnx' : next.Proper := by
      refine ⟨hl, hv, ?_⟩
      rw [chosen_selectedItem] at hh
      rw [hnn]
      exact hh.resolve_right fun hother => hother.1 hnn
    rw [hls.items] at hits
    show ∃ last, (cell.chosen none).menuRemoveItemAtIndex (fuel + 3) i >>= _ = _ ∧ _
    rw [hnx]
    show ∃ last, (if next.items ≠ [] then next.selectItemAtIndex (fuel + 3) 0 else .ok next) = _ ∧ _
    split
    · obtain ⟨hf, hlt⟩ := hnx'.selectItem fuel (next.itemAtIndex 0) fun y hy => mem_of_itemAtIndex hy
      have hls' := sameList_chosen next (next.itemAtIndex 0)
      refine ⟨_, hf, hlt, ⟨hls'.items.trans hits, ?_, ?_⟩, ?_⟩
      · exact hls'.title.trans (ht.trans hls.title)
      · rw [chosen_selectedItem, if_pos (hsel.trans hx.symm), hls'.items]
        exact (itemAtIndex_natCast next 0).trans List.head?_eq_getElem?.symm
      · exact hls'.newItem.trans (hnew.trans hls.newItem)
    · rename_i he
      refine ⟨next, rfl, hnx', ⟨hits, ht.trans hls.title, ?_⟩, hnew.trans hls.newItem⟩
      rw [if_pos (hsel.trans hx.symm), hnn, not_not.1 he]
      rfl
  · have hother : (i : Int) ≠ cell.indexOfItem cell.selectedItem := by
      cases hs : cell.selectedItem with
      | none =>
        show (i : Int) ≠ -1
        omega
      | some s =>
        intro heq
        exact hsel (hs.trans (congrArg some ((hidx s).1 heq.symm)))
    rw [if_neg hother]
    obtain ⟨next, hnx, hl, hv, hits, ht, hnew, hst, hh⟩ := h.menuRemove hx hsel fuel
    show ∃ last, cell.menuRemoveItemAtIndex (fuel + 3) i >>= _ = _ ∧ _
    rw [hnx]
    show ∃ last, (if cell.selectedItem ≠ none then NSPopUpButtonCell.selectItem (fuel + 3) next cell.selectedItem
      else .ok next) = _ ∧ _
    have hk : cell.selectedItem ≠ cell.items[i]? := by
      rw [hx]
      exact hsel
    split
    · have hm : ∀ s, cell.selectedItem = some s → s ∈ next.items := by
        intro s hs
        obtain ⟨p, hp⟩ := List.mem_iff_getElem?.1 (h.selected s hs)
        rw [hits]
        refine List.mem_eraseIdx_iff_getElem?.2 ⟨p, ?_, hp⟩
        rintro rfl
        exact hsel (hs.trans (hp.symm.trans hx))
      obtain ⟨hb, hlt⟩ := hl.reselect hv hm hh fuel
      have hls := sameList_chosen next cell.selectedItem
      refine ⟨_, hb, hlt, ⟨hls.items.trans hits, hls.title.trans ht, ?_⟩, hls.newItem.trans hnew⟩
      rw [chosen_selectedItem, if_neg hk]
    · rename_i hnn
      have hnn' := not_not.1 hnn
      refine ⟨next, rfl, ⟨hl, hv, ?_⟩, ⟨hits, ht, ?_⟩, hnew⟩
      · rw [hst hnn']
        rw [hnn'] at hh
        exact hh.resolve_right fun hother => hother.1 (hst hnn')
      · rw [if_neg hk, hnn']
        exact hst hnn'

/-! ## Inserting -/

theorem itemChanges_same (h : cell.Proper) (fuel : Nat) (x n : Nat) : itemChanges (fuel + 3) x n cell = .ok cell := by
  induction n with
  | zero => rfl
  | succ n ih =>
    unfold itemChanges
    rw [itemChanged_of_ok (synchronize_same h.plain fuel h.steady)]
    exact ih

theorem Proper.index_of_selected (h : cell.Proper) {s : Nat} (hs : cell.selectedItem = some s) :
    ∃ p : Nat, cell.highlighted = p ∧ cell.items[p]? = some s := by
  have hm := h.selected s hs
  have ha := itemAtIndex_indexOfItem cell hm
  have hi : cell.indexOfItem (some s) = cell.items.idxOf s := if_pos hm
  refine ⟨cell.items.idxOf s, ?_, ?_⟩
  · rw [h.highlighted, hs, hi]
  · rwa [hi, itemAtIndex_natCast] at ha

variable {title : String}

theorem Proper.menuInsert (h : cell.Proper) (ht : ∀ x ∈ cell.items, cell.title x ≠ title)
    {i : Nat} (hi : i ≤ cell.items.length) (fuel : Nat) :
    ∃ next, cell.menuInsertItemWithTitle (fuel + 3) title i = .ok next ∧ next.Listed ∧ next.Viewed ∧
      next.items = cell.items.insertIdx i cell.newItem ∧ next.title = Function.update cell.title cell.newItem title ∧
      next.menu.attached cell.newItem = true ∧ (cell.selectedItem = none → next.selectedItem = none) ∧
      next.highlighted = next.indexOfItem cell.selectedItem := by
  have hnew : cell.newItem ∉ cell.items := fun hm => Nat.lt_irrefl _ (h.fresh _ hm)
  let base : NSPopUpButtonCell := { cell with
    newItem := cell.newItem + 1
    title := Function.update cell.title cell.newItem title
    on := Function.update cell.on cell.newItem false
    menu := { cell.menu with
      items := cell.items.insertIdx i cell.newItem
      attached := Function.update cell.menu.attached cell.newItem false } }
  have hm : ∀ x, x ∈ base.items ↔ x = cell.newItem ∨ x ∈ cell.items := fun x => List.mem_insertIdx hi
  have hpr : base.items.Perm (cell.newItem :: cell.items) := List.perm_insertIdx _ _ hi
  have hb : base.Listed := by
    refine ⟨⟨h.plain.popsUp, h.plain.alters, h.plain.uses⟩, ?_, ?_, ?_, ?_, ?_⟩
    · exact hpr.nodup_iff.2 (List.nodup_cons.2 ⟨hnew, h.nodup⟩)
    · intro x hx
      show x < cell.newItem + 1
      rcases (hm x).1 hx with rfl | hx
      · omega
      · have hlt := h.fresh x hx
        omega
    · exact fun s hs => (hm s).2 (.inr (h.selected s hs))
    · intro x hx
      show Function.update cell.on cell.newItem false x = true ↔ cell.selectedItem = some x
      rcases (hm x).1 hx with rfl | hx
      · rw [Function.update_self]
        exact iff_of_false Bool.false_ne_true fun hs => hnew (h.selected _ hs)
      · rw [Function.update_of_ne (ne_of_mem_of_not_mem hx hnew)]
        exact h.on x hx
    · rw [(hpr.map base.title).nodup_iff, List.map_cons, List.nodup_cons]
      have ho : cell.items.map base.title = cell.items.map cell.title :=
        List.map_congr_left fun x hx => Function.update_of_ne (ne_of_mem_of_not_mem hx hnew) ..
      rw [ho, show base.title cell.newItem = title from Function.update_self ..]
      refine ⟨fun hin => ?_, h.titles⟩
      obtain ⟨x, hx, hsm⟩ := List.mem_map.1 hin
      exact ht x hx hsm
  have hmvd : ∀ s, cell.selectedItem = some s → 0 ≤ base.highlighted ∧
      shifted base.highlighted i = base.indexOfItem (some s) := by
    intro s hs
    obtain ⟨p, hh, hp⟩ := h.index_of_selected hs
    have hh' : base.highlighted = p := hh
    refine ⟨by omega, ?_⟩
    rw [hh']
    unfold shifted
    split
    · have ha : base.items[p + 1]? = some s := by
        show (cell.items.insertIdx i cell.newItem)[p + 1]? = some s
        rw [List.getElem?_insertIdx_of_gt (by omega)]
        exact hp
      rw [indexOfItem_eq hb.nodup ha]
      omega
    · have ha : base.items[p]? = some s := by
        show (cell.items.insertIdx i cell.newItem)[p]? = some s
        rw [List.getElem?_insertIdx_of_lt (by omega)]
        exact hp
      rw [indexOfItem_eq hb.nodup ha]
  obtain ⟨next, hnx, hl, hv, hsm, hst, hh⟩ := hb.post (receives_inserted hi _) h.lit
    h.length (fun hn => by
      have hh := h.highlighted
      rw [show cell.selectedItem = none from hn] at hh
      exact hh) hmvd fuel
  refine ⟨{ next with menu := { next.menu with
      attached := Function.update next.menu.attached cell.newItem true } }, ?_,
    ⟨⟨hl.plain.popsUp, hl.plain.alters, hl.plain.uses⟩, hl.nodup, hl.fresh,
      hl.selected, hl.on, hl.titles⟩,
    ⟨hv.lit, hv.length⟩, hsm.items, hsm.title, Function.update_self .., hst, ?_⟩
  · unfold menuInsertItemWithTitle
    show base.post (fuel + 3) (.didAddItem i) >>= _ = _
    rw [hnx]
    rfl
  · have hidx : next.highlighted = next.indexOfItem cell.selectedItem := by
      rw [hsm.indexOfItem]
      refine hh.resolve_right ?_
      rintro ⟨hother, -, hnn⟩
      cases hs : cell.selectedItem with
      | none => exact hother ((hst hs).trans hs.symm)
      | some s =>
        -- the old index is an index of the longer list
        obtain ⟨p, hh', hp⟩ := h.index_of_selected hs
        have hlt := (List.getElem?_eq_some_iff.1 hp).1
        rw [show base.highlighted = p from hh', itemAtIndex_natCast, List.getElem?_eq_none_iff] at hnn
        have hlen : base.items.length = cell.items.length + 1 := List.length_insertIdx_of_le_length hi _
        omega
    exact hidx

/-- The list and the selection without an item of this title. -/
structure Without (cell : NSPopUpButtonCell) (title : String) (left : List Nat) (kept : Option Nat) : Prop where
  found : ∀ i x, cell.items[i]? = some x → cell.title x = title →
    left = cell.items.eraseIdx i ∧ kept = if cell.selectedItem = some x then left.head? else cell.selectedItem
  absent : (∀ x ∈ cell.items, cell.title x ≠ title) → left = cell.items ∧ kept = cell.selectedItem

/-- A new item with the title at the index; without a selection it is selected. -/
structure Inserts (cell : NSPopUpButtonCell) (title : String) (index : Int) (next : NSPopUpButtonCell)
    (left : List Nat) (kept : Option Nat) : Prop where
  without : Without cell title left kept
  items : next.items = left.insertIdx (min index.toNat left.length) cell.newItem
  title : next.title = Function.update cell.title cell.newItem title
  selectedItem : next.selectedItem = if kept = none then some cell.newItem else kept

theorem itemWithTitle_eq_some {x : Nat} (h : cell.itemWithTitle title = some x) :
    x ∈ cell.items ∧ cell.title x = title := by
  unfold itemWithTitle at h
  have ht := List.find?_some h
  exact ⟨List.mem_of_find?_eq_some h, eq_of_beq ht⟩

theorem itemWithTitle_eq_none (h : cell.itemWithTitle title = none) : ∀ x ∈ cell.items, cell.title x ≠ title := by
  intro x hx heq
  exact List.find?_eq_none.1 h x hx (beq_iff_eq.2 heq)

theorem Listed.title_unique (h : cell.Listed) {i j x y : Nat} (hi : cell.items[i]? = some x)
    (hj : cell.items[j]? = some y) (heq : cell.title x = cell.title y) : i = j := by
  have hlt : i < (cell.items.map cell.title).length := by
    rw [List.length_map]
    exact (List.getElem?_eq_some_iff.1 hi).1
  refine (List.getElem?_inj hlt h.titles).1 ?_
  rw [List.getElem?_map, List.getElem?_map, hi, hj, Option.map_some, Option.map_some, heq]

theorem Proper.indexOfItemWithTitle (h : cell.Proper) (title : String) :
    (∃ i x, cell.items[i]? = some x ∧ cell.title x = title ∧ cell.indexOfItemWithTitle title = (i : Nat)) ∨
      (∀ x ∈ cell.items, cell.title x ≠ title) ∧ cell.indexOfItemWithTitle title = -1 := by
  unfold NSPopUpButtonCell.indexOfItemWithTitle
  cases hx : cell.itemWithTitle title with
  | none => exact .inr ⟨itemWithTitle_eq_none hx, rfl⟩
  | some x =>
    obtain ⟨hm, ht⟩ := itemWithTitle_eq_some hx
    obtain ⟨i, hi⟩ := List.mem_iff_getElem?.1 hm
    exact .inl ⟨i, x, hi, ht, indexOfItem_eq h.nodup hi⟩

theorem Proper.removeTitle (h : cell.Proper) (title : String) (fuel : Nat) :
    ∃ next, cell.removeTitle (fuel + 3) title = .ok next ∧ next.Proper ∧
      Without cell title next.items next.selectedItem ∧ (∀ x ∈ next.items, cell.title x ≠ title) ∧
      next.title = cell.title ∧ next.newItem = cell.newItem := by
  unfold NSPopUpButtonCell.removeTitle
  rcases h.indexOfItemWithTitle title with ⟨i, x, hi, hx, hidx⟩ | ⟨ha, hidx⟩
  · rw [hidx, if_pos (by omega)]
    obtain ⟨next, hnx, hp, hr, hn⟩ := h.removeItemAtIndex (List.getElem?_eq_some_iff.1 hi).1 fuel
    refine ⟨next, hnx, hp, ⟨fun j y hj hy => ?_, fun ha => ?_⟩, ?_, hr.title, hn⟩
    · obtain rfl := Listed.title_unique h.toListed hi hj (hx.trans hy.symm)
      rw [← hj]
      exact ⟨hr.items, hr.selectedItem⟩
    · exact absurd hx (ha x (List.mem_of_getElem? hi))
    · intro y hy heq
      rw [hr.items] at hy
      obtain ⟨j, hji, hj⟩ := List.mem_eraseIdx_iff_getElem?.1 hy
      exact hji (Listed.title_unique h.toListed hj hi (heq.trans hx.symm))
  · rw [hidx, if_neg (by decide)]
    refine ⟨cell, rfl, h, ⟨fun i x hi hx => ?_, fun _ => ⟨rfl, rfl⟩⟩, ha, rfl, rfl⟩
    exact absurd hx (ha x (List.mem_of_getElem? hi))

/-- The setters of the new item bring the selection back. -/
theorem itemChanges_proper (hl : next.Listed) (hv : next.Viewed) {x : Nat} (hx : x ∈ next.items)
    (ha : next.menu.attached x = true) (hit : ∀ s, item = some s → s ∈ next.items)
    (hnn : item = none → next.selectedItem = none) (hh : next.highlighted = next.indexOfItem item) (fuel n : Nat) :
    itemChanges (fuel + 3) x (n + 1) next = .ok (next.chosen item) ∧ (next.chosen item).Proper := by
  have hp := proper_chosen hl hv hit fun _ => hh
  refine ⟨?_, hp⟩
  have hs : next.synchronize (fuel + 3) = .ok (next.chosen item) := by
    rw [synchronize_eq hl.plain]
    cases item with
    | none =>
      rw [if_pos (.inr (hh ▸ (by decide : (-1 : Int) < 0))), NSPopUpButtonCell.chosen, if_pos (hnn rfl)]
    | some s =>
      have hm := hit s rfl
      have hat := itemAtIndex_indexOfItem next hm
      rw [← hh] at hat
      rw [if_neg, hat]
      rintro (he | hn)
      · exact List.not_mem_nil (he ▸ hm)
      · rw [itemAtIndex_of_neg hn] at hat
        cases hat
  have hc : next.itemChanged (synchronize · (fuel + 3)) x = .ok (next.chosen item) := (if_pos ⟨ha, hx⟩).trans hs
  unfold itemChanges
  rw [hc]
  exact itemChanges_same hp fuel x n

theorem Proper.insertItemWithTitle (h : cell.Proper) (title : String) (index : Int) (fuel : Nat) :
    ∃ next left kept, cell.insertItemWithTitle (fuel + 3) title index = .ok next ∧ next.Proper ∧
      Inserts cell title index next left kept := by
  obtain ⟨left, hlf, hp, hw, ha, ht, hn⟩ := h.removeTitle title fuel
  have hi : min index.toNat left.items.length ≤ left.items.length := Nat.min_le_right ..
  obtain ⟨added, hadd, hl, hv, hits, ht', hatd, hst, hh⟩ := hp.menuInsert (fun x hx => ht ▸ ha x hx) hi fuel
  have hm : ∀ x, x ∈ added.items ↔ x = left.newItem ∨ x ∈ left.items := by
    intro x
    rw [hits]
    exact List.mem_insertIdx hi
  obtain ⟨hcs, hc⟩ := itemChanges_proper hl hv ((hm _).2 (.inl rfl)) hatd
    (fun s hs => (hm s).2 (.inr (hp.selected s hs))) hst hh fuel (added.stateImages + 1)
  have hls := sameList_chosen added left.selectedItem
  have hr : ∀ last, (if (added.chosen left.selectedItem).selectedItem = none then
      NSPopUpButtonCell.selectItem (fuel + 3) (added.chosen left.selectedItem) (some left.newItem)
      else .ok (added.chosen left.selectedItem)) = .ok last →
      cell.insertItemWithTitle (fuel + 3) title index = .ok last := by
    intro last hlt
    unfold NSPopUpButtonCell.insertItemWithTitle
    rw [hlf]
    show left.menuInsertItemWithTitle (fuel + 3) title (min index.toNat left.items.length) >>= _ = _
    rw [hadd]
    show itemChanges (fuel + 3) left.newItem (added.stateImages + 2) added >>= _ = _
    rw [hcs]
    exact hlt
  have hits' : (added.chosen left.selectedItem).items =
      left.items.insertIdx (min index.toNat left.items.length) cell.newItem := by
    rw [hls.items, hits, hn]
  have htt : (added.chosen left.selectedItem).title = Function.update cell.title cell.newItem title := by
    rw [hls.title, ht', ht, hn]
  by_cases hnn : left.selectedItem = none
  · obtain ⟨hsl, hlt⟩ := hc.selectItem fuel (some left.newItem) fun x hx => by
      rw [hls.items]
      exact (hm x).2 (.inl (Option.some.inj hx).symm)
    have hls' := sameList_chosen (added.chosen left.selectedItem) (some left.newItem)
    refine ⟨_, left.items, left.selectedItem, hr _ ?_, hlt, hw, hls'.items.trans hits', hls'.title.trans htt, ?_⟩
    · rw [if_pos ((chosen_selectedItem _ _).trans hnn)]
      exact hsl
    · rw [chosen_selectedItem, if_pos hnn, hn]
  · refine ⟨_, left.items, left.selectedItem, hr _ ?_, hc, hw, hits', htt, ?_⟩
    · rw [if_neg (chosen_selectedItem added _ ▸ hnn)]
    · rw [chosen_selectedItem, if_neg hnn]

/-! ## The other calls -/

theorem removeItems_proper (h : cell.Proper) (hnn : cell.selectedItem = none) (fuel n : Nat)
    (hn : cell.items.length = n) : ∃ next, removeItems (fuel + 3) n cell = .ok next ∧ next.Proper ∧ next.items = [] ∧
      next.selectedItem = none ∧ next.title = cell.title := by
  induction n generalizing cell with
  | zero => exact ⟨cell, rfl, h, List.length_eq_zero_iff.1 hn, hnn, rfl⟩
  | succ n ih =>
    obtain ⟨x, hx⟩ : ∃ x, cell.items[0]? = some x := ⟨_, List.getElem?_eq_getElem (by omega)⟩
    obtain ⟨next, hnx, hl, hv, hits, ht, -, hst, hh⟩ := h.menuRemove hx (by rw [hnn]; exact nofun) fuel
    have hnn' := hst hnn
    have hpr : next.Proper := by
      refine ⟨hl, hv, ?_⟩
      rw [hnn] at hh
      rw [hnn']
      exact hh.resolve_right fun hother => hother.1 hnn'
    have hln : next.items.length = n := by
      rw [hits, List.length_eraseIdx_of_lt (by omega), hn]
      rfl
    obtain ⟨last, hls, hp, he, hs, ht'⟩ := ih hpr hnn' hln
    refine ⟨last, ?_, hp, he, hs, ht'.trans ht⟩
    unfold removeItems
    show cell.menuRemoveItemAtIndex (fuel + 3) ((0 : Nat) : Int) >>= _ = _
    rw [hnx]
    exact hls

theorem Proper.removeAllItems (h : cell.Proper) (fuel : Nat) :
    ∃ next, cell.removeAllItems (fuel + 3) = .ok next ∧ next.Proper ∧ next.items = [] ∧
      next.selectedItem = none ∧ next.title = cell.title := by
  obtain ⟨hs, hp⟩ := h.selectItem fuel none fun _ hn => nomatch hn
  obtain ⟨next, hnx, hr⟩ := removeItems_proper hp (chosen_selectedItem cell none) fuel _ rfl
  refine ⟨next, ?_, hr.1, hr.2.1, hr.2.2.1, hr.2.2.2.trans (sameList_chosen cell none).title⟩
  unfold NSPopUpButtonCell.removeAllItems
  rw [hs]
  exact hnx

theorem Proper.removeAbsent (h : cell.Proper) (fuel : Nat) :
    cell.removeItemAtIndex (fuel + 3) (-1) = .error (.raised cell) := by
  have hr : cell.menuRemoveItemAtIndex (fuel + 3) (-1) = .error (.raised cell) := by
    unfold menuRemoveItemAtIndex
    rw [itemAtIndex_of_neg (by decide)]
  unfold NSPopUpButtonCell.removeItemAtIndex indexOfSelectedItem
  cases hs : cell.selectedItem with
  | none =>
    have hsm := selectItem_same cell h.plain.popsUp (fuel + 2)
    rw [hs] at hsm
    rw [if_pos (show (-1 : Int) = cell.indexOfItem none from rfl), hsm]
    show (cell.menuRemoveItemAtIndex (fuel + 3) (-1) >>= fun next =>
      if next.items ≠ [] then next.selectItemAtIndex (fuel + 3) 0 else .ok next) = _
    rw [hr]
    rfl
  | some s =>
    obtain ⟨p, hh, -⟩ := h.index_of_selected hs
    have hi : cell.indexOfItem (some s) = p := by rw [← hs, ← h.highlighted, hh]
    rw [if_neg (by omega)]
    show cell.menuRemoveItemAtIndex (fuel + 3) (-1) >>= _ = _
    rw [hr]
    rfl

/-- The selected item is nil or in the menu, it alone is on, and the titles are distinct. -/
structure Sound (cell : NSPopUpButtonCell) : Prop where
  selected : ∀ x, cell.selectedItem = some x → x ∈ cell.items
  on : ∀ x ∈ cell.items, (cell.on x = true ↔ cell.selectedItem = some x)
  titles : (cell.items.map cell.title).Nodup

/-- The same items, and this one selected. -/
def Selects (cell : NSPopUpButtonCell) (item : Option Nat) (next : NSPopUpButtonCell) : Prop :=
  next.items = cell.items ∧ next.title = cell.title ∧ next.selectedItem = item

/-- The items and the selection that a call is to give. -/
def Follows (cell : NSPopUpButtonCell) (next : NSPopUpButtonCell) : PopUpCall → Prop
  | .addItemWithTitle title => ∃ left kept, Inserts cell title cell.items.length next left kept
  | .insertItemWithTitle title index => ∃ left kept, Inserts cell title index next left kept
  | .removeItemAtIndex index => Removes cell index next
  | .removeItemWithTitle title =>
    (∃ i x, cell.items[i]? = some x ∧ cell.title x = title ∧ Removes cell i next) ∨
      (∀ x ∈ cell.items, cell.title x ≠ title) ∧ Selects cell cell.selectedItem next
  | .removeAllItems => next.items = [] ∧ next.selectedItem = none
  | .selectItemAtIndex index => Selects cell (cell.itemAtIndex index) next
  | .selectItemWithTitle title => Selects cell (cell.itemWithTitle title) next
  | .setTitle title =>
    (∃ x ∈ cell.items, cell.title x = title ∧ Selects cell (some x) next) ∨
      (∀ x ∈ cell.items, cell.title x ≠ title) ∧ next.items = cell.items ++ [cell.newItem] ∧
        next.title = Function.update cell.title cell.newItem title ∧ next.selectedItem = some cell.newItem

def ValidPopUp (cell : NSPopUpButtonCell) : PopUpCall → Prop
  | .removeItemAtIndex index => index < cell.items.length
  | _ => True

theorem Proper.sound (h : cell.Proper) : cell.Sound := ⟨h.selected, h.on, h.titles⟩

theorem Proper.selects (h : cell.Proper) (fuel : Nat) (item : Option Nat) (hit : ∀ x, item = some x → x ∈ cell.items) :
    ∃ next, NSPopUpButtonCell.selectItem (fuel + 3) cell item = .ok next ∧ next.Proper ∧ Selects cell item next := by
  obtain ⟨hs, hp⟩ := h.selectItem fuel item hit
  have hl := sameList_chosen cell item
  exact ⟨_, hs, hp, hl.items, hl.title, chosen_selectedItem cell item⟩

theorem Proper.setTitle (h : cell.Proper) (title : String) (fuel : Nat) :
    ∃ next, cell.setTitle (fuel + 3) title = .ok next ∧ next.Proper ∧ Follows cell next (.setTitle title) := by
  have hu : ¬cell.usesItemFromMenu = false := by
    rw [h.plain.uses]
    exact Bool.noConfusion
  have hpp : ¬cell.pullsDown = true := by
    rw [h.plain.popsUp]
    exact Bool.false_ne_true
  rw [NSPopUpButtonCell.setTitle, if_neg hu, if_neg hpp]
  cases hx : cell.itemWithTitle title with
  | some x =>
    obtain ⟨hm, ht⟩ := itemWithTitle_eq_some hx
    obtain ⟨next, hst, hp, hs⟩ := h.selects fuel (some x) fun y hy => Option.some.inj hy ▸ hm
    exact ⟨next, hst, hp, .inl ⟨x, hm, ht, hs⟩⟩
  | none =>
    have ha := itemWithTitle_eq_none hx
    obtain ⟨added, left, kept, hadd, hp, hi⟩ := h.insertItemWithTitle title cell.items.length fuel
    obtain ⟨rfl, rfl⟩ := hi.without.absent ha
    have hits : added.items = cell.items ++ [cell.newItem] := by
      have hidx : min ((cell.items.length : Int).toNat) cell.items.length = cell.items.length := by omega
      rw [hi.items, hidx, List.insertIdx_length_self]
    have hn : cell.newItem ∉ cell.items := fun hm => Nat.lt_irrefl _ (h.fresh _ hm)
    have hf : added.itemWithTitle title = some cell.newItem := by
      unfold itemWithTitle
      rw [hits, hi.title, List.find?_append, List.find?_eq_none.2, Option.none_or, List.find?_cons_of_pos]
      · rw [Function.update_self]
        exact beq_self_eq_true title
      · intro x hx
        rw [Function.update_of_ne (ne_of_mem_of_not_mem hx hn), beq_iff_eq]
        exact ha x hx
    obtain ⟨next, hst, hl, hs⟩ := hp.selects fuel (some cell.newItem) fun y hy => by
      rw [hits, ← Option.some.inj hy]
      exact List.mem_append_right _ (List.mem_singleton.2 rfl)
    refine ⟨next, ?_, hl, .inr ⟨ha, hs.1.trans hits, hs.2.1.trans hi.title, hs.2.2⟩⟩
    show cell.addItemWithTitle (fuel + 3) title >>= _ = _
    unfold NSPopUpButtonCell.addItemWithTitle
    rw [hadd]
    show NSPopUpButtonCell.selectItem (fuel + 3) added (added.itemWithTitle title) = _
    rw [hf]
    exact hst

theorem call_follows (h : cell.Proper) {c : PopUpCall} (hv : ValidPopUp cell c) (fuel : Nat) :
    ∃ next, NSPopUpButtonCell.call (fuel + 3) cell c = some next ∧ next.Proper ∧ Follows cell next c := by
  have hok : ∀ {next : NSPopUpButtonCell}, cell.perform (fuel + 3) c = .ok next →
      NSPopUpButtonCell.call (fuel + 3) cell c = some next := by
    intro next hnx
    unfold NSPopUpButtonCell.call
    rw [hnx]
  cases c with
  | addItemWithTitle title =>
    obtain ⟨next, left, kept, hnx, hp, hins⟩ := h.insertItemWithTitle title cell.items.length fuel
    exact ⟨next, hok hnx, hp, left, kept, hins⟩
  | insertItemWithTitle title index =>
    obtain ⟨next, left, kept, hnx, hp, hins⟩ := h.insertItemWithTitle title index fuel
    exact ⟨next, hok hnx, hp, left, kept, hins⟩
  | removeItemAtIndex index =>
    obtain ⟨next, hnx, hp, hr, -⟩ := h.removeItemAtIndex hv fuel
    exact ⟨next, hok hnx, hp, hr⟩
  | removeItemWithTitle title =>
    rcases h.indexOfItemWithTitle title with ⟨i, x, hi, hx, hidx⟩ | ⟨ha, hidx⟩
    · obtain ⟨next, hnx, hp, hr, -⟩ := h.removeItemAtIndex (List.getElem?_eq_some_iff.1 hi).1 fuel
      refine ⟨next, hok ?_, hp, .inl ⟨i, x, hi, hx, hr⟩⟩
      show cell.removeItemAtIndex (fuel + 3) (cell.indexOfItemWithTitle title) = _
      rw [hidx]
      exact hnx
    · refine ⟨cell, ?_, h, .inr ⟨ha, rfl, rfl, rfl⟩⟩
      have hrs : cell.perform (fuel + 3) (.removeItemWithTitle title) = .error (.raised cell) := by
        show cell.removeItemAtIndex (fuel + 3) (cell.indexOfItemWithTitle title) = _
        rw [hidx]
        exact h.removeAbsent fuel
      unfold NSPopUpButtonCell.call
      rw [hrs]
  | removeAllItems =>
    obtain ⟨next, hnx, hp, he, hnn, -⟩ := h.removeAllItems fuel
    exact ⟨next, hok hnx, hp, he, hnn⟩
  | selectItemAtIndex index =>
    have hit : (if index < 0 then none else cell.itemAtIndex index) = cell.itemAtIndex index := by
      split
      · rename_i hn
        exact (itemAtIndex_of_neg hn).symm
      · rfl
    obtain ⟨next, hs, hp, hss⟩ := h.selects fuel (cell.itemAtIndex index) fun x hx => mem_of_itemAtIndex hx
    refine ⟨next, hok ?_, hp, hss⟩
    show NSPopUpButtonCell.selectItem (fuel + 3) cell (if index < 0 then none else cell.itemAtIndex index) = _
    rw [hit]
    exact hs
  | selectItemWithTitle title =>
    obtain ⟨next, hs, hp, hss⟩ := h.selects fuel (cell.itemWithTitle title) fun x hx => (itemWithTitle_eq_some hx).1
    exact ⟨next, hok hs, hp, hss⟩
  | setTitle title =>
    obtain ⟨next, hnx, hp, hf⟩ := h.setTitle title fuel
    exact ⟨next, hok hnx, hp, hf⟩

/-! ## Runs -/

/-- A state that valid calls reach from a new cell. -/
inductive Reachable (fuel : Nat) (cellFirst : Bool) (stateImages : Nat) : NSPopUpButtonCell → Prop
  | init : Reachable fuel cellFirst stateImages (NSPopUpButtonCell.init cellFirst stateImages)
  | call {cell next : NSPopUpButtonCell} {c : PopUpCall} (h : Reachable fuel cellFirst stateImages cell)
      (hvalid : ValidPopUp cell c) (hnext : NSPopUpButtonCell.call fuel cell c = some next) :
      Reachable fuel cellFirst stateImages next

theorem proper_init (cellFirst : Bool) (stateImages : Nat) : (init cellFirst stateImages).Proper where
  plain := ⟨rfl, rfl, rfl⟩
  nodup := List.nodup_nil
  fresh _ hx := absurd hx List.not_mem_nil
  selected _ hx := nomatch hx
  on _ hx := absurd hx List.not_mem_nil
  titles := List.nodup_nil
  lit := ⟨rfl, Int.le_refl (-1), Int.negSucc_lt_zero 0⟩
  length := rfl
  highlighted := rfl

theorem Reachable.proper {fuel : Nat} {cellFirst : Bool} {stateImages : Nat}
    (h : Reachable (fuel + 3) cellFirst stateImages cell) : cell.Proper := by
  induction h with
  | init => exact proper_init cellFirst stateImages
  | call _ hv hn ih =>
    obtain ⟨next, hc, hp, -⟩ := call_follows ih hv fuel
    obtain rfl := Option.some.inj (hc.symm.trans hn)
    exact hp

/-- In every state reached the cell is sound, and every valid call does to the items and the selection what
it is to do, whichever of the cell and the view is told first. -/
theorem selection_follows_calls {fuel : Nat} {cellFirst : Bool} {stateImages : Nat}
    (h : Reachable (fuel + 3) cellFirst stateImages cell) :
    cell.Sound ∧ ∀ c, ValidPopUp cell c →
      ∃ next, NSPopUpButtonCell.call (fuel + 3) cell c = some next ∧ next.Sound ∧ Follows cell next c := by
  refine ⟨h.proper.sound, fun c hv => ?_⟩
  obtain ⟨next, hn, hp, hf⟩ := call_follows h.proper hv fuel
  exact ⟨next, hn, hp.sound, hf⟩

/-! ## Two items -/

/-- Items with the titles a and b, the first one selected. -/
def two : NSPopUpButtonCell :=
  ([.addItemWithTitle "a", .addItemWithTitle "b"].foldlM (call 3) (init true 2)).getD (init true 2)

theorem reachable_two : Reachable 3 true 2 two :=
  .call (c := .addItemWithTitle "b") (.call (c := .addItemWithTitle "a") .init trivial rfl) trivial rfl

/-- The first of the two is removed. -/
theorem selection_follows_calls_two : ∃ next, call 3 two (.removeItemAtIndex 0) = some next ∧ next.Sound ∧
    Follows two next (.removeItemAtIndex 0) :=
  (selection_follows_calls reachable_two).2 (.removeItemAtIndex 0) (show 0 < two.items.length by decide)

/-- With a new item of the same title the selected item is removed. -/
theorem not_selected_after_insertion : ¬ ∀ cell, Reachable 3 true 2 cell → ∀ title index next,
    call 3 cell (.insertItemWithTitle title index) = some next →
      ∀ x, cell.selectedItem = some x → next.selectedItem = some x := by
  intro hk
  have hkp := hk two reachable_two "a" 2 _ rfl 0 rfl
  exact absurd hkp (by decide)

end NSPopUpButtonCell

end GnustepGui.Menu
