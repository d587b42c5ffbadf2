import GnustepGui.OutlineView.Removing

/-!
# Reloading an item and the selection

`reloadItem:reloadChildren:` removes what has been loaded below an item, loads its children again and opens it again
if it was expanded. An item that is in no array is reloaded as the root.
-/

namespace GnustepGui.OutlineView

open IndexSets

namespace NSOutlineView

variable {α : Type*} [DecidableEq α] {D : DataSource α} {v v' v'' w : NSOutlineView α} {s t item : Option α}
  {x y z c d : α} {n i j : Nat} {reloadChildren : Bool}

/-! ## The item that is reloaded -/

/-- The item is in the array of its parent. -/
def InArray (v : NSOutlineView α) (item : Option α) : Prop := ∃ x, item = some x ∧ ∃ p, x ∈ v.itemDict p

theorem reloadedObject_some (hf : v.DictFits D) (hx : D.Below none x) (hin : x ∈ v.itemDict t) :
    v.reloadedObject D (some x) = some x := by
  have hkey : t ∈ allKeys D := by
    have hk := (hf.mem hin).2
    rcases hx.parent hk with rfl | ⟨p, rfl, hp, -⟩
    · exact List.mem_cons_self
    · exact List.mem_cons_of_mem none (List.mem_map_of_mem (Outline.mem_listing.2 hp))
  obtain ⟨q, hq⟩ : ∃ q, (allKeys D).find? (fun parent => decide (x ∈ v.itemDict parent)) = some q := by
    refine Option.isSome_iff_exists.1 (List.find?_isSome.2 ⟨t, hkey, decide_eq_true hin⟩)
  have hxq : x ∈ v.itemDict q := by simpa using List.find?_some hq
  obtain ⟨hl, hk⟩ := hf.mem hxq
  rw [reloadedObject, hq, Option.bind_some, hl]
  exact List.getElem?_idxOf hk

theorem reloadedObject_none (h : ¬ v.InArray item) : v.reloadedObject D item = none := by
  cases item with
  | none => rfl
  | some x =>
    rw [reloadedObject, List.find?_eq_none.2, Option.bind_none]
    intro p _ hp
    exact h ⟨x, rfl, p, of_decide_eq_true hp⟩

/-! ## Opening it again -/

theorem load_same (level : Int) : v.loadDictionaryStartingWith D s level = { v with
    itemDict := (v.loadDictionaryStartingWith D s level).itemDict
    levelOfItems := (v.loadDictionaryStartingWith D s level).levelOfItems } := loadFuel_same _ _

theorem loadIfNeeded_loaded (hf : v.DictFits D) (hon : v.OnlyExpandable D)
    (hexpanded : v.isItemExpanded s = true) (hl : LevelFits D s (v.levelForItem s)) :
    (v.loadIfNeeded D s).itemDict s = D.children s := by
  have hb := Outline.size_lt_bound (D := D.toOutline) s
  rw [loadIfNeeded]
  split
  · rename_i hld
    refine (hf s).resolve_left fun he => ?_
    rw [isItemLoaded, he] at hld
    cases hld
  · exact (loadFuel_spec (D.bound + 1) (by omega) hf hon hl).loaded hexpanded

/-- An item whose children are collapsed is opened. -/
theorem openItem_rows (hf : v.DictFits D) (hclo : ∀ c ∈ D.children (some x), c ∉ v.expandedItems)
    (hy : y ∈ (v.openItem D (some x)).items) : y ∈ v.items ∨ y ∈ D.children (some x) := by
  have hsm := loadIfNeeded_same (D := D) (v := v.markExpanded (some x)) (some x)
  have hf₂ : ((v.markExpanded (some x)).loadIfNeeded D (some x)).DictFits D :=
    loadIfNeeded_fits (v := v.markExpanded (some x)) hf _
  rw [openItem, note_items] at hy
  generalize (v.markExpanded (some x)).loadIfNeeded D (some x) = v₂ at hsm hf₂ hy
  have hits : v₂.items = v.items := by rw [hsm]; rfl
  have hexpanded : v₂.expandedItems = v.expandedItems ++ [x] := by rw [hsm]; rfl
  have hi (hin : y ∈ (v₂.itemDict (some x)).flatMap (v₂.insertedFor D)) : y ∈ D.children (some x) := by
    obtain ⟨c, hc, hyc⟩ := List.mem_flatMap.1 hin
    have hk := (hf₂.mem hc).2
    have hccl : v₂.isItemExpanded (some c) = false := by
      refine decide_eq_false fun hco => ?_
      rw [hexpanded, List.mem_append, List.mem_singleton] at hco
      rcases hco with hco | rfl
      · exact hclo c hk hco
      · exact Nat.lt_irrefl _ (Outline.size_lt hk)
    rw [insertedFor, hccl] at hyc
    exact List.mem_singleton.1 hyc ▸ hk
  by_cases hx : x ∈ v₂.items
  · obtain ⟨front, back, hs, hfrt⟩ := List.eq_append_cons_of_mem hx
    rw [insertChildren_row hs hfrt] at hy
    rw [← hits, hs]
    simp only [List.mem_append, List.mem_cons] at hy ⊢
    rcases hy with hy | rfl | hy | hy
    · exact .inl (.inl hy)
    · exact .inl (.inr (.inl rfl))
    · exact .inr (hi hy)
    · exact .inl (.inr (.inr hy))
  · rw [insertChildren_hidden hx] at hy
    rcases List.mem_append.1 hy with hy | hy
    · exact .inr (hi hy)
    · exact .inl (hits ▸ hy)

omit [DecidableEq α] in
theorem FollowsItems.keeps (h : FollowsItems v v') (hk : KeepsSelection v' v'')
    (hr : ∀ y, v.IsSelected y → y ∈ v''.items → y ∈ v'.items) : FollowsItems v v'' := by
  refine hk.valid.follows_iff.2 fun y => ?_
  rw [hk.selected, h.selected]
  refine and_congr_right fun hy => ⟨fun hin => ?_, hr y hy⟩
  exact ((hk.selected y).2 ((h.selected y).2 ⟨hy, hin⟩)).mem

omit [DecidableEq α] in
theorem KeepsSelection.of_same (hv : v.ValidSelection) (hits : v'.items = v.items)
    (ht : v'.toNSTableView = v.toNSTableView) : KeepsSelection v v' := by
  have hr : v'.selectedRows = v.selectedRows := congrArg NSTableView.selectedRows ht
  refine ⟨⟨ht ▸ hv.valid, fun i hi => ?_⟩, fun y => ?_⟩
  · rw [hits]
    exact hv.in_range i (hr ▸ hi)
  · rw [IsSelected, IsSelected, hr, hits]

/-- What follows the removal. -/
def reopen (D : DataSource α) (v : NSOutlineView α) (s : Option α) (expanded : Bool) : NSOutlineView α :=
  let v := v.loadDictionaryStartingWith D s (v.levelForItem s)
  if expanded then v.openItem D s else v

theorem reopen_keeps (hf : v.DictFits D) (hv : v.ValidSelection) (x : α) (expanded : Bool) :
    KeepsSelection v (v.reopen D (some x) expanded) := by
  have hs := load_same (D := D) (v := v) (s := some x) (v.levelForItem (some x))
  have hf' : (v.loadDictionaryStartingWith D (some x) (v.levelForItem (some x))).DictFits D := loadFuel_fits hf _ _
  rw [reopen]
  generalize v.loadDictionaryStartingWith D (some x) (v.levelForItem (some x)) = v₂ at hs hf' ⊢
  have hl : KeepsSelection v v₂ := .of_same hv (by rw [hs]) (by rw [hs])
  split
  · exact hl.trans (openItem_keepsSelection hf' hl.valid x)
  · exact hl

theorem reopen_rows (hf : v.DictFits D) {expanded : Bool} (hclo : ∀ c ∈ D.children (some x), c ∉ v.expandedItems)
    (hy : y ∈ (v.reopen D (some x) expanded).items) : y ∈ v.items ∨ (expanded = true ∧ y ∈ D.children (some x)) := by
  have hs := load_same (D := D) (v := v) (s := some x) (v.levelForItem (some x))
  have hf' : (v.loadDictionaryStartingWith D (some x) (v.levelForItem (some x))).DictFits D := loadFuel_fits hf _ _
  rw [reopen] at hy
  generalize v.loadDictionaryStartingWith D (some x) (v.levelForItem (some x)) = v₂ at hs hf' hy
  have hits : v₂.items = v.items := by rw [hs]
  have hexpanded : v₂.expandedItems = v.expandedItems := by rw [hs]
  split at hy
  · rename_i hexp
    rw [← hits]
    exact (openItem_rows hf' (fun c hc => hexpanded ▸ hclo c hc) hy).imp_right fun h => ⟨hexp, h⟩
  · exact .inl (hits ▸ hy)

/-! ## Reloading an item that has a row -/

/-- What is loaded below `x` has rows, no child of it that comes back is selected, and the selected rows
behind it, if there are any, stay in step. -/
structure ReloadsRows (D : DataSource α) (v : NSOutlineView α) (x : α) : Prop where
  no_hidden : ∀ d, Relation.TransGen v.IsLoadedChild x d → v.itemDict (some d) ≠ [] → d ∈ v.items
  no_child : v.isOpen x = true → ∀ c ∈ D.children (some x), ¬ v.IsSelected c
  behind : (∀ i ∈ v.selectedRows, i < v.items.idxOf x + 1 + (rowsBelow D v x).length) ∨
    (∀ d, Relation.ReflTransGen v.IsLoadedChild x d → v.itemDict (some d) ≠ [] → v.isOpen d = true) ∧
    ∀ d k, Relation.ReflTransGen v.IsLoadedChild x d → Earlier D x d k → v.itemDict (some d) ≠ [] →
      ∀ i ∈ v.selectedRows, v.items.idxOf x + 1 + (rowsBelow D v x).length ≤ i → i + k < v.items.length

theorem loadedBelow_of_seen (ho : v.OpenLoaded D) (hs : v.itemDict s = D.children s)
    (hz : D.Seen v.isOpen s z) : v.LoadedBelow s z := by
  induction hz with
  | child hz => exact ⟨_, hs.symm ▸ hz, .refl⟩
  | deeper hp hpo hz ih =>
    obtain ⟨c, hc, hpt⟩ := ih
    have hp' := (loaded_of_seen ho hs hp).2 (isOpen_iff.1 hpo)
    refine ⟨c, hc, hpt.tail ?_⟩
    rw [IsLoadedChild, hp']
    exact hz

theorem child_row (h : v.Sound D) (hd : d ∈ v.items) (hc : c ∈ D.children (some d)) :
    c ∈ v.items ↔ v.isOpen d = true := by
  rw [h.consistent.mem_items]
  constructor
  · intro hs
    rcases hs.parent hc with heq | ⟨p, hp, -, ho⟩
    · exact nomatch heq
    · exact Option.some.inj hp ▸ ho
  · exact fun ho => .deeper (h.consistent.mem_items.1 hd) ho hc

/-- The removal takes out the rows below the item, and the selection follows. -/
theorem removeChildren_follows (h : v.Sound D) (hv : v.ValidSelection) (hr : x ∈ v.items) (hw : v.ReloadsRows D x) :
    FollowsItems v (v.removeChildren D (some x)) ∧ (v.removeChildren D (some x)).ValidSelection := by
  have hf := h.consistent.fits
  have hbn := D.height_lt_bound x
  have hse := h.consistent.mem_items.1 hr
  obtain ⟨front, back, ho, -, hfrt⟩ := rows_collapsed h (closeItem_collapsed h x) hr
  have hnd : v.items.Nodup := h.consistent.listsRows.nodup
  have hidx : v.items.idxOf x = front.length := by
    rw [ho, List.idxOf_append_of_notMem hfrt, List.idxOf_cons_self, Nat.add_zero]
  have hl : v.items.length = front.length + 1 + (rowsBelow D v x).length + back.length := by
    rw [ho, List.length_append, List.length_cons, List.length_append]
    omega
  let moved (j : Nat) : Prop := front.length + 1 + (rowsBelow D v x).length + j ∈ v.selectedRows
  have hst : OutOfStep D x front back (· ∈ v.selectedRows) moved v (rowsBelow D v x) 0 := by
    refine ⟨ho, hnd, fun z hz => ?_, fun z hz => ?_, hv.valid, fun _ _ => .rfl, fun _ => .rfl⟩
    · have hin : z ∈ v.items := by
        rw [ho]
        exact List.mem_append_right _ (List.mem_cons_of_mem x (List.mem_append_left _ hz))
      exact (mem_rowsBelow h hin).1 hz
    · rw [ho, List.nodup_append, List.nodup_cons, List.nodup_append] at hnd
      obtain ⟨-, ⟨-, -, -, hap⟩, har⟩ := hnd
      refine ⟨fun hin => ?_, fun hin => ?_⟩
      · have hb := (mem_rowsBelow h (by rw [ho]; exact List.mem_append_left _ hin)).2 hz
        exact har z hin z (List.mem_cons_of_mem x (List.mem_append_left _ hb)) rfl
      · have hb := (mem_rowsBelow h (by
          rw [ho]
          exact List.mem_append_right _ (List.mem_cons_of_mem x (List.mem_append_right _ hin)))).2 hz
        exact hap z hb z hin rfl
  have hrw : v.InRows moved x := by
    intro d hp hne
    have hin : d ∈ v.items := by
      rcases Relation.reflTransGen_iff_eq_or_transGen.1 hp with rfl | hp
      · exact hr
      · exact hw.no_hidden d hp hne
    have hk (c : α) (hc : c ∈ v.itemDict (some d)) := child_row h hin (hf.mem hc).2
    refine ⟨hin, ?_⟩
    cases hop : v.isOpen d with
    | true => exact .inl fun c hc => (hk c hc).2 hop
    | false =>
      refine .inr ⟨fun j hj => ?_, fun c hc hcin => nomatch hop.symm.trans ((hk c hc).1 hcin)⟩
      rcases hw.behind with hnn | ⟨ha, -⟩
      · have := hnn _ hj
        omega
      · exact nomatch hop.symm.trans (ha d hp hne)
  have hmar : v.HasMargin D moved back.length x 0 := by
    intro d k hp hear hne j hj
    rcases hw.behind with hnn | ⟨-, ha⟩
    · have := hnn _ hj
      omega
    · have := ha d k hp hear hne _ hj (by omega)
      omega
  have hfl : D.size (some x) < D.bound + 1 := Nat.lt_succ_of_lt hbn
  obtain ⟨between, he⟩ := removeChildrenFuel_outOfStep (D.bound + 1) hfl hf (.inl rfl) hst hrw hmar
  obtain ⟨-, hu⟩ := removeChildrenFuel_untouched (D.bound + 1) hf (some x)
  -- every row that was between has been removed
  have hn : between = [] := by
    refine List.eq_nil_iff_forall_not_mem.2 fun z hz => ?_
    have hin : z ∈ (removeChildrenFuel (D.bound + 1) v (some x)).items := by
      rw [he.items]
      exact List.mem_append_right _ (List.mem_cons_of_mem x (List.mem_append_left _ hz))
    obtain ⟨-, hop, hsn⟩ := (h.consistent.mem_items.1 (hu.rows z hin)).between hbn (he.below z hz)
    have hld := (loaded_of_seen h.consistent.open_loaded h.consistent.root hse).2 (isOpen_iff.1 hop)
    exact (removeChildrenFuel_gone (D.bound + 1) hfl hf (loadedBelow_of_seen h.consistent.open_loaded hld hsn)).1 hin
  subst hn
  have hits : (v.removeChildren D (some x)).items = (front ++ [x]) ++ back := by
    refine he.items.trans ?_
    rw [List.append_assoc]
    rfl
  have hs : (v.removeChildren D (some x)).selectedRows = shiftLeft v.selectedRows
      ((front ++ [x]).length + (rowsBelow D v x).length) (rowsBelow D v x).length := by
    ext i
    rw [mem_shiftLeft (by omega), List.length_append, List.length_singleton]
    rcases Nat.lt_or_ge i (front.length + 1) with hlt | hge
    · refine (he.kept i (by omega)).trans ⟨fun hi => .inl ⟨by omega, hi⟩, ?_⟩
      rintro (⟨-, hi⟩ | ⟨hle, -⟩)
      · exact hi
      · omega
    · have hm := he.moved (i - (front.length + 1))
      rw [show front.length + 1 + (([] : List α).length + 0) + (i - (front.length + 1)) = i by
        rw [List.length_nil]; omega] at hm
      refine hm.trans ?_
      have hsh : front.length + 1 + (rowsBelow D v x).length + (i - (front.length + 1)) =
          i + (rowsBelow D v x).length := by omega
      change _ ∈ v.selectedRows ↔ _
      rw [hsh]
      constructor
      · exact fun hi => .inr ⟨by omega, hi⟩
      · rintro (⟨hlt, -⟩ | ⟨-, hi⟩)
        · omega
        · exact hi
  have hv' : (v.removeChildren D (some x)).ValidSelection := by
    refine ⟨he.valid, fun i hi => ?_⟩
    rw [hs] at hi
    refine mem_shiftLeft_range hv.in_range ?_ ?_ i hi
    · rw [hits]
      simp only [List.length_append]
      omega
    · rw [hits, hl]
      simp only [List.length_append, List.length_singleton]
      omega
  have ho' : v.items = (front ++ [x]) ++ (rowsBelow D v x ++ back) := by
    rw [ho, List.append_assoc]
    rfl
  have hfol := follows_removed_iff ho' hnd hits hv' (Nat.le_refl _) hv hs
  exact ⟨hfol.2 (.inl rfl), hv'⟩

theorem reload_row_follows (h : v.Sound D) (hv : v.ValidSelection) (hr : x ∈ v.items) (hw : v.ReloadsRows D x) :
    FollowsItems v ((v.removeChildren D (some x)).reopen D (some x) (v.isOpen x)) := by
  have hf := h.consistent.fits
  have hfl : D.size (some x) < D.bound + 1 := Nat.lt_succ_of_lt (D.height_lt_bound x)
  have hs := h.consistent.mem_items.1 hr
  obtain ⟨hfol, hv'⟩ := removeChildren_follows h hv hr hw
  have hf' := (removeChildrenFuel_untouched (D.bound + 1) hf (some x)).1
  refine hfol.keeps (reopen_keeps hf' hv' x _) fun y hy hin => ?_
  cases ho : v.isOpen x with
  | false =>
    rw [ho, reopen] at hin
    simp only [Bool.false_eq_true, if_false] at hin
    rw [load_same] at hin
    exact hin
  | true =>
    have hl := (loaded_of_seen h.consistent.open_loaded h.consistent.root hs).2 (isOpen_iff.1 ho)
    refine (reopen_rows hf' (fun c hc => ?_) hin).resolve_right fun hk => ?_
    · exact (removeChildrenFuel_gone (D.bound + 1) hfl hf ⟨c, hl.symm ▸ hc, .refl⟩).2
    · exact hw.no_child ho y hk.2 hy

/-! ## Where nothing has been loaded, or nothing is selected -/

theorem removeChildren_nil (hn : v.itemDict s = []) : v.removeChildren D s = v.emptyArray s := by
  rw [removeChildren, removeChildrenFuel, hn, List.foldl_nil, noteNumberOfRowsChangedBelowItem,
    if_pos (show (-(([] : List α).length : Int)) = 0 from rfl)]

theorem reload_unloaded_follows (hf : v.DictFits D) (hv : v.ValidSelection)
    (hn : v.itemDict (some x) = []) (expanded : Bool) :
    FollowsItems v ((v.removeChildren D (some x)).reopen D (some x) expanded) := by
  rw [removeChildren_nil hn]
  have he : KeepsSelection v (v.emptyArray (some x)) := .of_same hv rfl rfl
  exact (he.trans (reopen_keeps (emptyArray_fits hf _) he.valid x expanded)).follows

/-- Nothing is selected, and nothing has been. -/
structure NoneSelected (v : NSOutlineView α) : Prop where
  valid : v.Valid
  none_selected : v.selectedRows = ∅

theorem NoneSelected.note (h : v.NoneSelected) (s : Option α) (numItems : Int) :
    (v.noteNumberOfRowsChangedBelowItem s numItems).NoneSelected := by
  refine ⟨note_valid h.valid numItems, Finset.eq_empty_of_forall_notMem fun i hi => ?_⟩
  have hn (i : Nat) : i ∉ v.selectedRows := h.none_selected ▸ Finset.notMem_empty i
  rcases Int.lt_trichotomy numItems 0 with hneg | rfl | hp
  · obtain ⟨n, rfl⟩ : ∃ n : Nat, numItems = -n := ⟨(-numItems).toNat, by omega⟩
    rw [note_removed h.valid (by omega), Finset.mem_filter, mem_shiftLeft (by omega)] at hi
    rcases hi.1 with ⟨-, hi⟩ | ⟨-, hi⟩ <;> exact hn _ hi
  · rw [noteNumberOfRowsChangedBelowItem, if_pos rfl] at hi
    exact hn i hi
  · obtain ⟨n, rfl⟩ : ∃ n : Nat, numItems = n := ⟨numItems.toNat, by omega⟩
    rw [note_added h.valid (by omega), Finset.mem_filter, mem_shiftRight] at hi
    rcases hi.1 with ⟨-, hi⟩ | ⟨-, hi⟩ <;> exact hn _ hi

theorem NoneSelected.openItem (h : v.NoneSelected) (s : Option α) : (v.openItem D s).NoneSelected := by
  rw [NSOutlineView.openItem]
  refine NoneSelected.note (v := ((v.markExpanded s).loadIfNeeded D s).insertChildren D s) ?_ s _
  have ht : (((v.markExpanded s).loadIfNeeded D s).insertChildren D s).toNSTableView = v.toNSTableView := by
    change ((v.markExpanded s).loadIfNeeded D s).toNSTableView = _
    rw [loadIfNeeded_same]
    cases s <;> rfl
  exact ⟨ht ▸ h.valid, ht ▸ h.none_selected⟩

theorem NoneSelected.reopen (h : v.NoneSelected) (s : Option α) (expanded : Bool) :
    (v.reopen D s expanded).NoneSelected := by
  have hl : (v.loadDictionaryStartingWith D s (v.levelForItem s)).NoneSelected := by
    rw [load_same]
    exact ⟨h.valid, h.none_selected⟩
  rw [NSOutlineView.reopen]
  split
  · exact hl.openItem s
  · exact hl

omit [DecidableEq α] in
theorem NoneSelected.validSelection (h : v.NoneSelected) : v.ValidSelection :=
  ⟨h.valid, fun i hi => absurd hi (h.none_selected ▸ Finset.notMem_empty i)⟩

theorem NoneSelected.removeChildren (h : v.NoneSelected) (hf : v.DictFits D) (s : Option α) :
    (v.removeChildren D s).NoneSelected :=
  (removeChildrenFuel_keeps (P := NoneSelected) (s := s) (fun _ _ _ h => ⟨h.valid, h.none_selected⟩)
    (fun _ _ _ h => ⟨h.valid, h.none_selected⟩) (fun _ t n h => h.note t n) _ (.inl rfl) hf h).2

/-! ## Reloading the root -/

theorem removeChildren_root (h : v.Sound D) (hv : v.ValidSelection) :
    (v.removeChildren D none).items = [] ∧ (v.removeChildren D none).NoneSelected := by
  have hf := h.consistent.fits
  obtain ⟨-, hu⟩ := removeChildrenFuel_untouched (D.bound + 1) hf none
  have hits : (v.removeChildren D none).items = [] := by
    refine List.eq_nil_iff_forall_not_mem.2 fun z hz => ?_
    have hs := h.consistent.mem_items.1 (hu.rows z hz)
    exact (removeChildrenFuel_gone (D.bound + 1) (Nat.lt_succ_self _) hf
      (loadedBelow_of_seen h.consistent.open_loaded h.consistent.root hs)).1 hz
  refine ⟨hits, hu.valid hv.valid, Finset.eq_empty_of_forall_notMem fun i hi => ?_⟩
  rcases Nat.eq_zero_or_pos (v.itemDict none).length with hzr | hp
  · have hn := List.length_eq_zero_iff.1 hzr
    rw [removeChildren_nil hn] at hi hits
    have := hv.in_range i hi
    rw [show v.items = [] from hits] at this
    exact Nat.not_lt_zero i this
  · -- the last note finds no rows any more
    obtain ⟨-, hv'⟩ := foldl_keeps (P := fun w => w.DictFits D ∧ w.Valid)
      (f := fun v child => (removeChildrenFuel D.bound v (some child)).removeChild child)
      (fun w c h => ⟨(removeChild_step D.bound h.1 c).1, (removeChild_step D.bound h.1 c).2.valid h.2⟩)
      (v.itemDict none) ⟨hf, hv.valid⟩
    rw [removeChildren, removeChildrenFuel] at hi hits
    generalize List.foldl _ _ _ = w at hv' hi hits
    rw [note_items] at hits
    rw [note_removed (v := w.emptyArray none) hv' hp, hits, Finset.mem_filter] at hi
    exact Nat.not_lt_zero i hi.2

/-- The root is opened with its children alone. -/
theorem reopen_root (hf : v.DictFits D) (hon : v.OnlyExpandable D) (hits : v.items = [])
    (hclo : ∀ c ∈ D.children none, c ∉ v.expandedItems) (expanded : Bool) :
    (v.reopen D none expanded).items = if expanded then D.children none else [] := by
  have hl (w : NSOutlineView α) : LevelFits D none (w.levelForItem none) := fun c hc => ⟨0, .top hc, rfl⟩
  have hlo := load_same (D := D) (v := v) (s := none) (v.levelForItem none)
  have hf' : (v.loadDictionaryStartingWith D none (v.levelForItem none)).DictFits D := loadFuel_fits hf _ _
  rw [reopen]
  generalize v.loadDictionaryStartingWith D none (v.levelForItem none) = v₁ at hlo hf' ⊢
  have hits₁ : v₁.items = [] := by rw [hlo, hits]
  have hexpanded₁ : v₁.expandedItems = v.expandedItems := by rw [hlo]
  cases expanded with
  | false => exact hits₁
  | true =>
    have hld : (v₁.loadIfNeeded D none).itemDict none = D.children none :=
      loadIfNeeded_loaded hf' (fun x hx => hon x (hexpanded₁ ▸ hx)) rfl (hl v₁)
    have hs := loadIfNeeded_same (D := D) (v := v₁) none
    change (v₁.openItem D none).items = D.children none
    rw [openItem, note_items]
    change ((v₁.loadIfNeeded D none).insertChildren D none).items = _
    generalize v₁.loadIfNeeded D none = v₂ at hld hs ⊢
    have hits₂ : v₂.items = [] := by rw [hs, hits₁]
    have hexpanded₂ : v₂.expandedItems = v.expandedItems := by rw [hs, hexpanded₁]
    rw [insertChildren_top [] hits₂, List.append_nil, hld]
    have ho (c : α) (hc : c ∈ D.children none) : v₂.insertedFor D c = [c] := by
      have hccl : v₂.isItemExpanded (some c) = false := decide_eq_false fun hco => hclo c hc (hexpanded₂ ▸ hco)
      rw [insertedFor, hccl]
      rfl
    rw [List.flatMap_congr ho, List.flatMap_singleton']

theorem reload_root_follows_iff (h : v.Sound D) (hv : v.ValidSelection) (expanded : Bool) :
    FollowsItems v ((v.removeChildren D none).reopen D none expanded) ↔
      (expanded = true → ∀ c ∈ D.children none, ¬ v.IsSelected c) := by
  have hfit := h.consistent.fits
  obtain ⟨hits, hn⟩ := removeChildren_root h hv
  obtain ⟨hfit', hu⟩ := removeChildrenFuel_untouched (D.bound + 1) hfit none
  have hn' := hn.reopen (D := D) none expanded
  have hr : ((v.removeChildren D none).reopen D none expanded).items =
      if expanded then D.children none else [] := by
    refine reopen_root hfit' (fun y hy => h.only_expandable y (hu.expanded y hy)) hits (fun c hc => ?_) expanded
    exact (removeChildrenFuel_gone (D.bound + 1) (Nat.lt_succ_self _) hfit ⟨c, h.consistent.root.symm ▸ hc, .refl⟩).2
  rw [follows_iff_of_none hn'.validSelection hn'.none_selected, hr]
  cases expanded with
  | false => exact iff_of_true (fun _ _ hy => nomatch hy) fun hf => nomatch hf
  | true => exact ⟨fun h _ c hc hs => h c hs hc, fun h y hs hy => h rfl y hy hs⟩

/-! ## Any item -/

/-- When a reload keeps the selection with its items: nothing is selected; or the root is reloaded, and no
child of it that comes back is selected; or the item has no loaded children, or it has a row. -/
def ReloadsWell (D : DataSource α) (v : NSOutlineView α) (item : Option α) : Prop :=
  v.selectedRows = ∅ ∨
  (¬ v.InArray item ∧ (v.isItemExpanded item = true → ∀ c ∈ D.children none, ¬ v.IsSelected c)) ∨
  ∃ x, item = some x ∧ v.InArray item ∧ (v.itemDict item = [] ∨ (x ∈ v.items ∧ v.ReloadsRows D x))

theorem reloadItem_true (item : Option α) : v.reloadItem D item true =
    (v.removeChildren D (v.reloadedObject D item)).reopen D (v.reloadedObject D item) (v.isItemExpanded item) := rfl

theorem reloadItem_follows (h : v.Sound D) (hv : v.ValidSelection)
    (hit : ∀ x, item = some x → D.Below none x) (hw : reloadChildren = true → v.ReloadsWell D item) :
    FollowsItems v (v.reloadItem D item reloadChildren) := by
  cases reloadChildren with
  | false => exact KeepsSelection.follows ⟨hv, fun _ => .rfl⟩
  | true =>
    have hf := h.consistent.fits
    rw [reloadItem_true]
    rcases hw rfl with he | ⟨hrt, hk⟩ | ⟨x, rfl, ⟨x', hx', p, hp⟩, hr⟩
    · have hnn : v.NoneSelected := ⟨hv.valid, he⟩
      have hnn' := (hnn.removeChildren hf (v.reloadedObject D item)).reopen (D := D)
        (v.reloadedObject D item) (v.isItemExpanded item)
      rw [follows_iff_of_none hnn'.validSelection hnn'.none_selected]
      exact fun y hy => absurd hy (not_isSelected he y)
    · rw [reloadedObject_none hrt]
      exact (reload_root_follows_iff h hv _).2 hk
    · obtain rfl := Option.some.inj hx'
      rw [reloadedObject_some hf (hit x rfl) hp]
      rcases hr with hn | ⟨hr, hw⟩
      · exact reload_unloaded_follows hf hv hn _
      · exact reload_row_follows h hv hr hw

/-! ## Every call -/

/-- Another selection in the same view. -/
def select (v : NSOutlineView α) (selectedRows : Finset Nat) (selectedRow : Int) : NSOutlineView α :=
  { v with
    toNSTableView := { v.toNSTableView with
      selectedRows, selectedRow, selectingColumns := false, allowsEmptySelection := true } }

theorem select_sound (h : v.Sound D) (selectedRows : Finset Nat) (selectedRow : Int) :
    (v.select selectedRows selectedRow).Sound D := ⟨h.consistent.of_same rfl rfl rfl rfl, h.only_expandable⟩

/-- The chain, and another item behind it. -/
def chainInFront : DataSource Nat where
  children := chainChildren [0, 5]
  height n := 4 - n
  bound := 5
  nodup := chainChildren_nodup (by decide)
  parent_unique := chainChildren_unique (by decide)
  height_lt := chainChildren_height
  height_lt_bound := chain.height_lt_bound
  isItemExpandable n := decide (n < 4)

/-- Three items of the chain are expanded, and the second one is collapsed. -/
def remembering : NSOutlineView Nat :=
  ([.expandItem 0 false, .expandItem 1 false, .expandItem 2 false, .collapseItem 1 false] :
    List (Call Nat)).foldl (Call.run chainInFront) (setDataSource chainInFront emptyTable false)

theorem remembering_sound : remembering.Sound chainInFront := by
  refine runCalls_sound (setDataSource_sound chainInFront emptyTable false) _
    ⟨.inr (.inr ?_), .inr (.inr ?_), .inr (.inr ?_), trivial, trivial⟩
  · exact expandsWell_of_unloaded (by decide) (by decide)
  · exact expandsWell_of_unloaded (by decide) (by decide)
  · exact expandsWell_of_unloaded (by decide) (by decide)

omit [DecidableEq α] in
theorem select_valid {i : Nat} (hi : i < v.items.length) : (v.select {i} i).ValidSelection := by
  refine ⟨⟨rfl, rfl, fun he => ?_, fun _ => ⟨i, Finset.mem_singleton_self i, rfl⟩⟩, fun j hj => ?_⟩
  · exact absurd he (Finset.singleton_ne_empty i)
  · exact Finset.mem_singleton.1 hj ▸ hi

end NSOutlineView

end GnustepGui.OutlineView
