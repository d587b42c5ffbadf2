import Mathlib
import GnustepGui.Menu.Menu

/-!
# The cells of an `NSMenuView`

`Lit view`: the cell at the highlighted index is highlighted and no other is. Then `itemAdded:` and `itemRemoved:` are
an insertion and a removal in the array of cells, and the highlight goes with its cell (`itemAdded_of_lit`,
`itemRemoved_of_lit`).
-/

namespace GnustepGui.Menu

open IndexEdits

variable {α : Type} {view view' : NSMenuView α} {cells : List (NSMenuItemCell α)} {items : List α}

/-- The cells with the highlight at an index, or nowhere. -/
def relit (cells : List (NSMenuItemCell α)) (index : Int) : List (NSMenuItemCell α) :=
  cells.mapIdx fun p c => { c with highlighted := decide (index = p) }

structure Lit (view : NSMenuView α) : Prop where
  cells : relit view.itemCells view.highlightedItemIndex = view.itemCells
  low : -1 ≤ view.highlightedItemIndex
  high : view.highlightedItemIndex < view.itemCells.length

/-! ## The highlight -/

@[simp] theorem length_relit (cells : List (NSMenuItemCell α)) (i : Int) : (relit cells i).length = cells.length :=
  List.length_mapIdx

theorem getElem?_relit (cells : List (NSMenuItemCell α)) (i : Int) (p : Nat) :
    (relit cells i)[p]? = cells[p]?.map fun c => { c with highlighted := decide (i = p) } := List.getElem?_mapIdx

@[simp] theorem relit_relit (cells : List (NSMenuItemCell α)) (i j : Int) :
    relit (relit cells i) j = relit cells j := by
  apply List.ext_getElem?
  intro p
  rw [getElem?_relit, getElem?_relit, getElem?_relit, Option.map_map]
  rfl

theorem Lit.highlighted (h : Lit view) {p : Nat} {c : NSMenuItemCell α} (hc : view.itemCells[p]? = some c) :
    c.highlighted = decide (view.highlightedItemIndex = p) := by
  have hp := hc
  rw [← h.cells, getElem?_relit, hc] at hp
  exact (congrArg NSMenuItemCell.highlighted (Option.some.inj hp)).symm

theorem lit_of_highlighted {i : Int} (hl : -1 ≤ i) (hh : i < cells.length)
    (h : ∀ (p : Nat) c, cells[p]? = some c → c.highlighted = decide (i = p)) : Lit ⟨cells, i⟩ := by
  refine ⟨List.ext_getElem? fun p => ?_, hl, hh⟩
  rw [getElem?_relit]
  cases hc : cells[p]? with
  | none => rfl
  | some c => exact congrArg some (congrArg (NSMenuItemCell.mk c.menuItem) (h p c hc).symm)

theorem getElem?_setHighlighted (view : NSMenuView α) (i : Int) (flag : Bool) (p : Nat) :
    (view.setHighlighted i flag).itemCells[p]? =
      view.itemCells[p]?.map fun c => if i = p then { c with highlighted := flag } else c := by
  unfold NSMenuView.setHighlighted
  split
  · rename_i hi
    have hip : i.toNat = p ↔ i = p := by omega
    rw [List.getElem?_modify]
    simp only [hip]
    rfl
  · rename_i hi
    have hip : i ≠ p := by omega
    simp only [if_neg hip, Option.map_id']

theorem setHighlighted_index (view : NSMenuView α) (i : Int) (flag : Bool) :
    (view.setHighlighted i flag).highlightedItemIndex = view.highlightedItemIndex := by
  unfold NSMenuView.setHighlighted
  split <;> rfl

theorem setHighlighted_unless (view : NSMenuView α) (i : Int) (flag : Bool) :
    (if i ≠ -1 then view.setHighlighted i flag else view) = view.setHighlighted i flag := by
  split
  · rfl
  · rename_i hi
    have hn : ¬ 0 ≤ i := by omega
    exact (if_neg hn).symm

theorem setHighlightedItemIndex_of_lit (h : Lit view) (i : Int) :
    view.setHighlightedItemIndex i = ⟨relit view.itemCells i, i⟩ := by
  unfold NSMenuView.setHighlightedItemIndex
  split
  · rename_i hi
    rw [hi, h.cells]
  · rename_i hne
    simp only [setHighlighted_unless]
    have hcel : ∀ p : Nat, (NSMenuView.setHighlighted
        ⟨(view.setHighlighted view.highlightedItemIndex false).itemCells, i⟩ i true).itemCells[p]? =
        (relit view.itemCells i)[p]? := by
      intro p
      rw [getElem?_setHighlighted, getElem?_setHighlighted, getElem?_relit, Option.map_map]
      cases hc : view.itemCells[p]? with
      | none => rfl
      | some c =>
        have hl := h.highlighted hc
        obtain ⟨item, flag⟩ := c
        simp only at hl
        subst hl
        simp only [Option.map_some, Function.comp_apply, Option.some.injEq]
        by_cases hip : i = p <;> by_cases hw : view.highlightedItemIndex = p <;> simp [hip, hw]
    have hidx := setHighlighted_index
      ⟨(view.setHighlighted view.highlightedItemIndex false).itemCells, i⟩ i true
    exact congrArg₂ NSMenuView.mk (List.ext_getElem? hcel) hidx

theorem lit_relit (cells : List (NSMenuItemCell α)) {i : Int} (hl : -1 ≤ i) (hh : i < cells.length) :
    Lit ⟨relit cells i, i⟩ := ⟨relit_relit cells i i, hl, by simpa using hh⟩

/-! ## New and removed cells -/

/-- The index of the highlighted cell when a cell is inserted. -/
def shifted (was : Int) (index : Nat) : Int :=
  if was ≥ index then was + 1 else was

/-- The index of the highlighted cell when a cell is removed. -/
def unshifted (was : Int) (index : Nat) : Int :=
  if was = index then -1 else if was > index then was - 1 else was

variable {index : Nat}

theorem lit_inserted (h : Lit view) (hi : index ≤ view.itemCells.length) (item : α) :
    Lit ⟨view.itemCells.insertIdx index ⟨item, false⟩, shifted view.highlightedItemIndex index⟩ := by
  have hl := h.low
  have hh := h.high
  have hlen : (view.itemCells.insertIdx index ⟨item, false⟩).length = view.itemCells.length + 1 :=
    List.length_insertIdx_of_le_length hi _
  refine lit_of_highlighted ?_ ?_ ?_
  · unfold shifted
    split <;> omega
  · unfold shifted
    split <;> omega
  · intro p c hc
    rw [List.getElem?_insertIdx] at hc
    unfold shifted
    split at hc
    · rename_i hp
      rw [h.highlighted hc, decide_eq_decide]
      split <;> omega
    · rename_i hp
      split at hc
      · rename_i heq
        rw [if_pos (heq ▸ hi)] at hc
        obtain rfl := Option.some.inj hc
        symm
        rw [decide_eq_false_iff_not]
        split <;> omega
      · rw [h.highlighted hc, decide_eq_decide]
        split <;> omega

theorem lit_erased (h : Lit view) (hi : index < view.itemCells.length) :
    Lit ⟨view.itemCells.eraseIdx index, unshifted view.highlightedItemIndex index⟩ := by
  have hl := h.low
  have hh := h.high
  have hlen : (view.itemCells.eraseIdx index).length = view.itemCells.length - 1 := List.length_eraseIdx_of_lt hi
  refine lit_of_highlighted ?_ ?_ ?_
  · unfold unshifted
    split
    · omega
    · split <;> omega
  · unfold unshifted
    split
    · omega
    · split <;> omega
  · intro p c hc
    rw [List.getElem?_eraseIdx] at hc
    unfold unshifted
    split at hc
    · rename_i hp
      rw [h.highlighted hc, decide_eq_decide]
      split
      · omega
      · split <;> omega
    · rename_i hp
      rw [h.highlighted hc, decide_eq_decide]
      split
      · omega
      · split <;> omega

theorem insertIdx_relit (h : Lit view) (hi : index ≤ view.itemCells.length) (item : α) :
    relit ((relit view.itemCells (-1)).insertIdx index ⟨item, false⟩)
      (shifted view.highlightedItemIndex index) = view.itemCells.insertIdx index ⟨item, false⟩ := by
  refine Eq.trans (List.ext_getElem? ?_) (lit_inserted h hi item).cells
  intro p
  simp only [getElem?_relit, List.getElem?_insertIdx, length_relit]
  split
  · rw [Option.map_map]
    rfl
  · split
    · rfl
    · rw [Option.map_map]
      rfl

theorem eraseIdx_relit (h : Lit view) (hi : index < view.itemCells.length) :
    relit ((relit view.itemCells (-1)).eraseIdx index) (unshifted view.highlightedItemIndex index) =
      view.itemCells.eraseIdx index := by
  refine Eq.trans (List.ext_getElem? ?_) (lit_erased h hi).cells
  intro p
  simp only [getElem?_relit, List.getElem?_eraseIdx]
  split
  · rw [Option.map_map]
    rfl
  · rw [Option.map_map]
    rfl

theorem itemAdded_of_lit (h : Lit view) (hi : index ≤ view.itemCells.length) {item : α}
    (hit : items[index]? = some item) : view.itemAdded items index =
      some ⟨view.itemCells.insertIdx index ⟨item, false⟩, shifted view.highlightedItemIndex index⟩ := by
  unfold NSMenuView.itemAdded
  simp only [hit]
  by_cases hw : view.highlightedItemIndex ≥ index
  · simp only [if_pos hw, setHighlightedItemIndex_of_lit h, length_relit, if_pos hi]
    have ho : Lit (⟨(relit view.itemCells (-1)).insertIdx index ⟨item, false⟩, -1⟩ : NSMenuView α) := by
      have hr := lit_relit view.itemCells (show (-1 : Int) ≤ -1 by omega) (by omega)
      have hin := lit_inserted hr (by simpa using hi) item
      have hn : shifted (-1) index = -1 := if_neg (by omega)
      rwa [hn] at hin
    have hs : view.highlightedItemIndex + 1 = shifted view.highlightedItemIndex index := (if_pos hw).symm
    rw [setHighlightedItemIndex_of_lit ho, hs, insertIdx_relit h hi]
  · have hs : shifted view.highlightedItemIndex index = view.highlightedItemIndex := if_neg hw
    simp only [if_neg hw, if_pos hi, hs]

theorem itemRemoved_of_lit (h : Lit view) (hi : index < view.itemCells.length) : view.itemRemoved index =
      some ⟨view.itemCells.eraseIdx index, unshifted view.highlightedItemIndex index⟩ := by
  unfold NSMenuView.itemRemoved
  by_cases hw : (index : Int) ≤ view.highlightedItemIndex
  · simp only [if_pos hw, setHighlightedItemIndex_of_lit h, length_relit, if_pos hi]
    have ho : Lit (⟨(relit view.itemCells (-1)).eraseIdx index, -1⟩ : NSMenuView α) := by
      have hr := lit_relit view.itemCells (show (-1 : Int) ≤ -1 by omega) (by omega)
      have hin := lit_erased hr (show index < _ by simpa using hi)
      have hn : unshifted (-1) index = -1 := by
        unfold unshifted
        rw [if_neg (by omega), if_neg (by omega)]
      rwa [hn] at hin
    have he := eraseIdx_relit h hi
    by_cases hgt : view.highlightedItemIndex > index
    · have hs : view.highlightedItemIndex - 1 = unshifted view.highlightedItemIndex index := by
        unfold unshifted
        rw [if_neg (by omega), if_pos hgt]
      rw [if_pos hgt, setHighlightedItemIndex_of_lit ho, hs, he]
    · have hs : -1 = unshifted view.highlightedItemIndex index := by
        unfold unshifted
        rw [if_pos (by omega)]
      rw [if_neg hgt, ← he, ← hs]
      exact congrArg some (congrArg₂ NSMenuView.mk ho.cells.symm rfl)
  · have hs : unshifted view.highlightedItemIndex index = view.highlightedItemIndex := by
      unfold unshifted
      rw [if_neg (by omega), if_neg (by omega)]
    have hgt : ¬ view.highlightedItemIndex > index := by omega
    simp only [if_neg hw, if_pos hi, if_neg hgt, hs]

/-! ## Notifications -/

/-- The cell that an insertion notification leads to, as far as there is an item. -/
def newCell (items : List α) (index : Nat) : Option (NSMenuItemCell α) :=
  items[index]?.map fun item => ⟨item, false⟩

theorem receive_of_lit (h : Lit view) {n : NSMenuNotification} {cells : List (Option (NSMenuItemCell α))}
    (hits : ∀ i, n = .didAddItem i → i < items.length)
    (hc : n.edit.apply (newCell items) (view.itemCells.map some) = some cells) :
    ∃ view', view.receive items n = some view' ∧ Lit view' ∧ view'.itemCells.map some = cells := by
  cases n with
  | didAddItem i =>
    have hit := List.getElem?_eq_getElem (hits i rfl)
    simp only [NSMenuNotification.edit, Edit.apply, List.length_map] at hc
    split at hc
    · rename_i hi
      refine ⟨_, itemAdded_of_lit h hi hit, lit_inserted h hi _, ?_⟩
      rw [← Option.some.inj hc, newCell, hit, List.map_insertIdx]
      rfl
    · cases hc
  | didRemoveItem i =>
    simp only [NSMenuNotification.edit, Edit.apply, List.length_map] at hc
    split at hc
    · rename_i hi
      refine ⟨_, itemRemoved_of_lit h hi, lit_erased h hi, ?_⟩
      rw [← Option.some.inj hc]
      exact (List.eraseIdx_map some _ _).symm
    · cases hc

theorem foldlM_receive {queue : List NSMenuNotification} (h : Lit view) {cells : List (Option (NSMenuItemCell α))}
    (hits : ∀ i, .didAddItem i ∈ queue → i < items.length)
    (hc : replay (newCell items) (view.itemCells.map some) (queue.map NSMenuNotification.edit) = some cells) :
    ∃ view', queue.foldlM (NSMenuView.receive items) view = some view' ∧ Lit view' ∧
      view'.itemCells.map some = cells := by
  induction queue generalizing view with
  | nil => exact ⟨view, rfl, h, Option.some.inj hc⟩
  | cons n queue ih =>
    rw [List.map_cons, replay_cons] at hc
    obtain ⟨next, hn, hr⟩ := Option.bind_eq_some_iff.1 hc
    obtain ⟨view₁, hv₁, hl₁, hc₁⟩ := receive_of_lit h
      (fun i hi => hits i (hi ▸ List.mem_cons_self)) hn
    rw [← hc₁] at hr
    obtain ⟨view₂, hv₂, hl₂, hc₂⟩ := ih hl₁ (fun i hi => hits i (List.mem_cons_of_mem _ hi)) hr
    refine ⟨view₂, ?_, hl₂, hc₂⟩
    rw [List.foldlM_cons, hv₁]
    exact hv₂

end GnustepGui.Menu
