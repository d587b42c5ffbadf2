import GnustepGui.Library.CallRuns
import Mathlib.Data.Finset.Max
import Mathlib.Order.Interval.Finset.Nat

/-!
# The selection of a collection view

The selected indexes of an `NSCollectionView` without a layout, beside the flags of the items that have been made. A
run of calls keeps the two together if, and only if, each call suits the view it is made on (`selection_consistent_iff`).
-/

namespace GnustepGui.CollectionView.Selecting

/-- An item is missing while its placeholder stands for it, and else is the flag of the item. The layout finds
`fittingColumns` when it tiles. -/
structure View where
  items : List (Option Bool)
  selectionIndexes : Finset ℕ
  selectionIndexPaths : Finset ℕ
  isSelectable : Bool
  allowsMultipleSelection : Bool
  hasItemPrototype : Bool
  numberOfColumns : ℕ
  fittingColumns : ℕ

namespace View

/-! ## The calls

A call returns nothing where it raises or divides by zero. -/

/-- `setContent:`, for as many objects. -/
def setContent (view : View) (count : ℕ) : View :=
  let view := { view with items := List.replicate count none }
  if view.hasItemPrototype then { view with numberOfColumns := max 1 view.fittingColumns } else view

/-- The items at these indexes get a flag. -/
def flagItems (items : List (Option Bool)) (indexes : Finset ℕ) (flag : Bool) : List (Option Bool) :=
  items.mapIdx fun index item => if index ∈ indexes then item.map fun _ => flag else item

def setSelectionIndexes (view : View) (indexes : Finset ℕ) : View :=
  if view.isSelectable = false then view
  else
    let items := view.items.map (·.map fun _ => false)
    { view with
      selectionIndexes := indexes
      items := flagItems items indexes true
      selectionIndexPaths := indexes }

/-- `setSelectable:`. There are no items at index paths without a layout. -/
def setSelectable (view : View) (flag : Bool) : Option View :=
  let view := { view with isSelectable := flag }
  if view.isSelectable = false then
    if ∃ index ∈ view.selectionIndexes, view.items.length ≤ index then none
    else some { view with items := flagItems view.items view.selectionIndexes false }
  else some view

/-- `itemAtIndex:`, which makes the item when the view is drawn. -/
def itemAtIndex (view : View) (index : ℕ) : Option View :=
  match view.items[index]? with
  | none => none
  | some (some _) => some view
  | some none =>
    if view.hasItemPrototype then
      some { view with items := view.items.set index (some (decide (index ∈ view.selectionIndexes))) }
    else none

/-- `NSMakeRange`, as the indexes in it. -/
def makeRange (location length : ℕ) : Finset ℕ :=
  Finset.Ico location (location + length)

/-- `firstIndex` of the selection, where it is not `NSNotFound`. -/
def firstIndex (view : View) : Option ℕ := view.selectionIndexes.min

def lastIndex (view : View) : Option ℕ := view.selectionIndexes.max

/-- `selectedRange` of a click with the shift key. -/
def selectedRange (view : View) (index : ℕ) : Finset ℕ :=
  match view.firstIndex with
  | none => makeRange index index
  | some firstSelectedIndex =>
    if index < firstSelectedIndex then makeRange index (firstSelectedIndex - index + 1)
    else makeRange firstSelectedIndex (index - firstSelectedIndex + 1)

/-- `_selectWithEvent:index:` -/
def selectWithEvent (view : View) (control shift : Bool) (index : ℕ) : View :=
  if view.isSelectable = true ∧ index < view.items.length then
    if view.allowsMultipleSelection = true ∧ (control = true ∨ shift = true) then
      if control then
        if index ∈ view.selectionIndexes then view.setSelectionIndexes (view.selectionIndexes.erase index)
        else view.setSelectionIndexes (insert index view.selectionIndexes)
      else view.setSelectionIndexes (view.selectionIndexes ∪ view.selectedRange index)
    else view.setSelectionIndexes {index}
  else view.setSelectionIndexes ∅

end View

inductive Direction where
  | up
  | down
  | left
  | right

/-- Whether the direction of a move is -1. -/
def Direction.isBackward : Direction → Bool
  | up | left => true
  | down | right => false

namespace View

/-- The index that a move comes to, where it moves. -/
def target (view : View) : Direction → Option ℕ
  | .up => view.firstIndex.bind fun index =>
      if view.numberOfColumns ≤ index then some (index - view.numberOfColumns) else none
  | .down => view.lastIndex.bind fun index =>
      if index + view.numberOfColumns < view.items.length then some (index + view.numberOfColumns) else none
  | .left => view.firstIndex.bind fun index => if index ≠ 0 then some (index - 1) else none
  | .right => view.lastIndex.bind fun index => if index ≠ view.items.length - 1 then some (index + 1) else none

/-- `_modifySelectionWithNewIndex:direction:expand:`. The frame that is scrolled to is found by dividing by the number
of columns. -/
def modifySelection (view : View) (anIndex : ℕ) (backward shouldExpand : Bool) : Option View :=
  let anIndex := min (max anIndex 0) (view.items.length - 1)
  let view' :=
    if view.allowsMultipleSelection = true ∧ shouldExpand = true then
      match view.firstIndex, view.lastIndex with
      | some firstIndex, some lastIndex =>
        view.setSelectionIndexes (view.selectionIndexes ∪
          if backward then makeRange anIndex (firstIndex - anIndex + 1)
          else makeRange lastIndex (anIndex - lastIndex + 1))
      | _, _ => view
    else view.setSelectionIndexes {anIndex}
  if view'.numberOfColumns = 0 ∧ view'.items ≠ [] then none else some view'

/-- The move methods. -/
def move (view : View) (direction : Direction) (shouldExpand : Bool) : Option View :=
  match view.target direction with
  | none => some view
  | some index => view.modifySelection index direction.isBackward shouldExpand

end View

inductive Call where
  | setContent (count : ℕ)
  | setSelectionIndexes (indexes : Finset ℕ)
  | click (control shift : Bool) (index : ℕ)
  | move (direction : Direction) (shouldExpand : Bool)
  | setSelectable (flag : Bool)
  | itemAtIndex (index : ℕ)

namespace Call

def perform (view : View) : Call → Option View
  | setContent count => some (view.setContent count)
  | setSelectionIndexes indexes => some (view.setSelectionIndexes indexes)
  | click control shift index => some (view.selectWithEvent control shift index)
  | move direction shouldExpand => view.move direction shouldExpand
  | setSelectable flag => view.setSelectable flag
  | itemAtIndex index => view.itemAtIndex index

/-- The indexes that a call may have. -/
def Valid (view : View) : Call → Prop
  | setSelectionIndexes indexes => ∀ index ∈ indexes, index < view.items.length
  | itemAtIndex index => index < view.items.length ∧ view.hasItemPrototype = true
  | _ => True

/-- A click with the shift key on an item of a view where it extends the selection. -/
def Extends (view : View) (index : ℕ) : Call → Prop
  | click control shift i => i = index ∧ index < view.items.length ∧ view.isSelectable = true ∧
      view.allowsMultipleSelection = true ∧ control = false ∧ shift = true
  | _ => False

end Call

namespace View

/-! ## What is claimed, and where it holds -/

/-- The selected indexes are those of items, an item that has been made has the flag if its index is selected, and the
index paths are those of the indexes. -/
structure Consistent (view : View) : Prop where
  valid : ∀ index ∈ view.selectionIndexes, index < view.items.length
  flags : ∀ (index : ℕ) (flag : Bool), view.items[index]? = some (some flag) →
    (flag = true ↔ index ∈ view.selectionIndexes)
  paths : view.selectionIndexPaths = view.selectionIndexes

/-- The selection after a click with the shift key. -/
def extended (view : View) (index : ℕ) : Finset ℕ :=
  let first := view.firstIndex.getD index
  view.selectionIndexes ∪ Finset.Icc (min first index) (max first index)

/-- A call that raises nothing and keeps the indexes and the flags together, and that extends the selection as a click
with the shift key has to. -/
def Right (view : View) (call : Call) : Prop :=
  ∃ view', call.perform view = some view' ∧ view'.Consistent ∧
    ∀ index, call.Extends view index → view'.selectionIndexes = view.extended index

def Fits (view : View) : Call → Prop
  | .setContent count => ∀ index ∈ view.selectionIndexes, index < count
  | .setSelectionIndexes _ => True
  | .click control shift index =>
    (Call.click control shift index).Extends view index → view.selectionIndexes ≠ ∅ ∨ index = 1
  | .move direction _ => view.numberOfColumns = 0 → view.target direction = none
  | .setSelectable flag => flag = true ∨ ∀ index ∈ view.selectionIndexes, view.items[index]? = some none
  | .itemAtIndex _ => True

/-! ## Setting the selection -/

variable {view : View}

theorem getElem?_flagItems (items : List (Option Bool)) (indexes : Finset ℕ) (flag : Bool) (index : ℕ) :
    (flagItems items indexes flag)[index]? =
      items[index]?.map fun item => if index ∈ indexes then item.map fun _ => flag else item := by
  rw [flagItems, List.getElem?_mapIdx]

theorem length_flagItems (items : List (Option Bool)) (indexes : Finset ℕ) (flag : Bool) :
    (flagItems items indexes flag).length = items.length := List.length_mapIdx

theorem length_setSelectionIndexes (view : View) (indexes : Finset ℕ) :
    (view.setSelectionIndexes indexes).items.length = view.items.length := by
  unfold setSelectionIndexes
  split
  · rfl
  · exact (length_flagItems _ _ _).trans (List.length_map _)

theorem numberOfColumns_setSelectionIndexes (view : View) (indexes : Finset ℕ) :
    (view.setSelectionIndexes indexes).numberOfColumns = view.numberOfColumns := by
  unfold setSelectionIndexes
  split <;> rfl

theorem selectionIndexes_setSelectionIndexes (hs : view.isSelectable = true) (indexes : Finset ℕ) :
    (view.setSelectionIndexes indexes).selectionIndexes = indexes := by
  rw [setSelectionIndexes, if_neg (by rw [hs]; exact nofun)]

theorem consistent_setSelectionIndexes (hv : view.Consistent) {indexes : Finset ℕ}
    (hvl : ∀ index ∈ indexes, index < view.items.length) : (view.setSelectionIndexes indexes).Consistent := by
  unfold setSelectionIndexes
  split
  · exact hv
  · refine ⟨fun index hi => ?_, fun index flag hit => ?_, rfl⟩
    · rw [length_flagItems, List.length_map]
      exact hvl index hi
    · rw [getElem?_flagItems, List.getElem?_map, Option.map_map, Option.map_eq_some_iff] at hit
      obtain ⟨item, -, hit⟩ := hit
      cases item with
      | none => by_cases hi : index ∈ indexes <;> simp [hi] at hit
      | some old => by_cases hi : index ∈ indexes <;> simp [hi] at hit <;> simp [hi, ← hit]

theorem firstIndex_eq_some {first : ℕ} (h : view.firstIndex = some first) :
    first ∈ view.selectionIndexes ∧ ∀ index ∈ view.selectionIndexes, first ≤ index :=
  ⟨Finset.mem_of_min h, fun _ hi => Finset.min_le_of_eq hi h⟩

theorem lastIndex_eq_some {last : ℕ} (h : view.lastIndex = some last) :
    last ∈ view.selectionIndexes ∧ ∀ index ∈ view.selectionIndexes, index ≤ last :=
  ⟨Finset.mem_of_max h, fun _ hi => Finset.le_max_of_eq hi h⟩

theorem firstIndex_eq_none_iff : view.firstIndex = none ↔ view.selectionIndexes = ∅ := Finset.min_eq_top

/-! ## Clicks -/

theorem selectedRange_eq_Icc {first : ℕ} (h : view.firstIndex = some first) (index : ℕ) :
    view.selectedRange index = Finset.Icc (min first index) (max first index) := by
  ext i
  rw [selectedRange, h]
  dsimp only
  split
  all_goals
    rw [makeRange, Finset.mem_Ico, Finset.mem_Icc]
    omega

theorem selectedRange_of_empty (h : view.firstIndex = none) (index : ℕ) :
    view.selectedRange index = Finset.Ico index (index + index) := by
  rw [selectedRange, h]
  rfl

variable {index : ℕ}

/-- A click that extends nothing keeps the selection valid. -/
theorem consistent_click (hv : view.Consistent) {control shift : Bool}
    (hextends : ¬ (Call.click control shift index).Extends view index) :
    (view.selectWithEvent control shift index).Consistent := by
  unfold selectWithEvent
  split
  · rename_i hit
    split
    · rename_i hm
      split
      · split
        · exact consistent_setSelectionIndexes hv fun i hi => hv.valid i (Finset.mem_of_mem_erase hi)
        · refine consistent_setSelectionIndexes hv fun i hi => ?_
          rcases Finset.mem_insert.mp hi with rfl | hi
          · exact hit.2
          · exact hv.valid i hi
      · rename_i hc
        have hs := hm.2.resolve_left hc
        exact absurd ⟨rfl, hit.2, hit.1, hm.1, Bool.eq_false_iff.mpr hc, hs⟩ hextends
    · refine consistent_setSelectionIndexes hv fun i hi => ?_
      rw [Finset.mem_singleton.mp hi]
      exact hit.2
  · exact consistent_setSelectionIndexes hv fun i hi => absurd hi (Finset.notMem_empty i)

theorem click_extends {control shift : Bool} (hextends : (Call.click control shift index).Extends view index) :
    view.selectWithEvent control shift index =
      view.setSelectionIndexes (view.selectionIndexes ∪ view.selectedRange index) := by
  obtain ⟨-, hi, hs, hm, rfl, rfl⟩ := hextends
  rw [selectWithEvent, if_pos ⟨hs, hi⟩, if_pos ⟨hm, .inr rfl⟩, if_neg Bool.false_ne_true]

theorem right_click_iff (hv : view.Consistent) (control shift : Bool) (index : ℕ) :
    view.Right (.click control shift index) ↔ view.Fits (.click control shift index) := by
  by_cases hextends : (Call.click control shift index).Extends view index
  · have hidx := hextends.2.1
    have hs := hextends.2.2.1
    have hsl : (view.selectWithEvent control shift index).selectionIndexes =
        view.selectionIndexes ∪ view.selectedRange index := by
      rw [click_extends hextends, selectionIndexes_setSelectionIndexes hs]
    cases hf : view.firstIndex with
    | none =>
      have he := firstIndex_eq_none_iff.mp hf
      have hextended : view.extended index = {index} := by
        rw [extended, hf, he, Option.getD_none, min_self, max_self, Finset.empty_union, Finset.Icc_self]
      rw [selectedRange_of_empty hf, he, Finset.empty_union] at hsl
      rw [Fits, he]
      constructor
      · rintro ⟨view', hv', -, hrt⟩ -
        obtain rfl := Option.some.inj hv'
        have hsm := (hsl.symm.trans (hrt index hextends)).trans hextended
        have hsf : index ∈ Finset.Ico index (index + index) := hsm ▸ Finset.mem_singleton_self index
        have hn : index + 1 ∉ Finset.Ico index (index + index) := by
          rw [hsm, Finset.mem_singleton]
          omega
        rw [Finset.mem_Ico] at hsf hn
        exact .inr (by omega)
      · intro hft
        have ho := (hft hextends).resolve_left (absurd rfl)
        have hr : Finset.Ico index (index + index) = {index} := by
          rw [ho]
          rfl
        refine ⟨_, rfl, ?_, fun i hi => ?_⟩
        · rw [click_extends hextends, selectedRange_of_empty hf, he, Finset.empty_union, hr]
          refine consistent_setSelectionIndexes hv fun i hi => ?_
          rwa [Finset.mem_singleton.mp hi]
        · obtain rfl := hi.1
          rw [hsl, hr, hextended]
    | some first =>
      obtain ⟨hm, -⟩ := firstIndex_eq_some hf
      have hlt := hv.valid first hm
      refine iff_of_true ⟨_, rfl, ?_, fun i hi => ?_⟩ fun _ => .inl (Finset.ne_empty_of_mem hm)
      · rw [click_extends hextends, selectedRange_eq_Icc hf]
        refine consistent_setSelectionIndexes hv fun i hi => ?_
        rcases Finset.mem_union.mp hi with hi | hi
        · exact hv.valid i hi
        · rw [Finset.mem_Icc] at hi
          omega
      · obtain rfl := hi.1
        rw [hsl, selectedRange_eq_Icc hf, extended, hf, Option.getD_some]
  · refine iff_of_true ⟨_, rfl, consistent_click hv hextends, fun i hi => ?_⟩ fun h => absurd h hextends
    obtain rfl := hi.1
    exact absurd hi hextends

/-! ## Moves -/

theorem target_lt (hv : view.Consistent) {direction : Direction}
    (h : view.target direction = some index) : index < view.items.length := by
  cases direction with
  | up =>
    obtain ⟨first, hf, hi⟩ := Option.bind_eq_some_iff.mp h
    have := hv.valid first (firstIndex_eq_some hf).1
    split at hi
    · have := Option.some.inj hi
      omega
    · exact absurd hi nofun
  | down =>
    obtain ⟨last, hl, hi⟩ := Option.bind_eq_some_iff.mp h
    split at hi
    · have := Option.some.inj hi
      omega
    · exact absurd hi nofun
  | left =>
    obtain ⟨first, hf, hi⟩ := Option.bind_eq_some_iff.mp h
    have := hv.valid first (firstIndex_eq_some hf).1
    split at hi
    · have := Option.some.inj hi
      omega
    · exact absurd hi nofun
  | right =>
    obtain ⟨last, hl, hi⟩ := Option.bind_eq_some_iff.mp h
    have := hv.valid last (lastIndex_eq_some hl).1
    split at hi
    · have := Option.some.inj hi
      omega
    · exact absurd hi nofun

theorem modifySelection_spec (hv : view.Consistent) {anIndex : ℕ} (hidx : anIndex < view.items.length)
    (backward shouldExpand : Bool) : ∃ view' : View, view'.Consistent ∧
      view.modifySelection anIndex backward shouldExpand = if view.numberOfColumns = 0 then none else some view' := by
  have hc : min (max anIndex 0) (view.items.length - 1) = anIndex := by omega
  have hne : view.items ≠ [] := List.length_pos_iff.mp (Nat.zero_lt_of_lt hidx)
  have hs (indexes : Finset ℕ) : (view.setSelectionIndexes indexes).numberOfColumns = 0 ∧
      (view.setSelectionIndexes indexes).items ≠ [] ↔ view.numberOfColumns = 0 := by
    rw [numberOfColumns_setSelectionIndexes, ← List.length_pos_iff, length_setSelectionIndexes]
    exact and_iff_left (by omega)
  have hsgl : (view.setSelectionIndexes {anIndex}).Consistent :=
    consistent_setSelectionIndexes hv fun i hi => by rwa [Finset.mem_singleton.mp hi]
  unfold modifySelection
  rw [hc]
  by_cases hexpand : view.allowsMultipleSelection = true ∧ shouldExpand = true
  · simp only [if_pos hexpand]
    cases hf : view.firstIndex with
    | none =>
      exact ⟨view, hv, if_congr (and_iff_left hne) rfl rfl⟩
    | some first =>
      cases hls : view.lastIndex with
      | none =>
        exact ⟨view, hv, if_congr (and_iff_left hne) rfl rfl⟩
      | some last =>
        have hfir := hv.valid first (firstIndex_eq_some hf).1
        have hl := hv.valid last (lastIndex_eq_some hls).1
        refine ⟨_, consistent_setSelectionIndexes hv fun i hi => ?_, if_congr (hs _) rfl rfl⟩
        rcases Finset.mem_union.mp hi with hi | hi
        · exact hv.valid i hi
        · split at hi
          all_goals
            rw [makeRange, Finset.mem_Ico] at hi
            omega
  · simp only [if_neg hexpand]
    exact ⟨_, hsgl, if_congr (hs _) rfl rfl⟩

theorem right_move_iff (hv : view.Consistent) (direction : Direction) (shouldExpand : Bool) :
    view.Right (.move direction shouldExpand) ↔ view.Fits (.move direction shouldExpand) := by
  simp only [Right, Fits, Call.perform, move]
  cases ht : view.target direction with
  | none => exact iff_of_true ⟨view, rfl, hv, fun _ => nofun⟩ fun _ => rfl
  | some index =>
    dsimp only
    obtain ⟨view', hv', hm⟩ := modifySelection_spec hv (target_lt hv ht)
      direction.isBackward shouldExpand
    rw [hm]
    by_cases hc : view.numberOfColumns = 0
    · rw [if_pos hc]
      exact iff_of_false (fun ⟨_, hn, _⟩ => absurd hn nofun) fun h => absurd (h hc) nofun
    · rw [if_neg hc]
      exact iff_of_true ⟨view', rfl, hv', fun _ => nofun⟩ fun h => absurd h hc

/-! ## The other calls -/

theorem right_setContent_iff (hv : view.Consistent) (count : ℕ) :
    view.Right (.setContent count) ↔ view.Fits (.setContent count) := by
  have hits : (view.setContent count).items = List.replicate count none := by
    unfold setContent
    dsimp only
    split <;> rfl
  have hi : (view.setContent count).selectionIndexes = view.selectionIndexes := by
    unfold setContent
    dsimp only
    split <;> rfl
  have hp : (view.setContent count).selectionIndexPaths = view.selectionIndexPaths := by
    unfold setContent
    dsimp only
    split <;> rfl
  constructor
  · rintro ⟨view', hv', hc, -⟩
    obtain rfl := Option.some.inj hv'
    have hvl := hc.valid
    rw [hits, hi, List.length_replicate] at hvl
    exact hvl
  · intro hf
    refine ⟨_, rfl, ⟨?_, fun index flag hit => ?_, ?_⟩, fun _ => nofun⟩
    · rw [hits, hi, List.length_replicate]
      exact hf
    · rw [hits, List.getElem?_replicate] at hit
      split at hit <;> exact absurd hit nofun
    · rw [hp, hi, hv.paths]

theorem right_setSelectable_iff (hv : view.Consistent) (flag : Bool) :
    view.Right (.setSelectable flag) ↔ view.Fits (.setSelectable flag) := by
  cases flag with
  | true =>
    exact iff_of_true ⟨_, rfl, ⟨hv.valid, hv.flags, hv.paths⟩, fun _ => nofun⟩ (.inl rfl)
  | false =>
    have hp : (Call.setSelectable false).perform view = some { view with
        isSelectable := false
        items := flagItems view.items view.selectionIndexes false } := by
      refine if_neg ?_
      rintro ⟨index, hi, hle⟩
      exact absurd (hv.valid index hi) (not_lt.mpr hle)
    constructor
    · rintro ⟨view', hv', hc, -⟩
      obtain rfl := Option.some.inj (hp.symm.trans hv')
      refine .inr fun index hi => ?_
      have hlt := hv.valid index hi
      rw [List.getElem?_eq_getElem hlt]
      cases hit : view.items[index] with
      | none => rfl
      | some old =>
        have hg : (flagItems view.items view.selectionIndexes false)[index]? = some (some false) := by
          rw [getElem?_flagItems, List.getElem?_eq_getElem hlt, hit]
          simp [hi]
        exact absurd ((hc.flags index false hg).mpr hi) nofun
    · intro hf
      have hpl := hf.resolve_left nofun
      refine ⟨_, hp, ⟨fun index hi => ?_, fun index flag hit => ?_, hv.paths⟩, fun _ => nofun⟩
      · rw [length_flagItems]
        exact hv.valid index hi
      · rw [getElem?_flagItems, Option.map_eq_some_iff] at hit
        obtain ⟨item, hg, hit⟩ := hit
        by_cases hi : index ∈ view.selectionIndexes
        · rw [hpl index hi] at hg
          rw [if_pos hi, ← Option.some.inj hg] at hit
          exact absurd hit nofun
        · rw [if_neg hi] at hit
          exact hv.flags index flag (hg.trans (congrArg some hit))

theorem right_itemAtIndex (hv : view.Consistent) (hidx : index < view.items.length)
    (hp : view.hasItemPrototype = true) : view.Right (.itemAtIndex index) := by
  unfold Right
  rw [Call.perform, itemAtIndex, List.getElem?_eq_getElem hidx]
  cases view.items[index] with
  | some flag => exact ⟨view, rfl, hv, fun _ => nofun⟩
  | none =>
    refine ⟨_, if_pos hp, ⟨fun i hi => ?_, fun i flag hit => ?_, hv.paths⟩, fun _ => nofun⟩
    · rw [List.length_set]
      exact hv.valid i hi
    · dsimp only at hit
      rw [List.getElem?_set] at hit
      split at hit
      · rename_i hs
        rw [← Option.some.inj (Option.some.inj hit), decide_eq_true_eq, hs]
      · exact hv.flags i flag hit

theorem right_iff_fits (view : View) (call : Call) (hv : view.Consistent) (hvl : call.Valid view) :
    view.Right call ↔ view.Fits call := by
  cases call with
  | setContent count => exact right_setContent_iff hv count
  | setSelectionIndexes indexes =>
    exact iff_of_true ⟨_, rfl, consistent_setSelectionIndexes hv hvl, fun _ => nofun⟩ trivial
  | click control shift index => exact right_click_iff hv control shift index
  | move direction shouldExpand => exact right_move_iff hv direction shouldExpand
  | setSelectable flag => exact right_setSelectable_iff hv flag
  | itemAtIndex index => exact iff_of_true (right_itemAtIndex hv hvl.1 hvl.2) trivial

end View

/-! ## Runs -/

open CallRuns

/-- A run does what is claimed in each of its calls if, and only if, each suits the view that it is made on. -/
theorem selection_consistent_iff (view : View) (calls : List Call) (hview : view.Consistent)
    (hvalid : Each (fun view call => Call.perform view call) (fun view call => call.Valid view) view calls) :
    Each (fun view call => Call.perform view call) View.Right view calls ↔
      Each (fun view call => Call.perform view call) View.Fits view calls := by
  refine each_iff View.right_iff_fits (fun view call hr view' hview' => ?_) hview hvalid
  obtain ⟨view'', hp, hc, -⟩ := hr
  rwa [Option.some.inj (hp.symm.trans hview')] at hc

/-- Three objects, none of them selected. -/
def threeItems : View :=
  ⟨[none, none, none], ∅, ∅, true, true, true, 2, 2⟩

theorem threeItems_consistent : threeItems.Consistent where
  valid index hi := absurd hi (Finset.notMem_empty index)
  flags index flag hit := by
    have hm := List.mem_of_getElem? hit
    simp [threeItems] at hm
  paths := rfl

theorem selection_consistent_click : Each (fun view call => Call.perform view call) View.Right threeItems
    [.click false false 2] := by
  refine (selection_consistent_iff threeItems [.click false false 2] threeItems_consistent
    ⟨trivial, fun _ _ => trivial⟩).mpr ⟨fun h => absurd h.2.2.2.2.2 nofun, fun _ _ => trivial⟩

/-- A click with the shift key on the first item selects nothing. -/
theorem selection_not_consistent : ¬ ∀ (view : View) (calls : List Call), view.Consistent → view.isSelectable = true →
    Each (fun view call => Call.perform view call) (fun view call => call.Valid view) view calls →
      Each (fun view call => Call.perform view call) View.Right view calls := by
  intro h
  obtain ⟨⟨view', hp, -, hextended⟩, -⟩ :=
    h threeItems [.click false true 0] threeItems_consistent rfl ⟨trivial, fun _ _ => trivial⟩
  have hc := hextended 0 ⟨rfl, by decide, rfl, rfl, rfl, rfl⟩
  obtain rfl := Option.some.inj hp
  exact absurd hc (by decide +kernel)

end GnustepGui.CollectionView.Selecting
