import GnustepGui.Menu.Cells
import GnustepGui.Menu.PopUp

/-!
# Selecting an item of a pop-up cell

`chosen cell item` is the cell with the item selected, its state on, the state of the old item off, and the highlight
on the item. Selecting an item gives this in spite of the synchronizing in between, as long as the highlighted item is
the old one or the new one, or there is none (`selectItem_eq_chosen`).
-/

namespace GnustepGui.Menu

namespace NSPopUpButtonCell

variable {cell : NSPopUpButtonCell} {item : Option Nat}

/-- A pop-up cell that is no pull-down and alters states. -/
structure Plain (cell : NSPopUpButtonCell) : Prop where
  popsUp : cell.pullsDown = false
  alters : cell.altersStateOfSelectedItem = true
  uses : cell.usesItemFromMenu = true

def highlighted (cell : NSPopUpButtonCell) : Int :=
  cell.menu.view.highlightedItemIndex

def chosen (cell : NSPopUpButtonCell) (item : Option Nat) : NSPopUpButtonCell :=
  if cell.selectedItem = item then
    cell
  else
    { cell with
      selectedItem := item
      on := fun x => if item = some x then true else if cell.selectedItem = some x then false else cell.on x
      menu := { cell.menu with view := cell.menu.view.setHighlightedItemIndex (cell.indexOfItem item) } }

/-! ## Indexes of items -/

theorem itemAtIndex_natCast (cell : NSPopUpButtonCell) (i : Nat) : cell.itemAtIndex i = cell.items[i]? := by
  unfold itemAtIndex
  rw [if_pos (by omega), Int.toNat_natCast]

theorem itemAtIndex_of_neg {i : Int} (h : i < 0) : cell.itemAtIndex i = none := if_neg (by omega)

variable {x : Nat}

theorem mem_of_itemAtIndex {i : Int} (h : cell.itemAtIndex i = some x) : x ∈ cell.items := by
  unfold itemAtIndex at h
  split at h
  · exact List.mem_of_getElem? h
  · exact nomatch h

theorem itemAtIndex_indexOfItem (cell : NSPopUpButtonCell) (h : x ∈ cell.items) :
    cell.itemAtIndex (cell.indexOfItem (some x)) = some x := by
  have hi : cell.indexOfItem (some x) = cell.items.idxOf x := if_pos h
  rw [hi, itemAtIndex_natCast]
  exact List.getElem?_idxOf h

theorem indexOfItem_eq (hnd : cell.items.Nodup) {i : Nat} (h : cell.items[i]? = some x) :
    cell.indexOfItem (some x) = i := by
  have hm := List.mem_of_getElem? h
  have hi : cell.indexOfItem (some x) = cell.items.idxOf x := if_pos hm
  rw [hi]
  have hlt : cell.items.idxOf x < cell.items.length := List.idxOf_lt_length_of_mem hm
  exact congrArg Nat.cast ((List.getElem?_inj hlt hnd).1 ((List.getElem?_idxOf hm).trans h.symm))

/-! ## Inner calls -/

theorem setHighlightedItemIndex_same {i : Int} (h : i = cell.highlighted) : cell.setHighlightedItemIndex i = cell := by
  have hv : cell.menu.view.setHighlightedItemIndex i = cell.menu.view := if_pos h
  unfold setHighlightedItemIndex
  rw [hv]

theorem selectItem_same (cell : NSPopUpButtonCell) (h : cell.pullsDown = false) (fuel : Nat) :
    selectItem (fuel + 1) cell cell.selectedItem = .ok cell := by
  unfold selectItem
  simp only [if_true, h, Bool.false_eq_true, if_false]

theorem synchronizeWith_same {select : NSPopUpButtonCell → Option Nat → Except Stop NSPopUpButtonCell}
    (hs : select cell cell.selectedItem = .ok cell)
    (h : cell.highlighted < 0 ∨ cell.itemAtIndex cell.highlighted = cell.selectedItem) :
    cell.synchronizeWith select = .ok cell := by
  unfold synchronizeWith
  split
  · rfl
  · split
    · rfl
    · rename_i hn
      rcases h with h | h
      · exact absurd h hn
      · show select cell (cell.itemAtIndex cell.highlighted) = _
        rw [h]
        exact hs

variable {sync : NSPopUpButtonCell → Except Stop NSPopUpButtonCell}

theorem itemChanged_of_ok (h : sync cell = .ok cell) : cell.itemChanged sync x = .ok cell := by
  unfold itemChanged
  split
  · exact h
  · rfl

variable {flag : Bool}

theorem alterState_of_ok (hp : cell.Plain)
    (h : ∀ on, sync { cell with on := on } = .ok { cell with on := on }) :
    cell.alterState sync item flag =
      .ok { cell with on := fun x => if item = some x then flag else cell.on x } := by
  unfold alterState
  cases item with
  | none => simp
  | some x =>
    show (if _ then _ else _) = _
    rw [if_pos ⟨hp.popsUp, hp.alters⟩]
    have hon : (fun y => if some x = some y then flag else cell.on y) = Function.update cell.on x flag := by
      funext y
      rw [Function.update_apply]
      simp only [Option.some.injEq, eq_comm]
    rw [hon]
    unfold setState
    split
    · rename_i hs
      rw [← hs, Function.update_eq_self]
    · exact itemChanged_of_ok (h _)

/-! ## Selecting -/

theorem highlighted_setHighlightedItemIndex (cell : NSPopUpButtonCell) (i : Int) :
    (cell.setHighlightedItemIndex i).highlighted = i := by
  unfold setHighlightedItemIndex highlighted NSMenuView.setHighlightedItemIndex
  simp only [setHighlighted_unless]
  split
  · rename_i h
    exact h.symm
  · exact setHighlighted_index _ _ _

/-- The new item is on and highlighted: synchronizing again selects nothing else. -/
theorem alterState_on (cell : NSPopUpButtonCell) (hp : cell.Plain) (fuel : Nat) (hit : ∀ x, item = some x → x ∈ cell.items) :
    alterState (setHighlightedItemIndex { cell with selectedItem := item } (cell.indexOfItem item))
      (fun cell => cell.synchronizeWith (selectItem (fuel + 1))) item true =
    .ok (setHighlightedItemIndex { cell with
      selectedItem := item
      on := fun x => if item = some x then true else cell.on x } (cell.indexOfItem item)) := by
  have hp' : Plain (setHighlightedItemIndex { cell with selectedItem := item } (cell.indexOfItem item)) :=
    ⟨hp.popsUp, hp.alters, hp.uses⟩
  rw [alterState_of_ok hp']
  · rfl
  · intro on
    refine synchronizeWith_same (selectItem_same _ (by exact hp.popsUp) fuel) ?_
    have hi : highlighted { setHighlightedItemIndex { cell with selectedItem := item }
        (cell.indexOfItem item) with on := on } = cell.indexOfItem item :=
      highlighted_setHighlightedItemIndex { cell with selectedItem := item } _
    rw [hi]
    cases item with
    | none => exact .inl (show (-1 : Int) < 0 by decide)
    | some x => exact .inr (itemAtIndex_indexOfItem cell (hit x rfl))

theorem chosen_of_ne (h : cell.selectedItem ≠ item) :
    cell.chosen item = setHighlightedItemIndex { cell with
      selectedItem := item
      on := fun x => if item = some x then true else if cell.selectedItem = some x then false else cell.on x }
      (cell.indexOfItem item) := if_neg h

theorem selectItem_of_off {on : Nat → Bool} (hp : cell.Plain) (fuel : Nat)
    (hit : ∀ x, item = some x → x ∈ cell.items) (hne : cell.selectedItem ≠ item)
    (ho : cell.alterState (fun cell => cell.synchronizeWith (selectItem (fuel + 1))) cell.selectedItem false =
      .ok { cell with on := on })
    (hon : ∀ x, on x = if cell.selectedItem = some x then false else cell.on x) :
    selectItem (fuel + 2) cell item = .ok (cell.chosen item) := by
  unfold selectItem
  simp only [if_neg hne]
  rw [ho, chosen_of_ne hne]
  have hp' : Plain { cell with on := on } := ⟨hp.popsUp, hp.alters, hp.uses⟩
  have ha := alterState_on { cell with on := on } hp' fuel hit
  simp only [hon] at ha
  exact ha

/-- The cell with the state of the old item off. -/
def oldOff (cell : NSPopUpButtonCell) : NSPopUpButtonCell :=
  { cell with on := fun x => if cell.selectedItem = some x then false else cell.on x }

theorem chosen_oldOff (hne : cell.selectedItem ≠ item) : cell.oldOff.chosen item = cell.chosen item := by
  rw [chosen_of_ne hne, chosen_of_ne (show cell.oldOff.selectedItem ≠ item from hne)]
  have hon : (fun x => if item = some x then true else if cell.selectedItem = some x then false
      else if cell.selectedItem = some x then false else cell.on x) =
      fun x => if item = some x then true else if cell.selectedItem = some x then false else cell.on x := by
    funext x
    split
    · rfl
    · split <;> rfl
  exact congrArg (fun on => setHighlightedItemIndex { cell with selectedItem := item, on := on }
    (cell.indexOfItem item)) hon

theorem oldOff_eq_self (h : cell.selectedItem = none) : cell.oldOff = cell := by
  have hon : (fun x => if cell.selectedItem = some x then false else cell.on x) = cell.on := by
    funext x
    rw [h]
    rfl
  unfold oldOff
  rw [hon]

theorem setState_same (h : cell.on x = flag) : cell.setState sync x flag = .ok cell := if_pos h

theorem alterState_same (h : ∀ x, item = some x → cell.on x = flag) : cell.alterState sync item flag = .ok cell := by
  unfold alterState
  cases item with
  | none => rfl
  | some x =>
    show (if _ then _ else _) = _
    split
    · exact setState_same (h x rfl)
    · rfl

theorem alterState_some (hp : cell.Plain) : cell.alterState sync (some x) flag = cell.setState sync x flag :=
  if_pos ⟨hp.popsUp, hp.alters⟩

theorem selectItem_oldOff (hp : cell.Plain) (fuel : Nat) (hit : ∀ x, item = some x → x ∈ cell.items)
    (hne : cell.selectedItem ≠ item) : selectItem (fuel + 2) cell.oldOff item = .ok (cell.chosen item) := by
  have ho : ∀ x, cell.selectedItem = some x → cell.oldOff.on x = false := fun x hx => if_pos hx
  rw [← chosen_oldOff hne]
  have hp' : Plain cell.oldOff := ⟨hp.popsUp, hp.alters, hp.uses⟩
  refine selectItem_of_off hp' fuel hit hne (alterState_same ho) fun x => ?_
  by_cases hx : cell.selectedItem = some x
  · exact (ho x hx).trans (if_pos hx).symm
  · exact (if_neg hx).symm

/-- Told of the state of the old item, the cell leaves the selection or selects the new item. -/
theorem alterState_old (hp : cell.Plain) (fuel : Nat) (hit : ∀ x, item = some x → x ∈ cell.items)
    (hne : cell.selectedItem ≠ item) (h : cell.highlighted < 0 ∨ cell.itemAtIndex cell.highlighted = cell.selectedItem ∨
      cell.itemAtIndex cell.highlighted = item) :
    ∃ next, cell.alterState (fun cell => cell.synchronizeWith (selectItem (fuel + 2))) cell.selectedItem false =
      .ok next ∧ (next = cell.oldOff ∨ next = cell.chosen item) := by
  by_cases hs : cell.highlighted < 0 ∨ cell.itemAtIndex cell.highlighted = cell.selectedItem
  · refine ⟨_, alterState_of_ok hp fun on => ?_, .inl rfl⟩
    exact synchronizeWith_same (selectItem_same _ (by exact hp.popsUp) (fuel + 1)) hs
  · obtain ⟨hn, hnot⟩ := not_or.1 hs
    have hnew : cell.itemAtIndex cell.highlighted = item := (h.resolve_left hn).resolve_left hnot
    cases ho : cell.selectedItem with
    | none => exact ⟨cell, rfl, .inl (oldOff_eq_self ho).symm⟩
    | some x =>
      rw [alterState_some hp]
      have hu : { cell with on := Function.update cell.on x false } = cell.oldOff := by
        unfold oldOff
        congr 1
        funext y
        rw [Function.update_apply, ho]
        simp only [Option.some.injEq, eq_comm]
      unfold setState
      split
      · rename_i hoff
        refine ⟨cell, rfl, .inl ?_⟩
        rw [← hu, ← hoff, Function.update_eq_self]
      · rw [hu]
        unfold itemChanged
        split
        · show ∃ next, synchronizeWith cell.oldOff (selectItem (fuel + 2)) = _ ∧ _
          unfold synchronizeWith
          split
          · exact ⟨_, rfl, .inl rfl⟩
          · split
            · exact ⟨_, rfl, .inl rfl⟩
            · refine ⟨cell.chosen item, ?_, .inr rfl⟩
              have ha : cell.oldOff.itemAtIndex cell.oldOff.menu.view.highlightedItemIndex = item := hnew
              rw [ha]
              exact selectItem_oldOff hp fuel hit hne
        · exact ⟨_, rfl, .inl rfl⟩

theorem selectItem_eq_chosen (hp : cell.Plain) (fuel : Nat) (hit : ∀ x, item = some x → x ∈ cell.items)
    (h : cell.highlighted < 0 ∨ cell.itemAtIndex cell.highlighted = cell.selectedItem ∨
      cell.itemAtIndex cell.highlighted = item) : selectItem (fuel + 3) cell item = .ok (cell.chosen item) := by
  by_cases hne : cell.selectedItem = item
  · subst hne
    rw [selectItem_same _ hp.popsUp, chosen, if_pos rfl]
  · obtain ⟨next, hn, hc⟩ := alterState_old hp fuel hit hne h
    rcases hc with rfl | rfl
    · exact selectItem_of_off hp (fuel + 1) hit hne hn fun x => rfl
    · unfold selectItem
      simp only [if_neg hne]
      rw [hn]
      -- the inner call has selected the item
      have hs : (cell.chosen item).selectedItem = item := by
        rw [chosen_of_ne hne]
        rfl
      have hi : (cell.chosen item).highlighted = cell.indexOfItem item := by
        rw [chosen_of_ne hne]
        exact highlighted_setHighlightedItemIndex _ _
      have hon : ∀ x, item = some x → (cell.chosen item).on x = true := by
        rw [chosen_of_ne hne]
        exact fun x hx => if_pos hx
      have hits : (cell.chosen item).indexOfItem item = cell.indexOfItem item := by
        rw [chosen_of_ne hne]
        rfl
      generalize cell.chosen item = next at hs hi hon hits
      have hsm : { next with selectedItem := item } = next := by rw [← hs]
      show alterState (setHighlightedItemIndex { next with selectedItem := item }
        (indexOfItem { next with selectedItem := item } item)) _ item true = _
      rw [hsm, hits, setHighlightedItemIndex_same hi.symm]
      exact alterState_same hon

theorem chosen_selectedItem (cell : NSPopUpButtonCell) (item : Option Nat) :
    (cell.chosen item).selectedItem = item := by
  unfold chosen
  split
  · assumption
  · rfl

theorem synchronize_eq (hp : cell.Plain) (fuel : Nat) :
    cell.synchronize (fuel + 3) =
      .ok (if cell.items = [] ∨ cell.highlighted < 0 then cell
        else cell.chosen (cell.itemAtIndex cell.highlighted)) := by
  unfold synchronize synchronizeWith
  have hf : (cell.usesItemFromMenu = false ∨ cell.items = [] ∨ cell.pullsDown = true) ↔ cell.items = [] := by
    simp [hp.uses, hp.popsUp]
  simp only [hf]
  by_cases he : cell.items = []
  · rw [if_pos he, if_pos (.inl he)]
  · rw [if_neg he]
    by_cases hn : cell.highlighted < 0
    · rw [if_pos (show cell.menu.view.highlightedItemIndex < 0 from hn), if_pos (.inr hn)]
    · rw [if_neg (show ¬ cell.menu.view.highlightedItemIndex < 0 from hn), if_neg (not_or.2 ⟨he, hn⟩)]
      exact selectItem_eq_chosen hp fuel (fun x hx => mem_of_itemAtIndex hx) (.inr (.inr rfl))

theorem synchronize_same (hp : cell.Plain) (fuel : Nat)
    (h : cell.highlighted < 0 ∨ cell.itemAtIndex cell.highlighted = cell.selectedItem) :
    cell.synchronize (fuel + 3) = .ok cell := synchronizeWith_same (selectItem_same _ hp.popsUp (fuel + 2)) h

end NSPopUpButtonCell

end GnustepGui.Menu
