import GnustepGui.Menu.Cells

/-!
# A menu and its view stay in step

`InStep menu wanted`: one cell for each item, cell `i` showing item `i`, and the highlight on the item
`wanted`, or nowhere. With change messages disabled the notifications wait: `Behind` says that a replay
of their indexes in the old cells, each insertion marked with its index, stands in line with the items.
When messages are enabled again the view is in step as soon as every mark left has the index it stands at
(`QueueFits`), since the view reads the items at these indexes (`stays_in_step`).
-/

namespace GnustepGui.Menu

open IndexEdits

variable {α : Type} [DecidableEq α]

/-! ## What the view shows -/

def InStep (menu : NSMenu α) (wanted : Option α) : Prop :=
  menu.view.itemCells.map NSMenuItemCell.menuItem = menu.items ∧
    match wanted with
    | none => menu.view.highlightedItemIndex = -1
    | some item => ∃ i : Nat, menu.view.highlightedItemIndex = i ∧ menu.items[i]? = some item

/-- The item highlighted last, until it is removed. -/
structure Highlight (α : Type) where
  item : Option α
  /-- The items removed since change messages were disabled; their cells are still there. -/
  removed : List α

def Highlight.after (highlight : Highlight α) (menu : NSMenu α) : MenuCall α → Highlight α
  | .insertItem _ _ => highlight
  | .removeItemAtIndex index =>
    match menu.items[index]? with
    | none => highlight
    | some anItem =>
      { item := if highlight.item = some anItem then none else highlight.item
        removed := if menu.changedMessagesEnabled then [] else anItem :: highlight.removed }
  | .setHighlightedItemIndex index =>
    let cell := if 0 ≤ index then menu.view.itemCells[index.toNat]? else none
    match cell with
    | none => { highlight with item := none }
    | some c => { highlight with item := if c.menuItem ∈ highlight.removed then none else some c.menuItem }
  | .setMenuChangedMessagesEnabled flag => { highlight with removed := if flag then [] else highlight.removed }

/-! ## Which calls are considered -/

/-- What is left of a cell or of a queued insertion. -/
inductive Mark (α : Type) where
  | cell (c : NSMenuItemCell α)
  | queued (index : Nat)
  deriving DecidableEq, Repr

/-- Where the old cells and the queued insertions end up. -/
def NSMenu.marks (menu : NSMenu α) : Option (List (Mark α)) :=
  replay Mark.queued (menu.view.itemCells.map Mark.cell) (menu.notifications.map NSMenuNotification.edit)

/-- The new item of an insertion is where its index says. -/
def Mark.StandsAt (p : Nat) : Mark α → Prop
  | cell _ => True
  | queued index => index = p

/-- The index of an insertion is in an array of `count` items. -/
def NSMenuNotification.Within (count : Nat) : NSMenuNotification → Prop
  | didAddItem index => index < count
  | didRemoveItem _ => True

/-- Every index of a queued insertion is in the array of the menu, and where the new item is still in the
menu it is at this index. -/
def QueueFits (menu : NSMenu α) : Prop :=
  (∀ n ∈ menu.notifications, n.Within menu.items.length) ∧
    ∀ marks ∈ menu.marks, ∀ p (h : p < marks.length), Mark.StandsAt p marks[p]

def Valid (menu : NSMenu α) : MenuCall α → Prop
  | .insertItem _ index => index ≤ menu.items.length
  | .removeItemAtIndex index => index < menu.items.length
  | .setHighlightedItemIndex index => index = -1 ∨ 0 ≤ index ∧ index < menu.view.itemCells.length
  | .setMenuChangedMessagesEnabled _ => True

def Fits (menu : NSMenu α) : MenuCall α → Prop
  | .setMenuChangedMessagesEnabled flag =>
    flag = true → menu.changedMessagesEnabled = false → QueueFits menu
  | _ => True

/-- Every call of a run meets a condition in the state it finds. -/
def RunMeets (P : NSMenu α → MenuCall α → Prop) (menu : NSMenu α) : List (MenuCall α) → Prop
  | [] => True
  | call :: calls => P menu call ∧ ∀ menu' ∈ menu.call call, RunMeets P menu' calls

section

omit [DecidableEq α]

instance (p : Nat) : (m : Mark α) → Decidable (m.StandsAt p)
  | .cell _ => instDecidableTrue
  | .queued index => inferInstanceAs (Decidable (index = p))

instance (count : Nat) : (n : NSMenuNotification) → Decidable (n.Within count)
  | .didAddItem index => inferInstanceAs (Decidable (index < count))
  | .didRemoveItem _ => instDecidableTrue

instance (menu : NSMenu α) : Decidable (QueueFits menu) :=
  inferInstanceAs (Decidable (_ ∧ _))

instance (menu : NSMenu α) : (call : MenuCall α) → Decidable (Valid menu call)
  | .insertItem _ index => inferInstanceAs (Decidable (index ≤ menu.items.length))
  | .removeItemAtIndex index => inferInstanceAs (Decidable (index < menu.items.length))
  | .setHighlightedItemIndex index =>
    inferInstanceAs (Decidable (index = -1 ∨ 0 ≤ index ∧ index < menu.view.itemCells.length))
  | .setMenuChangedMessagesEnabled _ => instDecidableTrue

instance (menu : NSMenu α) : (call : MenuCall α) → Decidable (Fits menu call)
  | .insertItem _ _ => instDecidableTrue
  | .removeItemAtIndex _ => instDecidableTrue
  | .setHighlightedItemIndex _ => instDecidableTrue
  | .setMenuChangedMessagesEnabled flag =>
    inferInstanceAs (Decidable (flag = true → menu.changedMessagesEnabled = false → QueueFits menu))

end

instance (P : NSMenu α → MenuCall α → Prop) [∀ menu call, Decidable (P menu call)] :
    (menu : NSMenu α) → (calls : List (MenuCall α)) → Decidable (RunMeets P menu calls)
  | _, [] => instDecidableTrue
  | menu, call :: calls =>
    have : DecidablePred fun menu' => RunMeets P menu' calls := fun menu' => instDecidableRunMeets P menu' calls
    inferInstanceAs (Decidable (P menu call ∧ ∀ menu' ∈ menu.call call, RunMeets P menu' calls))

/-- The calls one after the other, with the item that is highlighted. -/
def runHighlight (menu : NSMenu α) (highlight : Highlight α) : List (MenuCall α) →
    Option (NSMenu α × Highlight α)
  | [] => some (menu, highlight)
  | call :: calls => (menu.call call).bind fun menu' => runHighlight menu' (highlight.after menu call) calls

/-- A run raises nothing and ends in step, if it ends with messages enabled. -/
def EndsInStep (attached : α → Bool) (calls : List (MenuCall α)) : Prop :=
  ∃ menu highlight, runHighlight (NSMenu.new attached) ⟨none, []⟩ calls = some (menu, highlight) ∧
    (menu.changedMessagesEnabled = true → InStep menu highlight.item)

/-! ## The invariant -/

variable {menu : NSMenu α} {highlight : Highlight α} {marks : List (Mark α)}

section

omit [DecidableEq α]

structure Behind (menu : NSMenu α) (highlight : Highlight α) (marks : List (Mark α)) : Prop where
  lit : Lit menu.view
  nodup : menu.items.Nodup
  attached : ∀ x ∈ menu.items, menu.attached x = true
  distinct : (menu.view.itemCells.map NSMenuItemCell.menuItem).Nodup
  replayed : menu.marks = some marks
  length : marks.length = menu.items.length
  shows : ∀ (p : Nat) c, marks[p]? = some (Mark.cell c) → menu.items[p]? = some c.menuItem
  kept : ∀ c ∈ menu.view.itemCells, (Mark.cell c ∈ marks ↔ c.menuItem ∉ highlight.removed)
  wanted : ∀ a, highlight.item = some a ↔ ∃ c, Mark.cell c ∈ marks ∧ c.highlighted = true ∧ c.menuItem = a

structure Invariant (menu : NSMenu α) (highlight : Highlight α) : Prop where
  behind : ∃ marks, Behind menu highlight marks
  enabled : menu.changedMessagesEnabled = true → menu.notifications = [] ∧ highlight.removed = []

theorem marks_nil (h : menu.notifications = []) : menu.marks = some (menu.view.itemCells.map Mark.cell) := by
  unfold NSMenu.marks
  rw [h]
  rfl

variable {c : NSMenuItemCell α}

theorem mem_cell_map {cells : List (NSMenuItemCell α)} : Mark.cell c ∈ cells.map Mark.cell ↔ c ∈ cells :=
  List.mem_map_of_injective fun _ _ => Mark.cell.inj

theorem mem_cell_insertIdx {i j : Nat} (hi : i ≤ marks.length) :
    Mark.cell c ∈ marks.insertIdx i (.queued j) ↔ Mark.cell c ∈ marks := by
  rw [List.mem_insertIdx hi]
  constructor
  · rintro (h | h)
    · exact nomatch h
    · exact h
  · exact .inr

theorem Behind.mem_cells (h : Behind menu highlight marks) (hc : Mark.cell c ∈ marks) : c ∈ menu.view.itemCells := by
  rcases mem_replay h.replayed hc with hc | ⟨i, hi⟩
  · exact mem_cell_map.1 hc
  · exact nomatch hi

theorem Behind.mem_cell_eraseIdx (h : Behind menu highlight marks) {i : Nat} {item : α}
    (hit : menu.items[i]? = some item) : Mark.cell c ∈ marks.eraseIdx i ↔ Mark.cell c ∈ marks ∧ c.menuItem ≠ item := by
  have hi : ∀ p, marks[p]? = some (Mark.cell c) → (p ≠ i ↔ c.menuItem ≠ item) := by
    intro p hp
    have hs := h.shows p c hp
    constructor
    · rintro hpi rfl
      have hlt := (List.getElem?_eq_some_iff.1 hs).1
      exact hpi ((List.getElem?_inj hlt h.nodup).1 (hs.trans hit.symm))
    · rintro hne rfl
      exact hne (Option.some.inj (hs.symm.trans hit))
  rw [List.mem_eraseIdx_iff_getElem?]
  constructor
  · rintro ⟨p, hpi, hp⟩
    exact ⟨List.mem_of_getElem? hp, (hi p hp).1 hpi⟩
  · rintro ⟨hm, hne⟩
    obtain ⟨p, hp⟩ := List.mem_iff_getElem?.1 hm
    exact ⟨p, (hi p hp).2 hne, hp⟩

/-! ## Notifications that wait -/

theorem marks_queued {items : List α} {attached : α → Bool} (n : NSMenuNotification)
    (h : menu.marks = some marks) :
    NSMenu.marks { menu with
      items := items, attached := attached, notifications := menu.notifications ++ [n] } =
      n.edit.apply Mark.queued marks := by
  unfold NSMenu.marks at h ⊢
  rw [List.map_append, List.map_singleton, replay_concat, h]
  rfl

end

variable {newItem : α} {index : Nat}

theorem Behind.inserted (h : Behind menu highlight marks)
    (hf : menu.attached newItem = false) (hi : index ≤ menu.items.length) :
    Behind { menu with
      items := menu.items.insertIdx index newItem
      attached := Function.update menu.attached newItem true
      notifications := menu.notifications ++ [.didAddItem index] } highlight
      (marks.insertIdx index (.queued index)) := by
  have hm : index ≤ marks.length := h.length ▸ hi
  have hn : newItem ∉ menu.items := by
    intro hmem
    rw [h.attached _ hmem] at hf
    exact nomatch hf
  refine { h with
    nodup := ?_, attached := ?_, replayed := ?_, length := ?_, shows := ?_, kept := ?_, wanted := ?_ }
  · rw [(List.perm_insertIdx newItem menu.items hi).nodup_iff]
    exact List.nodup_cons.2 ⟨hn, h.nodup⟩
  · intro x hx
    rcases (List.mem_insertIdx hi).1 hx with rfl | hx
    · exact Function.update_self ..
    · show Function.update _ _ _ _ = _
      rw [Function.update_of_ne (ne_of_mem_of_not_mem hx hn)]
      exact h.attached x hx
  · rw [marks_queued _ h.replayed]
    exact if_pos hm
  · show _ = (menu.items.insertIdx index newItem).length
    rw [List.length_insertIdx_of_le_length hm, List.length_insertIdx_of_le_length hi, h.length]
  · intro p c hp
    show (menu.items.insertIdx index newItem)[p]? = _
    rw [List.getElem?_insertIdx] at hp ⊢
    split
    · rename_i hlt
      rw [if_pos hlt] at hp
      exact h.shows p c hp
    · rename_i hlt
      rw [if_neg hlt] at hp
      split
      · rename_i heq
        rw [if_pos heq, if_pos (heq ▸ hm)] at hp
        exact nomatch Option.some.inj hp
      · rename_i heq
        rw [if_neg heq] at hp
        exact h.shows (p - 1) c hp
  · intro c hc
    rw [mem_cell_insertIdx hm]
    exact h.kept c hc
  · intro a
    simp only [mem_cell_insertIdx hm]
    exact h.wanted a

/-- The highlighted item and the removed ones after a removal. -/
def Highlight.without (highlight : Highlight α) (anItem : α) : Highlight α where
  item := if highlight.item = some anItem then none else highlight.item
  removed := anItem :: highlight.removed

theorem Behind.removed (h : Behind menu highlight marks) {anItem : α}
    (hit : menu.items[index]? = some anItem) :
    Behind { menu with
      items := menu.items.eraseIdx index
      attached := Function.update menu.attached anItem false
      notifications := menu.notifications ++ [.didRemoveItem index] } (highlight.without anItem)
      (marks.eraseIdx index) := by
  have hi := (List.getElem?_eq_some_iff.1 hit).1
  have hm : index < marks.length := h.length ▸ hi
  refine { h with
    nodup := ?_, attached := ?_, replayed := ?_, length := ?_, shows := ?_, kept := ?_, wanted := ?_ }
  · exact h.nodup.sublist (List.eraseIdx_sublist ..)
  · intro x hx
    have hne : x ≠ anItem := by
      rintro rfl
      obtain ⟨p, hp, hx⟩ := List.mem_eraseIdx_iff_getElem?.1 hx
      exact hp ((List.getElem?_inj (List.getElem?_eq_some_iff.1 hx).1 h.nodup).1 (hx.trans hit.symm))
    show Function.update _ _ _ _ = _
    rw [Function.update_of_ne hne]
    exact h.attached x (List.mem_of_mem_eraseIdx hx)
  · rw [marks_queued _ h.replayed]
    exact if_pos hm
  · show _ = (menu.items.eraseIdx index).length
    rw [List.length_eraseIdx_of_lt hm, List.length_eraseIdx_of_lt hi, h.length]
  · intro p c hp
    show (menu.items.eraseIdx index)[p]? = _
    rw [List.getElem?_eraseIdx] at hp ⊢
    split
    · rename_i hlt
      rw [if_pos hlt] at hp
      exact h.shows p c hp
    · rename_i hlt
      rw [if_neg hlt] at hp
      exact h.shows (p + 1) c hp
  · intro c hc
    rw [h.mem_cell_eraseIdx hit, h.kept c hc]
    show _ ↔ c.menuItem ∉ anItem :: highlight.removed
    rw [List.mem_cons, not_or, and_comm]
  · intro a
    show (if highlight.item = some anItem then none else highlight.item) = some a ↔ _
    simp only [h.mem_cell_eraseIdx hit]
    have hw := h.wanted a
    constructor
    · intro ha
      split at ha
      · exact nomatch ha
      · rename_i hne
        obtain ⟨c, hc, hl, rfl⟩ := hw.1 ha
        exact ⟨c, ⟨hc, fun heq => hne (heq ▸ ha)⟩, hl, rfl⟩
    · rintro ⟨c, ⟨hc, hne⟩, hl, rfl⟩
      have ha := hw.2 ⟨c, hc, hl, rfl⟩
      rwa [if_neg]
      rw [ha]
      exact fun heq => hne (Option.some.inj heq)

/-! ## The queue is posted -/

section

omit [DecidableEq α]

theorem QueueFits.lt (h : QueueFits menu) {i : Nat} (hi : .didAddItem i ∈ menu.notifications) : i < menu.items.length :=
  h.1 _ hi

theorem QueueFits.index_eq (h : QueueFits menu) (hm : menu.marks = some marks) {p i : Nat}
    (hp : marks[p]? = some (Mark.queued i)) : i = p := by
  obtain ⟨hlt, ha⟩ := List.getElem?_eq_some_iff.1 hp
  have hs := h.2 marks hm p hlt
  rw [ha] at hs
  exact hs

end

/-- What a mark becomes when its notification is received. -/
def Mark.shown (items : List α) : Mark α → Option (NSMenuItemCell α)
  | cell c => some c
  | queued index => newCell items index

omit [DecidableEq α] in
theorem Behind.received (h : Behind menu highlight marks) (hf : QueueFits menu) :
    ∃ view, menu.notifications.foldlM (NSMenuView.receive menu.items) menu.view = some view ∧
      Behind { menu with view := view, notifications := [] } { highlight with removed := [] }
        (view.itemCells.map Mark.cell) := by
  have hr : replay (newCell menu.items) (menu.view.itemCells.map some)
      (menu.notifications.map NSMenuNotification.edit) = some (marks.map (Mark.shown menu.items)) := by
    have hmap := replay_map (Mark.shown menu.items) Mark.queued (menu.view.itemCells.map Mark.cell)
      (menu.notifications.map NSMenuNotification.edit)
    have hmks : replay Mark.queued (menu.view.itemCells.map Mark.cell)
        (menu.notifications.map NSMenuNotification.edit) = some marks := h.replayed
    rw [hmks, List.map_map] at hmap
    exact hmap
  obtain ⟨view, hv, hl, hcel⟩ := foldlM_receive h.lit (fun i => hf.lt) hr
  have hlen : view.itemCells.length = marks.length := by simpa using congrArg List.length hcel
  -- the cell at a place is an old one, or a new one that shows the item of the place
  have ha : ∀ (p : Nat) c, view.itemCells[p]? = some c → menu.items[p]? = some c.menuItem ∧
      (marks[p]? = some (Mark.cell c) ∨ c.highlighted = false) := by
    intro p c hc
    have hp := congrArg (·[p]?) hcel
    simp only [List.getElem?_map, hc, Option.map_some] at hp
    obtain ⟨m, hm, hs⟩ := Option.map_eq_some_iff.1 hp.symm
    cases m with
    | cell c' =>
      obtain rfl := Option.some.inj hs
      exact ⟨h.shows p c' hm, .inl hm⟩
    | queued i =>
      obtain rfl := hf.index_eq h.replayed hm
      obtain ⟨item, hit, rfl⟩ := Option.map_eq_some_iff.1 hs
      exact ⟨hit, .inr rfl⟩
  have hits : view.itemCells.map NSMenuItemCell.menuItem = menu.items := by
    apply List.ext_getElem?
    intro p
    rw [List.getElem?_map]
    cases hc : view.itemCells[p]? with
    | none =>
      rw [List.getElem?_eq_none_iff, hlen, h.length] at hc
      exact (List.getElem?_eq_none_iff.2 hc).symm
    | some c => exact (ha p c hc).1.symm
  have hold : ∀ c, Mark.cell c ∈ marks → c ∈ view.itemCells := by
    intro c hc
    obtain ⟨p, hp⟩ := List.mem_iff_getElem?.1 hc
    have hq := congrArg (·[p]?) hcel
    simp only [List.getElem?_map, hp, Option.map_some, Mark.shown] at hq
    obtain ⟨c', hc', heq⟩ := Option.map_eq_some_iff.1 hq
    obtain rfl := Option.some.inj heq
    exact List.mem_of_getElem? hc'
  refine ⟨view, hv, hl, h.nodup, h.attached, ?_, marks_nil rfl, ?_, ?_, ?_, ?_⟩
  · show (view.itemCells.map _).Nodup
    rw [hits]
    exact h.nodup
  · rw [List.length_map, hlen, h.length]
  · intro p c hc
    rw [List.getElem?_map] at hc
    obtain ⟨c', hc', heq⟩ := Option.map_eq_some_iff.1 hc
    obtain rfl := Mark.cell.inj heq
    exact (ha p c' hc').1
  · intro c hc
    exact iff_of_true (mem_cell_map.2 hc) List.not_mem_nil
  · intro a
    show highlight.item = some a ↔ _
    rw [h.wanted a]
    constructor
    · rintro ⟨c, hc, hl, rfl⟩
      exact ⟨c, mem_cell_map.2 (hold c hc), hl, rfl⟩
    · rintro ⟨c, hc, hl, rfl⟩
      obtain ⟨p, hp⟩ := List.mem_iff_getElem?.1 (mem_cell_map.1 hc)
      rcases (ha p c hp).2 with hmr | ho
      · exact ⟨c, List.mem_of_getElem? hmr, hl, rfl⟩
      · rw [hl] at ho
        exact nomatch ho

/-! ## The highlight changes -/

/-- The cells with the highlight on one item, or on none. -/
def NSMenuItemCell.light (item : Option α) (c : NSMenuItemCell α) : NSMenuItemCell α :=
  { c with highlighted := decide (some c.menuItem = item) }

def Mark.light (item : Option α) : Mark α → Mark α
  | cell c => cell (c.light item)
  | queued index => queued index

/-- The cell that the index of a highlight change names. -/
def NSMenuView.cellAt (view : NSMenuView α) (index : Int) : Option (NSMenuItemCell α) :=
  if 0 ≤ index then view.itemCells[index.toNat]? else none

theorem relit_eq_light (hd : (menu.view.itemCells.map NSMenuItemCell.menuItem).Nodup) {index : Int} :
    relit menu.view.itemCells index =
      menu.view.itemCells.map (NSMenuItemCell.light ((menu.view.cellAt index).map NSMenuItemCell.menuItem)) := by
  apply List.ext_getElem?
  intro p
  rw [getElem?_relit, List.getElem?_map]
  cases hc : menu.view.itemCells[p]? with
  | none => rfl
  | some c =>
    refine congrArg some (congrArg (NSMenuItemCell.mk c.menuItem) (decide_eq_decide.2 ?_))
    unfold NSMenuView.cellAt
    constructor
    · rintro rfl
      rw [if_pos (by omega), Int.toNat_natCast, hc]
      rfl
    · intro hit
      split at hit
      · have hlt : p < (menu.view.itemCells.map NSMenuItemCell.menuItem).length := by
          rw [List.length_map]
          exact (List.getElem?_eq_some_iff.1 hc).1
        have hp : index.toNat = p := by
          refine ((List.getElem?_inj hlt hd).1 ?_).symm
          rw [List.getElem?_map, List.getElem?_map, hc]
          exact hit
        omega
      · exact nomatch hit

theorem mem_cell_light {item : Option α} {c : NSMenuItemCell α} :
    Mark.cell c ∈ marks.map (Mark.light item) ↔ ∃ c', Mark.cell c' ∈ marks ∧ c'.light item = c := by
  rw [List.mem_map]
  constructor
  · rintro ⟨m, hm, heq⟩
    cases m with
    | cell c' => exact ⟨c', hm, Mark.cell.inj heq⟩
    | queued i => exact nomatch heq
  · rintro ⟨c', hm, rfl⟩
    exact ⟨_, hm, rfl⟩

theorem Behind.highlighted (h : Behind menu highlight marks) {index : Int}
    (hi : index = -1 ∨ 0 ≤ index ∧ index < menu.view.itemCells.length) :
    Behind { menu with view := menu.view.setHighlightedItemIndex index }
      (highlight.after menu (.setHighlightedItemIndex index))
      (marks.map (Mark.light ((menu.view.cellAt index).map NSMenuItemCell.menuItem))) := by
  have haft : highlight.after menu (.setHighlightedItemIndex index) =
      match menu.view.cellAt index with
      | none => { highlight with item := none }
      | some c => { highlight with item := if c.menuItem ∈ highlight.removed then none else some c.menuItem } := rfl
  have hr : (highlight.after menu (.setHighlightedItemIndex index)).removed = highlight.removed := by
    rw [haft]
    cases menu.view.cellAt index <;> rfl
  have hin : ∀ c, menu.view.cellAt index = some c → c ∈ menu.view.itemCells := by
    intro c hc
    unfold NSMenuView.cellAt at hc
    split at hc
    · exact List.mem_of_getElem? hc
    · exact nomatch hc
  rw [setHighlightedItemIndex_of_lit h.lit, relit_eq_light h.distinct]
  generalize hit : (menu.view.cellAt index).map NSMenuItemCell.menuItem = item
  refine ⟨?_, h.nodup, h.attached, ?_, ?_, ?_, ?_, ?_, ?_⟩
  · rw [← hit, ← relit_eq_light h.distinct]
    exact lit_relit _ (by omega) (by omega)
  · show ((menu.view.itemCells.map _).map _).Nodup
    rw [List.map_map]
    exact h.distinct
  · have hmap := replay_map (Mark.light item) Mark.queued (menu.view.itemCells.map Mark.cell)
      (menu.notifications.map NSMenuNotification.edit)
    have hmks : replay Mark.queued (menu.view.itemCells.map Mark.cell)
        (menu.notifications.map NSMenuNotification.edit) = some marks := h.replayed
    rw [hmks] at hmap
    unfold NSMenu.marks
    rw [List.map_map] at hmap ⊢
    exact hmap
  · rw [List.length_map]
    exact h.length
  · intro p c hc
    rw [List.getElem?_map] at hc
    obtain ⟨m, hm, heq⟩ := Option.map_eq_some_iff.1 hc
    cases m with
    | cell c' =>
      obtain rfl := Mark.cell.inj heq
      exact h.shows p c' hm
    | queued i => exact nomatch heq
  · intro c hc
    rw [hr, mem_cell_light]
    obtain ⟨c', hc', rfl⟩ := List.mem_map.1 hc
    show _ ↔ c'.menuItem ∉ highlight.removed
    rw [← h.kept c' hc']
    constructor
    · rintro ⟨d, hd, heq⟩
      have hs : (d.light item).menuItem = (c'.light item).menuItem := congrArg NSMenuItemCell.menuItem heq
      rwa [← List.inj_on_of_nodup_map h.distinct (h.mem_cells hd) hc' hs]
    · exact fun hmem => ⟨c', hmem, rfl⟩
  · intro a
    have hl : (∃ c, Mark.cell c ∈ marks.map (Mark.light item) ∧ c.highlighted = true ∧ c.menuItem = a) ↔
        ∃ c, Mark.cell c ∈ marks ∧ some c.menuItem = item ∧ c.menuItem = a := by
      constructor
      · rintro ⟨c, hc, hon, rfl⟩
        obtain ⟨c', hc', rfl⟩ := mem_cell_light.1 hc
        exact ⟨c', hc', of_decide_eq_true hon, rfl⟩
      · rintro ⟨c, hc, hon, rfl⟩
        exact ⟨c.light item, mem_cell_light.2 ⟨c, hc, rfl⟩, decide_eq_true hon, rfl⟩
    rw [hl, haft]
    cases hcl : menu.view.cellAt index with
    | none =>
      rw [hcl] at hit
      obtain rfl := hit
      exact iff_of_false (fun ha => nomatch ha) (fun ⟨_, _, ha, _⟩ => nomatch ha)
    | some d =>
      rw [hcl] at hit
      obtain rfl := hit
      have hd := hin d hcl
      show (if d.menuItem ∈ highlight.removed then none else some d.menuItem) = some a ↔ _
      constructor
      · intro ha
        split at ha
        · exact nomatch ha
        · rename_i hk
          obtain rfl := Option.some.inj ha
          exact ⟨d, (h.kept d hd).2 hk, rfl, rfl⟩
      · rintro ⟨c, hc, hon, rfl⟩
        have hs := Option.some.inj hon
        rw [if_neg, hs]
        rw [← hs]
        exact (h.kept c (h.mem_cells hc)).1 hc

/-! ## Calls -/

section

omit [DecidableEq α]

theorem foldlM_post (menu : NSMenu α) (queue : List NSMenuNotification) :
    queue.foldlM NSMenu.post menu =
      (queue.foldlM (NSMenuView.receive menu.items) menu.view).map fun view => { menu with view := view } := by
  induction queue generalizing menu with
  | nil => rfl
  | cons n queue ih =>
    rw [List.foldlM_cons, List.foldlM_cons, NSMenu.post]
    cases menu.view.receive menu.items n with
    | none => rfl
    | some view => exact ih _

theorem Behind.queueFits (h : Behind menu highlight marks)
    (hin : ∀ i, NSMenuNotification.didAddItem i ∈ menu.notifications → i < menu.items.length)
    (hmks : ∀ p i : Nat, marks[p]? = some (Mark.queued i) → i = p) : QueueFits menu := by
  refine ⟨fun n hn => ?_, fun marks' h' p hp => ?_⟩
  · cases n with
    | didAddItem i => exact hin i hn
    | didRemoveItem i => trivial
  · obtain rfl := Option.some.inj (h.replayed.symm.trans h')
    have hm := List.getElem?_eq_getElem hp
    cases hc : marks[p] with
    | cell c => trivial
    | queued i => exact hmks p i (hm.trans (congrArg some hc))

theorem Behind.cell_of_empty (h : Behind menu highlight marks) (he : menu.notifications = []) :
    ∀ m ∈ marks, ∃ c, m = Mark.cell c := by
  obtain rfl := Option.some.inj (h.replayed.symm.trans (marks_nil he))
  intro m hm
  obtain ⟨c, -, rfl⟩ := List.mem_map.1 hm
  exact ⟨c, rfl⟩

/-- A notification is posted at once, which needs a queue of its own that fits, or it waits. -/
theorem Behind.notify (menu : NSMenu α) {n : NSMenuNotification}
    (h : Behind { menu with notifications := menu.notifications ++ [n] } highlight marks)
    (he : menu.changedMessagesEnabled = true → menu.notifications = [])
    (hf : menu.notifications = [] → QueueFits { menu with notifications := menu.notifications ++ [n] }) :
    ∃ menu', menu.notify n = some menu' ∧ Invariant menu'
      { highlight with removed := if menu.changedMessagesEnabled then [] else highlight.removed } := by
  unfold NSMenu.notify
  by_cases hen : menu.changedMessagesEnabled = true
  · have hn := he hen
    rw [if_pos hen, if_pos hen]
    obtain ⟨view, hv, hb⟩ := h.received (hf hn)
    simp only [hn, List.nil_append, List.foldlM_cons] at hv hb
    obtain ⟨view', hv', hs⟩ := Option.bind_eq_some_iff.1 hv
    obtain rfl := Option.some.inj hs
    refine ⟨{ menu with view := view' }, ?_, ⟨view'.itemCells.map Mark.cell, ?_⟩,
      fun _ => ⟨hn, rfl⟩⟩
    · rw [NSMenu.post, hv']
      rfl
    · obtain ⟨items, enabled, notifications, attached, old⟩ := menu
      obtain rfl : notifications = [] := hn
      exact hb
  · rw [if_neg hen, if_neg hen]
    exact ⟨_, rfl, ⟨marks, h⟩, fun hon => absurd hon hen⟩

end

theorem insertItem_eq (hf : menu.attached newItem = false)
    (hi : index ≤ menu.items.length) :
    menu.insertItem newItem index = NSMenu.notify { menu with
      items := menu.items.insertIdx index newItem
      attached := Function.update menu.attached newItem true } (.didAddItem index) := by
  unfold NSMenu.insertItem NSMenu.notify NSMenu.post
  simp only [hf, Bool.false_eq_true, if_false, if_pos hi]
  split
  · rw [Option.map_map]
    rfl
  · rfl

theorem insertItem_keeps (h : Invariant menu highlight) (hidx : index ≤ menu.items.length) :
    ∃ menu', menu.insertItem newItem index = some menu' ∧ Invariant menu' highlight := by
  obtain ⟨marks, hb⟩ := h.behind
  cases ha : menu.attached newItem with
  | true => exact ⟨menu, if_pos ha, h⟩
  | false =>
    have hin := hb.inserted ha hidx
    obtain ⟨menu', hm', hk⟩ := Behind.notify { menu with
        items := menu.items.insertIdx index newItem
        attached := Function.update menu.attached newItem true } hin
      (fun hon => (h.enabled hon).1) fun he => by
      have hn : menu.notifications = [] := he
      refine hin.queueFits (fun i hi => ?_) fun p i hp => ?_
      · rw [hn] at hi
        obtain rfl := NSMenuNotification.didAddItem.inj (List.mem_singleton.1 hi)
        show i < (menu.items.insertIdx i newItem).length
        rw [List.length_insertIdx_of_le_length hidx]
        omega
      · -- all other marks are cells
        rw [List.getElem?_insertIdx] at hp
        split at hp
        · obtain ⟨c, hc⟩ := hb.cell_of_empty hn _ (List.mem_of_getElem? hp)
          exact nomatch hc
        · split at hp
          · rename_i heq
            split at hp
            · exact (Mark.queued.inj (Option.some.inj hp)).symm.trans heq.symm
            · exact nomatch hp
          · obtain ⟨c, hc⟩ := hb.cell_of_empty hn _ (List.mem_of_getElem? hp)
            exact nomatch hc
    refine ⟨menu', (insertItem_eq ha hidx).trans hm', ?_⟩
    have hs : { highlight with
        removed := if menu.changedMessagesEnabled then [] else highlight.removed } = highlight := by
      split
      · rename_i hon
        rw [← (h.enabled hon).2]
      · rfl
    exact hs ▸ hk

theorem removeItemAtIndex_keeps (h : Invariant menu highlight) (hidx : index < menu.items.length) :
    ∃ menu', menu.removeItemAtIndex index = some menu' ∧
      Invariant menu' (highlight.after menu (.removeItemAtIndex index)) := by
  obtain ⟨marks, hb⟩ := h.behind
  obtain ⟨anItem, hit⟩ : ∃ x, menu.items[index]? = some x := ⟨_, List.getElem?_eq_getElem hidx⟩
  have hr := hb.removed hit
  obtain ⟨menu', hm', hk⟩ := Behind.notify { menu with
      items := menu.items.eraseIdx index
      attached := Function.update menu.attached anItem false } hr
    (fun hon => (h.enabled hon).1) fun he => by
    have hn : menu.notifications = [] := he
    refine hr.queueFits (fun i hi => ?_) fun p i hp => ?_
    · rw [hn] at hi
      exact nomatch List.mem_singleton.1 hi
    · obtain ⟨c, hc⟩ := hb.cell_of_empty hn _ (List.mem_of_mem_eraseIdx (List.mem_of_getElem? hp))
      exact nomatch hc
  refine ⟨menu', ?_, ?_⟩
  · unfold NSMenu.removeItemAtIndex
    rw [hit]
    exact hm'
  · have ha : highlight.after menu (.removeItemAtIndex index) =
        { item := if highlight.item = some anItem then none else highlight.item
          removed := if menu.changedMessagesEnabled then [] else anItem :: highlight.removed } := by
      simp only [Highlight.after, hit]
    rw [ha]
    exact hk

theorem setMenuChangedMessagesEnabled_keeps (h : Invariant menu highlight) {flag : Bool}
    (hf : Fits menu (.setMenuChangedMessagesEnabled flag)) :
    ∃ menu', menu.setMenuChangedMessagesEnabled flag = some menu' ∧
      Invariant menu' (highlight.after menu (.setMenuChangedMessagesEnabled flag)) := by
  obtain ⟨marks, hb⟩ := h.behind
  unfold NSMenu.setMenuChangedMessagesEnabled
  by_cases hs : menu.changedMessagesEnabled = flag
  · refine ⟨menu, if_pos hs, ?_⟩
    have ha : highlight.after menu (.setMenuChangedMessagesEnabled flag) = highlight := by
      show { highlight with removed := if flag then [] else highlight.removed } = highlight
      split
      · rename_i hfl
        rw [← (h.enabled (hs.trans hfl)).2]
      · rfl
    rw [ha]
    exact h
  · rw [if_neg hs]
    cases flag with
    | false => exact ⟨_, rfl, ⟨marks, { hb with }⟩, fun hon => nomatch hon⟩
    | true =>
      have ho : menu.changedMessagesEnabled = false := Bool.not_eq_true _ ▸ hs
      obtain ⟨view, hv, hr⟩ := hb.received (hf rfl ho)
      refine ⟨{ menu with view := view, notifications := [], changedMessagesEnabled := true }, ?_,
        ⟨_, { hr with }⟩, fun _ => ⟨rfl, rfl⟩⟩
      rw [if_pos rfl, foldlM_post, hv]
      rfl

theorem call_keeps (h : Invariant menu highlight) {call : MenuCall α} (hv : Valid menu call) (hf : Fits menu call) :
    ∃ menu', menu.call call = some menu' ∧ Invariant menu' (highlight.after menu call) := by
  cases call with
  | insertItem newItem index => exact insertItem_keeps h hv
  | removeItemAtIndex index => exact removeItemAtIndex_keeps h hv
  | setHighlightedItemIndex index =>
    obtain ⟨marks, hb⟩ := h.behind
    refine ⟨_, rfl, ⟨_, hb.highlighted hv⟩, fun hon => ?_⟩
    obtain ⟨he, hr⟩ := h.enabled hon
    refine ⟨he, ?_⟩
    rw [← hr]
    simp only [Highlight.after]
    split <;> rfl
  | setMenuChangedMessagesEnabled flag => exact setMenuChangedMessagesEnabled_keeps h hf

/-! ## Runs -/

omit [DecidableEq α] in
theorem invariant_new (attached : α → Bool) : Invariant (NSMenu.new attached) ⟨none, []⟩ where
  behind := by
    refine ⟨[], ⟨rfl, Int.le_refl (-1), Int.negSucc_lt_zero 0⟩, List.nodup_nil, ?_, List.nodup_nil, rfl, rfl, ?_, ?_, ?_⟩
    · exact fun x hx => absurd hx List.not_mem_nil
    · exact fun p c hc => nomatch hc
    · exact fun c hc => absurd hc List.not_mem_nil
    · exact fun a => iff_of_false (fun ha => nomatch ha) fun ⟨c, hc, _⟩ => absurd hc List.not_mem_nil
  enabled _ := ⟨rfl, rfl⟩

theorem run_keeps (h : Invariant menu highlight) {calls : List (MenuCall α)}
    (hf : RunMeets (fun menu call => Valid menu call ∧ Fits menu call) menu calls) :
    ∃ menu' highlight', runHighlight menu highlight calls = some (menu', highlight') ∧ Invariant menu' highlight' := by
  induction calls generalizing menu highlight with
  | nil => exact ⟨menu, highlight, rfl, h⟩
  | cons call calls ih =>
    obtain ⟨⟨hv, hc⟩, hrs⟩ := hf
    obtain ⟨menu', hm', hk⟩ := call_keeps h hv hc
    obtain ⟨menu'', highlight'', hr, hi⟩ := ih hk (hrs menu' hm')
    refine ⟨menu'', highlight'', ?_, hi⟩
    rw [runHighlight, hm']
    exact hr

omit [DecidableEq α] in
theorem Invariant.inStep (h : Invariant menu highlight) (hon : menu.changedMessagesEnabled = true) :
    InStep menu highlight.item := by
  obtain ⟨marks, hb⟩ := h.behind
  obtain rfl := Option.some.inj (hb.replayed.symm.trans (marks_nil (h.enabled hon).1))
  have hits : menu.view.itemCells.map NSMenuItemCell.menuItem = menu.items := by
    apply List.ext_getElem?
    intro p
    rw [List.getElem?_map]
    cases hc : menu.view.itemCells[p]? with
    | none =>
      have hl := hb.length
      rw [List.length_map] at hl
      rw [List.getElem?_eq_none_iff, hl] at hc
      exact (List.getElem?_eq_none_iff.2 hc).symm
    | some c =>
      refine (hb.shows p c ?_).symm
      rw [List.getElem?_map, hc]
      rfl
  have ha : ∀ {c : NSMenuItemCell α} {p : Nat}, menu.view.itemCells[p]? = some c →
      (c.highlighted = true ↔ menu.view.highlightedItemIndex = p) := by
    intro c p hc
    rw [hb.lit.highlighted hc, decide_eq_true_iff]
  refine ⟨hits, ?_⟩
  cases hw : highlight.item with
  | none =>
    by_contra hne
    have hlow := hb.lit.low
    obtain ⟨p, hp⟩ : ∃ p : Nat, menu.view.highlightedItemIndex = p := ⟨menu.view.highlightedItemIndex.toNat, by omega⟩
    have hlt : p < menu.view.itemCells.length := by
      have hh := hb.lit.high
      omega
    have hc := List.getElem?_eq_getElem hlt
    have hs := (hb.wanted _).2 ⟨_, mem_cell_map.2 (List.mem_of_getElem? hc), (ha hc).2 hp, rfl⟩
    exact nomatch hw.symm.trans hs
  | some item =>
    obtain ⟨c, hc, hlit, rfl⟩ := (hb.wanted item).1 hw
    obtain ⟨p, hp⟩ := List.mem_iff_getElem?.1 (mem_cell_map.1 hc)
    refine ⟨p, (ha hp).1 hlit, ?_⟩
    rw [← hits, List.getElem?_map, hp]
    rfl

/-- Every run of valid calls whose queues fit raises nothing, and with messages enabled the view is in
step with the menu. The runs include the beginnings of each run. -/
theorem stays_in_step (attached : α → Bool) {calls : List (MenuCall α)}
    (hfits : RunMeets (fun menu call => Valid menu call ∧ Fits menu call) (NSMenu.new attached) calls) :
    EndsInStep attached calls := by
  obtain ⟨menu, highlight, hr, hi⟩ := run_keeps (invariant_new attached) hfits
  exact ⟨menu, highlight, hr, hi.inStep⟩

/-- While messages are disabled the first of two items is removed and another one is added at the end. -/
theorem stays_in_step_replaced : EndsInStep (fun _ : Nat => false)
    [.insertItem 0 0, .insertItem 1 1, .setHighlightedItemIndex 1, .setMenuChangedMessagesEnabled false,
      .removeItemAtIndex 0, .insertItem 2 1, .setMenuChangedMessagesEnabled true] :=
  stays_in_step _ (by decide)

/-- Two items are inserted in front while messages are disabled: the view shows the first of them twice. -/
theorem not_in_step_two_inserted : ∃ calls : List (MenuCall Nat),
    RunMeets Valid (NSMenu.new fun _ => false) calls ∧ ¬ EndsInStep (fun _ => false) calls := by
  refine ⟨[.insertItem 0 0, .setMenuChangedMessagesEnabled false, .insertItem 1 0, .insertItem 2 0,
    .setMenuChangedMessagesEnabled true], ?_, ?_⟩
  · decide
  · rintro ⟨menu, highlight, hr, hs⟩
    have hm := Option.some.inj hr
    obtain ⟨rfl, rfl⟩ := Prod.mk.inj hm
    exact absurd (hs rfl).1 (by decide)

end GnustepGui.Menu
