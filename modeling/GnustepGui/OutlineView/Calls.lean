import GnustepGui.OutlineView.Rows

/-!
# Calls of an outline view

The rows over any sequence of reloads, expansions and collapses (`rows_listed`). The rows go wrong in
two ways: the children of an item that has no row are inserted in front of the first row, and an
expanded item that is remembered below a collapsed one gets its children listed when something above
both is opened again. A view-based view is reloaded by each call and lists its rows after any of them.
-/

namespace GnustepGui.OutlineView

namespace NSOutlineView

variable {α : Type*} [DecidableEq α] {D : DataSource α} {v v' v'' : NSOutlineView α} {s t : Option α}
  {x y z c d : α} {expandChildren : Bool}

/-! ## Calls -/

inductive Call (α : Type*) where
  | reloadData
  | expandItem (item : α) (expandChildren : Bool)
  | collapseItem (item : α) (collapseChildren : Bool)
  deriving DecidableEq

def Call.run (D : DataSource α) (v : NSOutlineView α) : Call α → NSOutlineView α
  | .reloadData => v.reloadData D
  | .expandItem item expandChildren => v.expandItem D (some item) expandChildren
  | .collapseItem item collapseChildren => v.collapseItem D (some item) collapseChildren

def initOutlineDefaults (table : NSTableView) (viewBased : Bool) : NSOutlineView α where
  toNSTableView := table
  itemDict := fun _ => []
  levelOfItems := fun _ => none
  expandedItems := []
  items := []
  viewBased

/-- A new view that gets its data source. -/
def setDataSource (D : DataSource α) (table : NSTableView) (viewBased : Bool) : NSOutlineView α :=
  (initOutlineDefaults table viewBased).reloadData D

/-- The rows are the items all of whose ancestors are expanded, in preorder, each once and with its depth
as its level. -/
structure ListsRows (D : DataSource α) (v : NSOutlineView α) : Prop where
  rows : v.items = D.listing v.isOpen none
  nodup : v.items.Nodup
  levels : ∀ x ∈ v.items, v.HasLevel D x

theorem Consistent.listsRows (h : v.Consistent D) : v.ListsRows D where
  rows := h.rows
  nodup := h.rows ▸ Outline.listing_nodup v.isOpen none
  levels := by
    intro x hx
    obtain ⟨⟨p, hp⟩, -⟩ := loaded_of_seen h.open_loaded h.root (h.mem_items.1 hx)
    exact h.levels p x hp

/-! ## When the rows are right -/

/-- The items that a call expands, if they are not. -/
inductive Reached (D : DataSource α) (expandChildren : Bool) (x : α) : α → Prop
  | self : D.isItemExpandable x = true → Reached D expandChildren x x
  | child {y c : α} : Reached D expandChildren x y → expandChildren = true → c ∈ D.children (some y) →
      D.isItemExpandable c = true → Reached D expandChildren x c

/-- Each item that is opened has a row, or no children, and reveals nothing that is remembered. -/
def ExpandsWell (D : DataSource α) (v : NSOutlineView α) (x : α) (expandChildren : Bool) : Prop :=
  ∀ y, Reached D expandChildren x y → v.isOpen y = false →
    (x ∈ v.items ∨ D.children (some y) = []) ∧ v.Clean D y

/-- A view-based view is reloaded, and an expanded item that has not been loaded is left alone. -/
def KeepsRows (D : DataSource α) (v : NSOutlineView α) : Call α → Prop
  | .expandItem item expandChildren =>
    v.viewBased = true ∨ (v.isOpen item = true ∧ v.itemDict (some item) = []) ∨
      v.ExpandsWell D item expandChildren
  | .reloadData | .collapseItem _ _ => True

/-- Every call of a run meets its condition in the state it is made in. -/
def AllKeepRows (D : DataSource α) : NSOutlineView α → List (Call α) → Prop
  | _, [] => True
  | v, call :: calls => KeepsRows D v call ∧ AllKeepRows D (call.run D v) calls

/-! ## Views that agree below an item -/

omit [DecidableEq α] in
/-- Nothing below the item has been expanded, collapsed or loaded. -/
structure AgreeBelow (D : DataSource α) (v v' : NSOutlineView α) (y : α) : Prop where
  expanded : ∀ z, D.Below (some y) z → (z ∈ v'.expandedItems ↔ z ∈ v.expandedItems)
  dict : ∀ z, D.Below (some y) z → v'.itemDict (some z) = v.itemDict (some z)

theorem Clean.of_agree (h : v.Clean D y) (ha : AgreeBelow D v v' y) (hf : v'.DictFits D) : v'.Clean D y := by
  intro d hs hk hclosed hr
  have hsm (z : α) (hz : D.Below (some y) z) : v.isOpen z = v'.isOpen z := by
    rw [Bool.eq_iff_iff, isOpen_iff, isOpen_iff, ha.expanded z hz]
  have hb := hs.toBelow
  refine h d (hs.congr hsm) hk ((hsm d hb).trans hclosed) ?_
  refine hr.of_same hf (fun z hz => ha.dict z ?_) fun z hz hzo => ?_
  · rcases hz with rfl | hz
    · exact hb
    · exact hb.trans rfl hz
  · exact (ha.expanded z (hb.trans rfl hz)).1 hzo

omit [DecidableEq α] in
theorem Reached.self_or_below (h : Reached D expandChildren x y) : y = x ∨ D.Below (some x) y := by
  induction h with
  | self => exact .inl rfl
  | child _ _ hc _ ih =>
    rcases ih with rfl | hy
    · exact .inr (.child hc)
    · exact .inr (.deeper hy rfl hc)

omit [DecidableEq α] in
theorem Reached.head (h : Reached D expandChildren c y) (hx : D.isItemExpandable x = true)
    (ha : expandChildren = true) (hc : c ∈ D.children (some x)) : Reached D expandChildren x y := by
  induction h with
  | self hce => exact .child (.self hx) ha hc hce
  | child _ _ hd hde ih => exact .child ih ha hd hde

/-! ## Expanding -/

/-- What a call that expands `x` does to the rest of the view. -/
structure Expands (D : DataSource α) (v v' : NSOutlineView α) (x : α) : Prop where
  consistent : v'.Consistent D
  only_expandable : v'.OnlyExpandable D
  viewBased : v'.viewBased = v.viewBased
  grows : ∀ y, y ∈ v.expandedItems → y ∈ v'.expandedItems
  expanded : ∀ y, y ≠ x → ¬ D.Below (some x) y → (y ∈ v'.expandedItems ↔ y ∈ v.expandedItems)
  dict : ∀ y, y ≠ x → ¬ D.Below (some x) y → v'.itemDict (some y) = v.itemDict (some y)

theorem mem_items_of_grows (h : v.Consistent D) (h' : v'.Consistent D)
    (hg : ∀ y, y ∈ v.expandedItems → y ∈ v'.expandedItems) (hx : x ∈ v.items) : x ∈ v'.items := by
  refine h'.mem_items.2 ?_
  have hs := h.mem_items.1 hx
  clear hx
  induction hs with
  | child hx => exact .child hx
  | deeper _ ho hx ih => exact .deeper ih (isOpen_iff.2 (hg _ (isOpen_iff.1 ho))) hx

theorem loadIfNeeded_same (s : Option α) : v.loadIfNeeded D s = { v with
    itemDict := (v.loadIfNeeded D s).itemDict
    levelOfItems := (v.loadIfNeeded D s).levelOfItems } := by
  rw [loadIfNeeded]
  split
  · rfl
  · exact loadFuel_same _ _

theorem openItem_expandedItems (x : α) : (v.openItem D (some x)).expandedItems = v.expandedItems ++ [x] := by
  rw [openItem, note_expandedItems]
  change ((v.markExpanded (some x)).loadIfNeeded D (some x)).expandedItems = _
  rw [loadIfNeeded_same]
  rfl

section Open

variable (h : v.Consistent D) (honly : v.OnlyExpandable D) (hx : D.isItemExpandable x = true)
  (hclosed : v.isOpen x = false) (hrow : x ∈ v.items ∨ D.children (some x) = []) (hclean : v.Clean D x)

include h honly hx hclosed hrow hclean in
theorem openItem_expands : Expands D v (v.openItem D (some x)) x ∧ x ∈ (v.openItem D (some x)).expandedItems := by
  have hp := prepared_open h honly hx hrow
  have hexpanded := openItem_expandedItems (D := D) (v := v) x
  have hs : x ∈ (v.openItem D (some x)).expandedItems := by
    rw [hexpanded]
    exact List.mem_append_right _ (List.mem_singleton_self x)
  refine ⟨⟨openItem_consistent h honly hx hclosed hrow hclean, ?_, ?_, ?_, ?_, ?_⟩, hs⟩
  · intro y hy
    rw [hexpanded] at hy
    rcases List.mem_append.1 hy with hy | hy
    · exact honly y hy
    · exact List.mem_singleton.1 hy ▸ hx
  · rw [openItem, note_viewBased]
    change ((v.markExpanded (some x)).loadIfNeeded D (some x)).viewBased = _
    rw [hp.same]
    rfl
  · intro y hy
    rw [hexpanded]
    exact List.mem_append_left _ hy
  · intro y hne _
    rw [hexpanded]
    simp [hne]
  · intro y hne hb
    rw [openItem, note_itemDict]
    change ((v.markExpanded (some x)).loadIfNeeded D (some x)).itemDict (some y) = _
    refine (hp.dict (some y)).resolve_right ?_
    rintro ⟨-, heq | ⟨e, he, hsn, -⟩⟩
    · exact hne (Option.some.inj heq)
    · exact hb (Option.some.inj he ▸ hsn.toBelow)

include h honly hx hclosed hrow in
/-- Opening an item changes nothing below an item that stays collapsed. -/
theorem openItem_agree (hy : D.Below (some x) y) (hyclosed : v.isOpen y = false) :
    AgreeBelow D v (v.openItem D (some x)) y := by
  have hp := prepared_open h honly hx hrow
  constructor
  · intro z hz
    have hne : z ≠ x := by
      rintro rfl
      exact Nat.lt_irrefl _ (Nat.lt_trans hz.size_lt hy.size_lt)
    rw [openItem_expandedItems]
    simp [hne]
  · intro z hz
    rw [openItem, note_itemDict]
    change ((v.markExpanded (some x)).loadIfNeeded D (some x)).itemDict (some z) = _
    exact prepared_dict hclosed hp hy hyclosed (.inr hz)

end Open

theorem ExpandsWell.of_agree (h : v.ExpandsWell D c expandChildren)
    (ha : ∀ y, Reached D expandChildren c y → v'.isOpen y = false → v.isOpen y = false ∧ AgreeBelow D v v' y)
    (hrow : c ∈ v.items → c ∈ v'.items) (hf : v'.DictFits D) : v'.ExpandsWell D c expandChildren := by
  intro y hy hclosed
  obtain ⟨hclosed, hb⟩ := ha y hy hclosed
  obtain ⟨hp, hclean⟩ := h y hy hclosed
  exact ⟨hp.imp_left hrow, hclean.of_agree hb hf⟩

theorem Expands.agree (h : Expands D v v' c) (hc : c ∈ D.children s) (hd : d ∈ D.children s) (hne : c ≠ d)
    (hy : y = d ∨ D.Below (some d) y) : (y ∈ v'.expandedItems ↔ y ∈ v.expandedItems) ∧ AgreeBelow D v v' y := by
  have hother (z : α) (hz : z = d ∨ D.Below (some d) z) : z ≠ c ∧ ¬ D.Below (some c) z :=
    Outline.Seen.apart hc hd hne hz
  have hb (z : α) (hz : D.Below (some y) z) : z = d ∨ D.Below (some d) z := by
    rcases hy with rfl | hy
    · exact .inr hz
    · exact .inr (hy.trans rfl hz)
  refine ⟨h.expanded y (hother y hy).1 (hother y hy).2, fun z hz => ?_, fun z hz => ?_⟩
  · exact h.expanded z (hother z (hb z hz)).1 (hother z (hb z hz)).2
  · exact h.dict z (hother z (hb z hz)).1 (hother z (hb z hz)).2

theorem Expands.trans (h : Expands D v v' x) (h' : Expands D v' v'' c) (hc : c = x ∨ D.Below (some x) c) :
    Expands D v v'' x := by
  have hother (y : α) (hne : y ≠ x) (hb : ¬ D.Below (some x) y) : y ≠ c ∧ ¬ D.Below (some c) y := by
    rcases hc with rfl | hc
    · exact ⟨hne, hb⟩
    · refine ⟨fun heq => hb (heq ▸ hc), fun hcy => hb (hc.trans rfl hcy)⟩
  refine ⟨h'.consistent, h'.only_expandable, h'.viewBased.trans h.viewBased,
    fun y hy => h'.grows y (h.grows y hy), fun y hne hb => ?_, fun y hne hb => ?_⟩
  · obtain ⟨hne', hb'⟩ := hother y hne hb
    exact (h'.expanded y hne' hb').trans (h.expanded y hne hb)
  · obtain ⟨hne', hb'⟩ := hother y hne hb
    exact (h'.dict y hne' hb').trans (h.dict y hne hb)

theorem Expands.refl (h : v.Consistent D) (honly : v.OnlyExpandable D) (x : α) : Expands D v v x :=
  ⟨h, honly, rfl, fun _ hy => hy, fun _ _ _ => Iff.rfl, fun _ _ _ => rfl⟩

theorem foldl_expands (fuel : Nat) {children : List α}
    (hexpand : ∀ (v : NSOutlineView α) (c : α), c ∈ D.children (some x) → v.viewBased = false →
      v.Consistent D → v.OnlyExpandable D → v.ExpandsWell D c true →
      Expands D v (expandFuel D fuel v (some c) true) c)
    (hs : ∀ c ∈ children, c ∈ D.children (some x)) (hnd : children.Nodup) (hcl : v.viewBased = false)
    (h : v.Consistent D) (honly : v.OnlyExpandable D) (hw : ∀ c ∈ children, v.ExpandsWell D c true) :
    Expands D v (children.foldl (fun v child =>
      if isExpandable D (some child) then expandFuel D fuel v (some child) true else v) v) x := by
  induction children generalizing v with
  | nil => exact .refl h honly x
  | cons c children ih =>
    obtain ⟨hn, hnd⟩ := List.nodup_cons.1 hnd
    have hc := hs c List.mem_cons_self
    have hf : Expands D v
        (if isExpandable D (some c) then expandFuel D fuel v (some c) true else v) c := by
      split
      · exact hexpand v c hc hcl h honly (hw c List.mem_cons_self)
      · exact .refl h honly c
    rw [List.foldl_cons]
    generalize (if isExpandable D (some c) then expandFuel D fuel v (some c) true else v) = v₁ at hf ⊢
    refine Expands.trans ⟨hf.consistent, hf.only_expandable, hf.viewBased, hf.grows,
      fun y hne hb => hf.expanded y ?_ ?_, fun y hne hb => hf.dict y ?_ ?_⟩
      (ih (fun d hd => hs d (List.mem_cons_of_mem c hd)) hnd (hf.viewBased.trans hcl)
        hf.consistent hf.only_expandable fun d hd => ?_) (.inl rfl)
    · exact fun heq => hb (heq ▸ .child hc)
    · exact fun hcy => hb ((Outline.Seen.child hc).trans rfl hcy)
    · exact fun heq => hb (heq ▸ .child hc)
    · exact fun hcy => hb ((Outline.Seen.child hc).trans rfl hcy)
    · have hne : c ≠ d := fun heq => hn (heq ▸ hd)
      have hdch := hs d (List.mem_cons_of_mem c hd)
      refine (hw d (List.mem_cons_of_mem c hd)).of_agree (fun y hy hclosed => ?_) (fun hin => ?_) hf.consistent.fits
      · obtain ⟨hexpanded, ha⟩ := hf.agree hc hdch hne hy.self_or_below
        refine ⟨?_, ha⟩
        rw [Bool.eq_false_iff, ne_eq, isOpen_iff] at hclosed ⊢
        rwa [hexpanded] at hclosed
      · exact mem_items_of_grows h hf.consistent hf.grows hin

theorem expandFuel_expands (fuel : Nat) (hfu : D.size (some x) < fuel) (hcl : v.viewBased = false)
    (h : v.Consistent D) (honly : v.OnlyExpandable D) (hw : v.ExpandsWell D x expandChildren) :
    Expands D v (expandFuel D fuel v (some x) expandChildren) x := by
  induction fuel generalizing v x with
  | zero => omega
  | succ fuel ih =>
    rw [expandFuel]
    cases hx : isExpandable D (some x) with
    | false => exact .refl h honly x
    | true =>
      have ho : Expands D v (if v.isItemExpanded (some x) then v else v.openItem D (some x)) x ∧
          x ∈ (if v.isItemExpanded (some x) then v else v.openItem D (some x)).expandedItems ∧
          ∀ y, D.Below (some x) y → v.isOpen y = false →
            AgreeBelow D v (if v.isItemExpanded (some x) then v else v.openItem D (some x)) y := by
        cases hon : v.isItemExpanded (some x) with
        | true =>
          exact ⟨.refl h honly x, isOpen_iff.1 hon, fun y _ _ => ⟨fun _ _ => Iff.rfl, fun _ _ => rfl⟩⟩
        | false =>
          obtain ⟨hrow, hclean⟩ := hw x (.self hx) hon
          obtain ⟨hexpands, hsl⟩ := openItem_expands h honly hx hon hrow hclean
          exact ⟨hexpands, hsl, fun y hy hclosed => openItem_agree h honly hx hon hrow hy hclosed⟩
      generalize (if v.isItemExpanded (some x) then v else v.openItem D (some x)) = v₁ at ho ⊢
      obtain ⟨ho, hsl, ha⟩ := ho
      have hcl₁ : v₁.viewBased = false := ho.viewBased.trans hcl
      have hcn := ho.consistent
      cases expandChildren with
      | false =>
        simp only [if_true, Bool.false_eq_true, if_false]
        rw [refresh, if_neg (by rw [hcl₁]; exact Bool.false_ne_true)]
        exact ho
      | true =>
        have hs : ∀ c ∈ v₁.itemDict (some x), c ∈ D.children (some x) := fun c hc => (hcn.fits.mem hc).2
        have hnd : (v₁.itemDict (some x)).Nodup := by
          rcases hcn.fits (some x) with heq | heq
          · rw [heq]
            exact List.nodup_nil
          · exact heq ▸ D.nodup (some x)
        have hf := foldl_expands fuel (fun v c hc hcl h honly hw => ih (by
          have hsz := Outline.size_lt hc
          omega) hcl h honly hw) hs hnd hcl₁ hcn ho.only_expandable
          fun c hc y hy hclosed => ?_
        · simp only [if_true]
          generalize List.foldl _ _ _ = v₂ at hf ⊢
          have hcl₂ : v₂.viewBased = false := hf.viewBased.trans hcl₁
          rw [refresh, if_neg (by rw [hcl₂]; exact Bool.false_ne_true)]
          exact ho.trans hf (.inl rfl)
        · have hc := hs c hc
          have hb : D.Below (some x) y := by
            rcases hy.self_or_below with rfl | hcy
            · exact .child hc
            · exact (Outline.Seen.child hc).trans rfl hcy
          have hclosed' : v.isOpen y = false := by
            rw [Bool.eq_false_iff, ne_eq, isOpen_iff] at hclosed ⊢
            exact fun hon => hclosed (ho.grows y hon)
          obtain ⟨hp, hclean⟩ := hw y (hy.head hx rfl hc) hclosed'
          refine ⟨hp.imp_left fun hrow => ?_, hclean.of_agree (ha y hb hclosed') hcn.fits⟩
          have hsn := hcn.mem_items.1 (mem_items_of_grows h hcn ho.grows hrow)
          exact hcn.mem_items.2 (.deeper hsn (isOpen_iff.2 hsl) hc)

/-! ## Any call -/

/-- What holds between two calls. -/
structure Sound (D : DataSource α) (v : NSOutlineView α) : Prop where
  consistent : v.Consistent D
  only_expandable : v.OnlyExpandable D

/-- The expanded items change, but stay expandable. -/
structure Steady (D : DataSource α) (v v' : NSOutlineView α) : Prop where
  viewBased : v'.viewBased = v.viewBased
  only_expandable : v.OnlyExpandable D → v'.OnlyExpandable D

section

omit [DecidableEq α]

theorem Steady.refl (v : NSOutlineView α) : Steady D v v := ⟨rfl, id⟩

theorem Steady.trans (h : Steady D v v') (h' : Steady D v' v'') : Steady D v v'' :=
  ⟨h'.viewBased.trans h.viewBased, fun honly => h'.only_expandable (h.only_expandable honly)⟩

theorem Steady.of_same (hv : v'.viewBased = v.viewBased) (hexpanded : v'.expandedItems = v.expandedItems) :
    Steady D v v' := ⟨hv, fun honly x hx => honly x (hexpanded ▸ hx)⟩

theorem foldl_keeps {P : NSOutlineView α → Prop} {f : NSOutlineView α → α → NSOutlineView α}
    (hs : ∀ v c, P v → P (f v c)) (l : List α) (h : P v) : P (l.foldl f v) := by
  induction l generalizing v with
  | nil => exact h
  | cons c l ih => exact ih (hs v c h)

end

theorem openItem_viewBased (x : α) : (v.openItem D (some x)).viewBased = v.viewBased := by
  rw [openItem, note_viewBased]
  change ((v.markExpanded (some x)).loadIfNeeded D (some x)).viewBased = _
  rw [loadIfNeeded_same]
  rfl

theorem openItem_steady (hx : isExpandable D (some x) = true) : Steady D v (v.openItem D (some x)) := by
  refine ⟨openItem_viewBased x, fun honly y hy => ?_⟩
  rw [openItem_expandedItems] at hy
  rcases List.mem_append.1 hy with hy | hy
  · exact honly y hy
  · exact List.mem_singleton.1 hy ▸ hx

theorem reloadData_expandedItems : (v.reloadData D).expandedItems = v.expandedItems := by
  refine (note_expandedItems (v := (v.cleared.loadIfNeeded D none).insertChildren D none)).trans ?_
  change (v.cleared.loadIfNeeded D none).expandedItems = _
  rw [loadIfNeeded_same]
  rfl

theorem reloadData_steady : Steady D v (v.reloadData D) := by
  refine .of_same ?_ reloadData_expandedItems
  refine (note_viewBased (v := (v.cleared.loadIfNeeded D none).insertChildren D none)).trans ?_
  change (v.cleared.loadIfNeeded D none).viewBased = _
  rw [loadIfNeeded_same]
  rfl

theorem closeItem_steady : Steady D v (v.closeItem D (some x)) := by
  rw [closeItem]
  refine ⟨note_viewBased, fun honly y hy => ?_⟩
  rw [note_expandedItems] at hy
  exact honly y (List.mem_filter.1 hy).1

theorem refresh_steady : Steady D v (v.refresh D) := by
  rw [refresh]
  split
  · exact reloadData_steady
  · exact .refl v

section Rules

variable {P : NSOutlineView α → Prop} {collapseChildren : Bool}

theorem expandFuel_keeps (hon : ∀ v x, isExpandable D (some x) = true → P v → P (v.openItem D (some x)))
    (hr : ∀ v, P v → P (v.refresh D)) (fuel : Nat) (h : P v) : P (expandFuel D fuel v (some x) expandChildren) := by
  induction fuel generalizing v x with
  | zero => exact h
  | succ fuel ih =>
    rw [expandFuel]
    split
    · rename_i hx
      have ho : P (if v.isItemExpanded (some x) then v else v.openItem D (some x)) := by
        split
        · exact h
        · exact hon v x hx h
      generalize (if v.isItemExpanded (some x) then v else v.openItem D (some x)) = v₁ at ho ⊢
      dsimp only
      split
      · refine hr _ (foldl_keeps (fun v c h => ?_) _ ho)
        split
        · exact ih h
        · exact h
      · exact hr _ ho
    · exact h

theorem expandFuel_eq_refresh (hon : ∀ v x, isExpandable D (some x) = true → P v → P (v.openItem D (some x)))
    (hr : ∀ v, P v → P (v.refresh D)) (fuel : Nat) (hx : isExpandable D (some x) = true) (h : P v) :
    ∃ w, P w ∧ expandFuel D (fuel + 1) v (some x) expandChildren = w.refresh D := by
  rw [expandFuel, if_pos hx]
  have ho : P (if v.isItemExpanded (some x) then v else v.openItem D (some x)) := by
    split
    · exact h
    · exact hon v x hx h
  generalize (if v.isItemExpanded (some x) then v else v.openItem D (some x)) = v₁ at ho ⊢
  dsimp only
  split
  · refine ⟨_, foldl_keeps (fun v c h => ?_) _ ho, rfl⟩
    split
    · exact expandFuel_keeps hon hr fuel h
    · exact h
  · exact ⟨v₁, ho, rfl⟩

theorem collapseFuel_keeps (hc : ∀ v x, P v → P (v.closeItem D (some x)))
    (hr : ∀ v, P v → P (v.refresh D)) (fuel : Nat) (h : P v) : P (collapseFuel D fuel v (some x) collapseChildren) := by
  induction fuel generalizing v x with
  | zero => exact h
  | succ fuel ih =>
    rw [collapseFuel]
    split
    · dsimp only
      split
      · refine hr _ (hc _ _ (foldl_keeps (fun v c h => ?_) _ h))
        split
        · exact ih h
        · exact h
      · exact hr _ (hc _ _ h)
    · exact h

end Rules

theorem refresh_sound (hv : v.viewBased = true) (honly : v.OnlyExpandable D) : (v.refresh D).Sound D := by
  rw [refresh, if_pos hv]
  exact ⟨reloadData_consistent honly, reloadData_steady.only_expandable honly⟩

variable (expandChildren) in
/-- In a view-based view a call ends with a reload. -/
theorem expandFuel_viewBased (fuel : Nat) (hv : v.viewBased = true) (h : v.Sound D) :
    (expandFuel D (fuel + 1) v (some x) expandChildren).Sound D := by
  cases hx : isExpandable D (some x) with
  | false =>
    rw [expandFuel, hx]
    exact h
  | true =>
    obtain ⟨w, hs, heq⟩ := expandFuel_eq_refresh (P := Steady D v) (x := x)
      (fun _ _ hx h => h.trans (openItem_steady hx)) (fun _ h => h.trans refresh_steady) fuel hx (.refl v)
    rw [heq]
    exact refresh_sound (hs.viewBased.trans hv) (hs.only_expandable h.only_expandable)

theorem closeItem_sound (h : v.Sound D) : (v.closeItem D (some x)).Sound D :=
  ⟨closeItem_consistent h.consistent, closeItem_steady.only_expandable h.only_expandable⟩

theorem collapseFuel_sound (fuel : Nat) {collapseChildren : Bool} (h : v.Sound D) :
    (collapseFuel D fuel v (some x) collapseChildren).Sound D := by
  refine collapseFuel_keeps (fun _ _ h => closeItem_sound h) (fun v h => ?_) fuel h
  by_cases hv : v.viewBased = true
  · exact refresh_sound hv h.only_expandable
  · rw [refresh, if_neg hv]
    exact h

theorem run_sound (h : v.Sound D) (call : Call α) (hk : KeepsRows D v call) : (call.run D v).Sound D := by
  cases call with
  | reloadData =>
    exact ⟨reloadData_consistent h.only_expandable, reloadData_steady.only_expandable h.only_expandable⟩
  | collapseItem item collapseChildren => exact collapseFuel_sound (D.bound + 1) h
  | expandItem item expandChildren =>
    have hb := D.height_lt_bound item
    rcases hk with hv | hk
    · exact expandFuel_viewBased _ D.bound hv h
    · cases hv : v.viewBased with
      | true => exact expandFuel_viewBased _ D.bound hv h
      | false =>
        rcases hk with ⟨ho, hu⟩ | hw
        · -- nothing is opened, and there is nothing to loop over
          have hn : v.expandItem D (some item) expandChildren = v := by
            rw [expandItem, expandFuel, show v.isItemExpanded (some item) = true from ho]
            simp [hu, refresh, hv]
          change Sound D (v.expandItem D (some item) expandChildren)
          rw [hn]
          exact h
        · have hexpands := expandFuel_expands (D.bound + 1) (Nat.lt_succ_of_lt hb) hv h.consistent
            h.only_expandable hw
          exact ⟨hexpands.consistent, hexpands.only_expandable⟩

theorem setDataSource_sound (D : DataSource α) (table : NSTableView) (viewBased : Bool) :
    (setDataSource D table viewBased).Sound D := by
  have honly : OnlyExpandable D (initOutlineDefaults table viewBased : NSOutlineView α) := fun x hx => nomatch hx
  exact ⟨reloadData_consistent honly, reloadData_steady.only_expandable honly⟩

theorem runCalls_sound (h : v.Sound D) (calls : List (Call α)) (hk : AllKeepRows D v calls) :
    (calls.foldl (Call.run D) v).Sound D := by
  induction calls generalizing v with
  | nil => exact h
  | cons call calls ih => exact ih (run_sound h call hk.1) hk.2

theorem expandsWell_of_unloaded (hrow : x ∈ v.items)
    (h : ∀ d ∈ D.listing v.isOpen (some x), v.isOpen d = false → v.itemDict (some d) = []) :
    v.ExpandsWell D x false := by
  intro y hy _
  have heq : y = x := by
    cases hy with
    | self => rfl
    | child _ ha => cases ha
  subst heq
  refine ⟨.inl hrow, fun d hd _ hclosed => ?_⟩
  rintro ⟨e, hp, -⟩
  obtain ⟨c, hc, -⟩ := Relation.TransGen.head'_iff.1 hp
  rw [IsLoadedChild, h d (Outline.mem_listing.2 hd) hclosed] at hc
  cases hc

/-- Each item up to 3 has the next one as its child. -/
def chainChildren (roots : List Nat) : Option Nat → List Nat
  | none => roots
  | some n => if n < 4 then [n + 1] else []

theorem mem_chainChildren {roots : List Nat} {x y : Nat} : y ∈ chainChildren roots (some x) ↔ x < 4 ∧ y = x + 1 := by
  rw [chainChildren, List.mem_ite_nil_right, List.mem_singleton]

theorem chainChildren_nodup {roots : List Nat} (h : roots.Nodup) (s : Option Nat) : (chainChildren roots s).Nodup := by
  cases s with
  | none => exact h
  | some n =>
    rw [chainChildren]
    split
    · exact List.nodup_singleton _
    · exact List.nodup_nil

theorem chainChildren_unique {roots : List Nat} (h : ∀ x ∈ roots, x = 0 ∨ 4 < x) {s t : Option Nat} {x : Nat}
    (hs : x ∈ chainChildren roots s) (ht : x ∈ chainChildren roots t) : s = t := by
  cases s with
  | none =>
    cases t with
    | none => rfl
    | some m =>
      have hr := h x hs
      rw [mem_chainChildren] at ht
      omega
  | some n =>
    rw [mem_chainChildren] at hs
    cases t with
    | none =>
      have hr := h x ht
      omega
    | some m =>
      rw [mem_chainChildren] at ht
      rw [Option.some.injEq]
      omega

theorem chainChildren_height {roots : List Nat} {x y : Nat} (h : y ∈ chainChildren roots (some x)) : 4 - y < 4 - x := by
  rw [mem_chainChildren] at h
  omega

def chain : DataSource Nat where
  children := chainChildren [0]
  height n := 4 - n
  bound := 5
  nodup := chainChildren_nodup (List.nodup_singleton 0)
  parent_unique := chainChildren_unique (by decide)
  height_lt := chainChildren_height
  height_lt_bound n := Nat.lt_succ_of_le (Nat.sub_le 4 n)
  isItemExpandable n := decide (n < 4)

def emptyTable : NSTableView where
  numberOfRows := 0
  selectedRows := ∅
  selectedRow := -1
  selectingColumns := false
  allowsEmptySelection := true

end NSOutlineView

end GnustepGui.OutlineView
