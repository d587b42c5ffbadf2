import GnustepGui.OutlineView.Selection

/-!
# Collapsing and the selection

`_closeItem:` notes as many rows as it has collected, which are more than those it takes out when a
collapsed item below remembers expanded ones. A call that collapses an item, with or without its
children, moves the selected rows like one such note (`collapseFuel_selection`), and the number is the
right one exactly when nothing is remembered (`Forgets`).
-/

namespace GnustepGui.OutlineView

open IndexSets

namespace NSOutlineView

variable {α : Type*} [DecidableEq α] {D : DataSource α} {v v' v'' : NSOutlineView α} {s : Option α}
  {x y z c d e : α} {n i : Nat} {collapseChildren : Bool}

/-! ## What is expanded afterwards -/

/-- A call that collapses `x` closes it, and nothing that is not below it. -/
structure Collapsed (D : DataSource α) (v v' : NSOutlineView α) (x : α) : Prop where
  sound : v'.Sound D
  shrinks : ∀ y, y ∈ v'.expandedItems → y ∈ v.expandedItems
  expanded : ∀ y, y ≠ x → ¬ D.Below (some x) y → (y ∈ v'.expandedItems ↔ y ∈ v.expandedItems)
  closed : x ∉ v'.expandedItems

theorem closeItem_expandedItems (x : α) : (v.closeItem D (some x)).expandedItems = v.expandedItems.filter (· ≠ x) := by
  rw [closeItem, note_expandedItems]
  rfl

theorem closeItem_viewBased (x : α) : (v.closeItem D (some x)).viewBased = v.viewBased := by
  rw [closeItem, note_viewBased]
  rfl

theorem refresh_sound' (h : v.Sound D) : (v.refresh D).Sound D := by
  by_cases hv : v.viewBased = true
  · exact refresh_sound hv h.only_expandable
  · rw [refresh, if_neg hv]
    exact h

theorem closeItem_collapsed (h : v.Sound D) (x : α) : Collapsed D v (v.closeItem D (some x)) x := by
  refine ⟨closeItem_sound h, fun y hy => ?_, fun y hne _ => ?_, fun hx => ?_⟩
  · rw [closeItem_expandedItems] at hy
    exact (List.mem_filter.1 hy).1
  · rw [closeItem_expandedItems]
    simp [hne]
  · rw [closeItem_expandedItems] at hx
    simp at hx

theorem Collapsed.refresh (h : Collapsed D v v' x) : Collapsed D v (v'.refresh D) x := by
  have hs := refresh_expandedItems (D := D) (v := v')
  exact ⟨refresh_sound' h.sound, fun y hy => h.shrinks y (hs ▸ hy),
    fun y hne hb => hs ▸ h.expanded y hne hb, hs ▸ h.closed⟩

/-- The loop over the children, which are below `x`. -/
structure CollapsedBelow (D : DataSource α) (v v' : NSOutlineView α) (x : α) : Prop where
  sound : v'.Sound D
  shrinks : ∀ y, y ∈ v'.expandedItems → y ∈ v.expandedItems
  expanded : ∀ y, ¬ D.Below (some x) y → (y ∈ v'.expandedItems ↔ y ∈ v.expandedItems)

theorem Collapsed.toBelow (h : Collapsed D v v' c) (hc : c ∈ D.children (some x)) : CollapsedBelow D v v' x :=
  ⟨h.sound, h.shrinks, fun y hb => h.expanded y (fun heq => hb (heq ▸ .child hc))
    fun hcy => hb ((Outline.Seen.child hc).trans rfl hcy)⟩

theorem CollapsedBelow.trans (h : CollapsedBelow D v v' x) (h' : CollapsedBelow D v' v'' x) :
    CollapsedBelow D v v'' x :=
  ⟨h'.sound, fun y hy => h.shrinks y (h'.shrinks y hy),
    fun y hb => (h'.expanded y hb).trans (h.expanded y hb)⟩

theorem CollapsedBelow.close (h : CollapsedBelow D v v' x) : Collapsed D v (v'.closeItem D (some x)) x := by
  have hc := closeItem_collapsed h.sound x
  exact ⟨hc.sound, fun y hy => h.shrinks y (hc.shrinks y hy),
    fun y hne hb => (hc.expanded y hne hb).trans (h.expanded y hb), hc.closed⟩

theorem collapseFuel_collapsed (fuel : Nat) (hfu : D.size (some x) < fuel) (h : v.Sound D) :
    Collapsed D v (collapseFuel D fuel v (some x) collapseChildren) x := by
  induction fuel generalizing v x with
  | zero => omega
  | succ fuel ih =>
    have hfl (children : List α) (hs : ∀ c ∈ children, c ∈ D.children (some x)) (v : NSOutlineView α)
        (h : v.Sound D) : CollapsedBelow D v (children.foldl (fun v child =>
          if isExpandable D (some child) then collapseFuel D fuel v (some child) collapseChildren
          else v) v) x := by
      induction children generalizing v with
      | nil => exact ⟨h, fun _ hy => hy, fun _ _ => .rfl⟩
      | cons c children ihc =>
        have hc := hs c List.mem_cons_self
        have hr := fun d hd => hs d (List.mem_cons_of_mem c hd)
        have hsz := Outline.size_lt hc
        rw [List.foldl_cons]
        split
        · have hf := ih (x := c) (by omega) h
          exact (hf.toBelow hc).trans (ihc hr _ hf.sound)
        · exact ihc hr v h
    rw [collapseFuel]
    split
    · dsimp only
      split
      · exact (hfl _ (fun c hc => (h.consistent.fits.mem hc).2) v h).close.refresh
      · exact (closeItem_collapsed h x).refresh
    · rename_i hg
      refine ⟨h, fun _ hy => hy, fun _ _ _ => .rfl, fun hx => hg ?_⟩
      rw [Bool.and_eq_true]
      exact ⟨h.only_expandable x hx, isOpen_iff.2 hx⟩

/-! ## The rows afterwards -/

/-- The rows below an item. -/
def rowsBelow (D : DataSource α) (v : NSOutlineView α) (x : α) : List α :=
  if v.isOpen x then D.listing v.isOpen (some x) else []

/-- What is seen from above `x` when only `x` and what is below it may be open or closed differently. -/
theorem listing_collapsed (hc : Collapsed D v v' x) (hs : D.size (some x) < D.size s) (hsn : D.Seen v.isOpen s x) :
    ∃ front back, D.listing v.isOpen s = front ++ x :: (rowsBelow D v x ++ back) ∧
      D.listing v'.isOpen s = front ++ x :: back := by
  have ha : D.listing v'.isOpen s = D.listing (v.markCollapsed (some x)).isOpen s := by
    refine Outline.listing_congr fun y hy => ?_
    have hclo : v'.isOpen x = false := Bool.eq_false_iff.2 fun hop => hc.closed (isOpen_iff.1 hop)
    by_cases hne : y = x
    · rw [hne, hclo, markCollapsed_isOpen_self]
    · have hb : ¬ D.Below (some x) y := fun hx =>
        Bool.false_ne_true (markCollapsed_isOpen_self.symm.trans (hy.between hs hx).2.1)
      rw [markCollapsed_isOpen_of_ne hne, Bool.eq_iff_iff, isOpen_iff, isOpen_iff, hc.expanded y hne hb]
  rw [ha, rowsBelow]
  cases hop : v.isOpen x with
  | true =>
    have hsn' : D.Seen (v.markCollapsed (some x)).isOpen s x :=
      hsn.congr_above fun y hy => markCollapsed_isOpen_of_ne fun heq =>
        Nat.lt_irrefl _ (heq ▸ hy).size_lt
    obtain ⟨front, back, hn, ho⟩ :=
      Outline.listing_split (fun y hne => (markCollapsed_isOpen_of_ne hne).symm) markCollapsed_isOpen_self
        hop hsn'
    exact ⟨front, back, ho, hn⟩
  | false =>
    have hsm : D.listing (v.markCollapsed (some x)).isOpen s = D.listing v.isOpen s := by
      refine Outline.listing_congr fun y _ => ?_
      by_cases hne : y = x
      · rw [hne, markCollapsed_isOpen_self, hop]
      · exact markCollapsed_isOpen_of_ne hne
    obtain ⟨front, back, hspl⟩ := List.append_of_mem (Outline.mem_listing.2 hsn)
    exact ⟨front, back, hspl, hsm.trans hspl⟩

/-! ## What is noted -/

/-- No collapsed item that is seen below `x` remembers an expanded one. -/
def Forgets (D : DataSource α) (v : NSOutlineView α) (x : α) : Prop :=
  ∀ d, D.Seen v.isOpen (some x) d → v.isOpen d = false → ¬ v.Remembers d

theorem collect_eq_nil_iff (h : v.DictFits D) (hc : v.isOpen x = false) :
    v.collectItemsStartingWith D (some x) = [] ↔ ¬ v.Remembers x := by
  refine ⟨fun hn => ?_, collect_eq_nil h hc⟩
  rintro ⟨e, hp, he, hne⟩
  obtain ⟨y, hy⟩ := List.exists_mem_of_ne_nil _ hne
  have hin := (mem_collect h).2 ⟨e, hp.to_reflTransGen, he, hy⟩
  rw [hn] at hin
  exact nomatch hin

omit [DecidableEq α] in
theorem sum_map_eq_iff {l : List α} {f g : α → Nat} (hle : ∀ c ∈ l, g c ≤ f c) :
    (l.map g).sum ≤ (l.map f).sum ∧ ((l.map f).sum = (l.map g).sum ↔ ∀ c ∈ l, f c = g c) := by
  induction l with
  | nil => exact ⟨Nat.le_refl 0, iff_of_true rfl fun _ h => nomatch h⟩
  | cons c l ih =>
    obtain ⟨hs, heq⟩ := ih fun d hd => hle d (List.mem_cons_of_mem c hd)
    have hf := hle c List.mem_cons_self
    rw [List.forall_mem_cons, ← heq, List.map_cons, List.map_cons, List.sum_cons, List.sum_cons]
    omega

/-- More is collected than is seen, unless nothing is remembered. -/
theorem collect_length (h : v.Sound D) (hs : v.isItemExpanded s = true) (hl : v.itemDict s = D.children s) :
    (D.listing v.isOpen s).length ≤ (v.collectItemsStartingWith D s).length ∧
      ((v.collectItemsStartingWith D s).length = (D.listing v.isOpen s).length ↔
        ∀ d, D.Seen v.isOpen s d → v.isOpen d = false → ¬ v.Remembers d) := by
  induction s using D.induction with
  | h s ih =>
    have hfit := h.consistent.fits
    have hk (c : α) (hc : c ∈ D.children s) (hco : v.isOpen c = true) : v.itemDict (some c) = D.children (some c) :=
      h.consistent.open_loaded s c (hl.symm ▸ hc) (isOpen_iff.1 hco)
    -- each child with what is collected, or seen, below it
    have hp (c : α) (hc : c ∈ D.children s) :
        (c :: if v.isOpen c then D.listing v.isOpen (some c) else []).length ≤
          ((if v.isItemExpanded s then [c] else []) ++ v.collectItemsStartingWith D (some c)).length ∧
        (((if v.isItemExpanded s then [c] else []) ++ v.collectItemsStartingWith D (some c)).length =
          (c :: if v.isOpen c then D.listing v.isOpen (some c) else []).length ↔
            ∀ d, (d = c ∨ (v.isOpen c = true ∧ D.Seen v.isOpen (some c) d)) → v.isOpen d = false →
              ¬ v.Remembers d) := by
      rw [if_pos hs, List.length_append, List.length_cons, List.length_singleton]
      cases hco : v.isOpen c with
      | true =>
        obtain ⟨hle, hi⟩ := ih c hc hco (hk c hc hco)
        refine ⟨by simp only [if_true]; omega, ?_⟩
        have hcnt : 1 + (v.collectItemsStartingWith D (some c)).length =
            (if true = true then D.listing v.isOpen (some c) else []).length + 1 ↔
              (v.collectItemsStartingWith D (some c)).length = (D.listing v.isOpen (some c)).length := by
          simp only [if_true]
          omega
        rw [hcnt, hi]
        constructor
        · rintro ha d (rfl | ⟨-, hd⟩) hclo
          · exact nomatch hco.symm.trans hclo
          · exact ha d hd hclo
        · exact fun ha d hd hclo => ha d (.inr ⟨rfl, hd⟩) hclo
      | false =>
        refine ⟨by simp, ?_⟩
        have hcnt : 1 + (v.collectItemsStartingWith D (some c)).length =
            (if false = true then D.listing v.isOpen (some c) else []).length + 1 ↔
              v.collectItemsStartingWith D (some c) = [] := by
          rw [← List.length_eq_zero_iff]
          simp only [Bool.false_eq_true, if_false, List.length_nil]
          omega
        rw [hcnt, collect_eq_nil_iff hfit hco]
        constructor
        · rintro hfor d (rfl | ⟨hf, -⟩) _
          · exact hfor
          · exact nomatch hf
        · exact fun ha => ha c (.inl rfl) hco
    obtain ⟨hle, hi⟩ := sum_map_eq_iff fun c hc => (hp c hc).1
    rw [collect_eq hfit, Outline.listing_eq, hl, List.length_flatMap, List.length_flatMap]
    refine ⟨hle, hi.trans ⟨fun ha d hd => ?_, fun ha c hc => ?_⟩⟩
    · obtain ⟨c, hc, hdc⟩ := hd.head
      exact (hp c hc).2.1 (ha c hc) d hdc
    · refine (hp c hc).2.2 fun d hd => ha d ?_
      rcases hd with rfl | ⟨hco, hd⟩
      · exact .child hc
      · exact (Outline.Seen.child hc).trans hco hd

/-! ## Closing an item -/

theorem rows_collapsed (h : v.Sound D) (hc : Collapsed D v v' x) (hr : x ∈ v.items) :
    ∃ front back, v.items = front ++ x :: (rowsBelow D v x ++ back) ∧ v'.items = front ++ x :: back ∧ x ∉ front := by
  obtain ⟨front, back, ho, hn⟩ := listing_collapsed (s := none) hc (D.height_lt_bound x) (h.consistent.mem_items.1 hr)
  refine ⟨front, back, h.consistent.rows.trans ho, hc.sound.consistent.rows.trans hn, fun hin => ?_⟩
  have hnd := Outline.listing_nodup (D := D.toOutline) v.isOpen none
  rw [ho, List.nodup_append] at hnd
  exact hnd.2.2 x hin x List.mem_cons_self rfl

theorem mem_shiftLeft_range {s : Finset Nat} {b n total rows : Nat} (hs : ∀ i ∈ s, i < total)
    (hb : b ≤ rows) (hn : total ≤ rows + n) : ∀ i ∈ shiftLeft s (b + n) n, i < rows := by
  intro i hi
  rcases (mem_shiftLeft (by omega)).1 hi with ⟨hlt, -⟩ | ⟨-, hi⟩
  · omega
  · have := hs _ hi
    omega

theorem closeItem_selection (h : v.Sound D) (hv : v.ValidSelection) (hr : x ∈ v.items) (hop : v.isOpen x = true) :
    (v.closeItem D (some x)).ValidSelection ∧ (v.closeItem D (some x)).selectedRows =
        shiftLeft v.selectedRows (v.items.idxOf x + 1 + (v.collectItemsStartingWith D (some x)).length)
          (v.collectItemsStartingWith D (some x)).length := by
  obtain ⟨front, back, ho, hn, hf⟩ := rows_collapsed h (closeItem_collapsed h x) hr
  have hsn := h.consistent.mem_items.1 hr
  have hld := (loaded_of_seen h.consistent.open_loaded h.consistent.root hsn).2 (isOpen_iff.1 hop)
  have hc := (collect_length h (s := some x) hop hld).1
  have hl : (rowsBelow D v x).length ≤ (v.collectItemsStartingWith D (some x)).length := by
    rw [rowsBelow, if_pos hop]
    exact hc
  have hidx : v.items.idxOf x = front.length := by
    rw [ho, List.idxOf_append_of_notMem hf, List.idxOf_cons_self, Nat.add_zero]
  have hits := hn
  rw [closeItem, note_items] at hits
  have hb := rowIndexBelow_row hits hf
  rw [List.length_append, List.length_singleton] at hb
  have hrw : ∀ i ∈ shiftLeft v.selectedRows (front.length + 1 + (v.collectItemsStartingWith D (some x)).length)
      (v.collectItemsStartingWith D (some x)).length, i < (front ++ x :: back).length := by
    refine mem_shiftLeft_range hv.in_range ?_ ?_
    · rw [List.length_append, List.length_cons]
      omega
    · rw [ho]
      simp only [List.length_append, List.length_cons]
      omega
  have hs : (v.closeItem D (some x)).selectedRows =
      shiftLeft v.selectedRows (front.length + 1 + (v.collectItemsStartingWith D (some x)).length)
        (v.collectItemsStartingWith D (some x)).length := by
    rw [closeItem]
    generalize v.collectItemsStartingWith D (some x) = collected at hits hb hrw ⊢
    rcases Nat.eq_zero_or_pos collected.length with hz | hp
    · rw [hz, shiftLeft_zero, noteNumberOfRowsChangedBelowItem, if_pos (show (-((0 : Nat) : Int)) = 0 from rfl)]
      rfl
    · have hv' : ((v.markCollapsed (some x)).removeRows collected).Valid := hv.valid
      rw [note_removed hv' hp, hb, hits]
      exact Finset.filter_eq_self.2 hrw
  rw [hidx]
  refine ⟨⟨?_, fun i hi => ?_⟩, hs⟩
  · have hv' :
        ((v.markCollapsed (some x)).removeRows (v.collectItemsStartingWith D (some x))).Valid := hv.valid
    exact note_valid hv' _
  · rw [hn]
    exact hrw i (hs ▸ hi)

/-! ## A call in a cell-based view -/

/-- What a call that collapses an item with a row does. -/
structure CollapsesRows (D : DataSource α) (v v' : NSOutlineView α) (x : α) (collapseChildren : Bool) : Prop where
  collapsed : Collapsed D v v' x
  viewBased : v'.viewBased = false
  dict : v'.itemDict = v.itemDict
  valid : v'.ValidSelection
  closed_below : collapseChildren = true → v.isOpen x = true → ∀ y, D.Seen v.isOpen (some x) y →
    y ∉ v'.expandedItems
  untouched : v.isOpen x = false → v'.expandedItems = v.expandedItems
  selection : ∃ n, (rowsBelow D v x).length ≤ n ∧
    (n = (rowsBelow D v x).length ↔ (v.isOpen x = true → v.Forgets D x)) ∧
    v'.selectedRows = shiftLeft v.selectedRows (v.items.idxOf x + 1 + n) n

/-- What the loop over some children of an expanded item does. -/
structure LoopsRows (D : DataSource α) (v v' : NSOutlineView α) (x : α) (children : List α) : Prop where
  below : CollapsedBelow D v v' x
  viewBased : v'.viewBased = false
  dict : v'.itemDict = v.itemDict
  valid : v'.ValidSelection
  other : ∀ y, (∀ c ∈ children, y ≠ c ∧ ¬ D.Below (some c) y) → (y ∈ v'.expandedItems ↔ y ∈ v.expandedItems)
  closed : ∀ c ∈ children, ∀ y, y = c ∨ (v.isOpen c = true ∧ D.Seen v.isOpen (some c) y) →
    y ∉ v'.expandedItems
  untouched : ∀ c ∈ children, v.isOpen c = false → ∀ y, D.Below (some c) y →
    (y ∈ v'.expandedItems ↔ y ∈ v.expandedItems)
  selection : ∃ n,
    (D.listing v.isOpen (some x)).length ≤ (D.listing v'.isOpen (some x)).length + n ∧
    ((D.listing v'.isOpen (some x)).length + n = (D.listing v.isOpen (some x)).length ↔
      ∀ c ∈ children, v.isOpen c = true → v.Forgets D c) ∧
    ∀ m, (D.listing v'.isOpen (some x)).length ≤ m →
      shiftLeft v'.selectedRows (v.items.idxOf x + 1 + m) m =
        shiftLeft v.selectedRows (v.items.idxOf x + 1 + (m + n)) (m + n)

theorem CollapsesRows.refl (h : v.Sound D) (hcl : v.viewBased = false) (hv : v.ValidSelection)
    (hc : v.isOpen x = false) : CollapsesRows D v v x collapseChildren := by
  have ho {P : Prop} (h : v.isOpen x = true) : P := nomatch hc.symm.trans h
  refine ⟨⟨h, fun _ hy => hy, fun _ _ _ => .rfl, fun hx => ho (isOpen_iff.2 hx)⟩, hcl, rfl, hv,
    fun _ h => ho h, fun _ => rfl, 0, ?_, ?_, shiftLeft_zero.symm⟩
  · simp [rowsBelow, hc]
  · refine iff_of_true ?_ fun h => ho h
    simp [rowsBelow, hc]

theorem forgets_congr (hf : v.DictFits D) (hd : v'.itemDict = v.itemDict)
    (hexpanded : ∀ y, D.Below (some d) y → (y ∈ v'.expandedItems ↔ y ∈ v.expandedItems)) :
    v'.Forgets D d ↔ v.Forgets D d := by
  have hs (y : α) (hy : D.Below (some d) y) : v'.isOpen y = v.isOpen y := by
    rw [Bool.eq_iff_iff, isOpen_iff, isOpen_iff, hexpanded y hy]
  have hf' : v'.DictFits D := by rw [DictFits, hd]; exact hf
  constructor
  · intro h e he hc hr
    refine h e (he.congr hs) ((hs e he.toBelow).trans hc) ?_
    exact hr.of_same hf (fun z _ => by rw [hd]) fun z hz =>
      (hexpanded z (he.toBelow.trans rfl hz)).2
  · intro h e he hc hr
    have he' := he.congr fun y hy => (hs y hy).symm
    refine h e he' ((hs e he'.toBelow).symm.trans hc) ?_
    exact hr.of_same hf' (fun z _ => by rw [hd]) fun z hz =>
      (hexpanded z (he'.toBelow.trans rfl hz)).1

theorem rows_below (h : v.Sound D) (hb : CollapsedBelow D v v' x) (hr : x ∈ v.items) (hr' : x ∈ v'.items) :
    ∃ front back, v.items = front ++ x :: (rowsBelow D v x ++ back) ∧
      v'.items = front ++ x :: (rowsBelow D v' x ++ back) ∧ x ∉ front := by
  obtain ⟨front, back, ho, hn, hf⟩ := rows_collapsed h hb.close hr
  obtain ⟨front', back', ho', hn', hf'⟩ := rows_collapsed hb.sound (closeItem_collapsed hb.sound x) hr'
  have hnd := Outline.listing_nodup (D := D.toOutline) (v'.closeItem D (some x)).isOpen none
  rw [← (closeItem_sound (x := x) hb.sound).consistent.rows, hn', List.nodup_append] at hnd
  have hbc' := (List.nodup_cons.1 hnd.2.1).1
  obtain ⟨rfl, -, rfl⟩ := (List.append_cons_inj_of_notMem hf' hbc').1 (hn'.symm.trans hn)
  exact ⟨front', back', ho, ho', hf⟩

theorem CollapsedBelow.isOpen (h : CollapsedBelow D v v' x) (hx : v.isOpen x = true) : v'.isOpen x = true := by
  rw [isOpen_iff, h.expanded x fun hxx => Nat.lt_irrefl _ hxx.size_lt]
  exact isOpen_iff.1 hx

theorem CollapsedBelow.row (hv : v.Sound D) (h : CollapsedBelow D v v' x) (hr : x ∈ v.items) : x ∈ v'.items := by
  refine h.sound.consistent.mem_items.2 ((hv.consistent.mem_items.1 hr).congr_above fun y hy => ?_)
  rw [Bool.eq_iff_iff, isOpen_iff, isOpen_iff, h.expanded y]
  exact fun hx => Nat.lt_irrefl _ (Nat.lt_trans hy.size_lt hx.size_lt)

theorem CollapsedBelow.index (hv : v.Sound D) (h : CollapsedBelow D v v' x) (hr : x ∈ v.items) :
    v'.items.idxOf x = v.items.idxOf x := by
  obtain ⟨front, back, ho, hn, hf⟩ := rows_below hv h hr (h.row hv hr)
  rw [ho, hn, List.idxOf_append_of_notMem hf, List.idxOf_append_of_notMem hf,
    List.idxOf_cons_self, List.idxOf_cons_self]

/-- One child. -/
theorem loopsRows_single (hv : v.Sound D) (hr : x ∈ v.items) (hop : v.isOpen x = true)
    (hc : c ∈ D.children (some x)) (h : CollapsesRows D v v' c true) : LoopsRows D v v' x [c] := by
  have hb := h.collapsed.toBelow hc
  refine ⟨hb, h.viewBased, h.dict, h.valid, fun y hy => ?_, fun d hd y hy => ?_, fun d hd hclo y _ => ?_, ?_⟩
  · obtain ⟨hne, hb⟩ := hy c List.mem_cons_self
    exact h.collapsed.expanded y hne hb
  · obtain rfl := List.mem_singleton.1 hd
    rcases hy with rfl | ⟨hdo, hy⟩
    · exact h.collapsed.closed
    · exact h.closed_below rfl hdo y hy
  · obtain rfl := List.mem_singleton.1 hd
    rw [h.untouched hclo]
  · obtain ⟨n, hle, hi, hsel⟩ := h.selection
    obtain ⟨before, after, ho, hn⟩ := listing_collapsed (s := some x) h.collapsed (Outline.size_lt hc)
      (.child hc)
    obtain ⟨front, back, hits, -, hf⟩ := rows_below hv hb hr (hb.row hv hr)
    have hs : v.items = (front ++ x :: before) ++ c :: (rowsBelow D v c ++ (after ++ back)) := by
      rw [hits, rowsBelow, if_pos hop, ho]
      simp only [List.append_assoc, List.cons_append]
    have hnd := Outline.listing_nodup (D := D.toOutline) v.isOpen none
    rw [← hv.consistent.rows, hs, List.nodup_append] at hnd
    have hcfr : c ∉ front ++ x :: before := fun hin => hnd.2.2 c hin c List.mem_cons_self rfl
    have hidx : v.items.idxOf c = front.length + (before.length + 1) := by
      rw [hs, List.idxOf_append_of_notMem hcfr, List.idxOf_cons_self, Nat.add_zero, List.length_append,
        List.length_cons]
    have hidx' : v.items.idxOf x = front.length := by
      rw [hits, List.idxOf_append_of_notMem hf, List.idxOf_cons_self, Nat.add_zero]
    have hl : (D.listing v.isOpen (some x)).length =
        (D.listing v'.isOpen (some x)).length + (rowsBelow D v c).length := by
      rw [ho, hn]
      simp only [List.length_append, List.length_cons]
      omega
    refine ⟨n, by omega, ?_, fun m hm => ?_⟩
    · have hcnt : (D.listing v'.isOpen (some x)).length + n = (D.listing v.isOpen (some x)).length ↔
          n = (rowsBelow D v c).length := by omega
      rw [hcnt, hi, List.forall_mem_singleton]
    · rw [hn, List.length_append, List.length_cons] at hm
      rw [hsel]
      exact shiftLeft_shiftLeft (by omega) (by omega)

theorem LoopsRows.cons {children : List α} (hv : v.Sound D) (hr : x ∈ v.items)
    (hs : ∀ d ∈ c :: children, d ∈ D.children (some x)) (hnd : (c :: children).Nodup)
    (h : LoopsRows D v v' x [c]) (h' : LoopsRows D v' v'' x children) : LoopsRows D v v'' x (c :: children) := by
  have hsib (d : α) (hd : d ∈ children) (y : α) (hy : y = d ∨ D.Below (some d) y) :
      (y ∈ v'.expandedItems ↔ y ∈ v.expandedItems) := by
    refine h.other y fun e he => ?_
    obtain rfl := List.mem_singleton.1 he
    refine Outline.Seen.apart (hs e List.mem_cons_self) (hs d (List.mem_cons_of_mem e hd)) ?_ hy
    rintro rfl
    exact (List.nodup_cons.1 hnd).1 hd
  have ho (d : α) (hd : d ∈ children) : v'.isOpen d = v.isOpen d := by
    rw [Bool.eq_iff_iff, isOpen_iff, isOpen_iff, hsib d hd d (.inl rfl)]
  refine ⟨h.below.trans h'.below, h'.viewBased, h'.dict.trans h.dict, h'.valid, fun y hy => ?_,
    fun d hd y hy => ?_, fun d hd hc y hy => ?_, ?_⟩
  · rw [h'.other y fun e he => hy e (List.mem_cons_of_mem c he)]
    exact h.other y fun e he => hy e (List.mem_singleton.1 he ▸ List.mem_cons_self)
  · rcases List.mem_cons.1 hd with rfl | hd
    · exact fun hin => h.closed d List.mem_cons_self y hy (h'.below.shrinks y hin)
    · refine h'.closed d hd y (hy.imp_right fun hy => ?_)
      refine ⟨(ho d hd).trans hy.1, hy.2.congr fun z hz => ?_⟩
      rw [Bool.eq_iff_iff, isOpen_iff, isOpen_iff, hsib d hd z (.inr hz)]
  · rcases List.mem_cons.1 hd with rfl | hd
    · -- the rest of the children are apart from the first one
      rw [h'.other y fun e he => ?_]
      · exact h.untouched d List.mem_cons_self hc y hy
      · refine Outline.Seen.apart (hs e (List.mem_cons_of_mem d he)) (hs d List.mem_cons_self) ?_ (.inr hy)
        rintro rfl
        exact (List.nodup_cons.1 hnd).1 he
    · rw [h'.untouched d hd ((ho d hd).trans hc) y hy]
      exact hsib d hd y (.inr hy)
  · obtain ⟨n, hle, hi, hsel⟩ := h.selection
    obtain ⟨n', hle', hi', hsel'⟩ := h'.selection
    rw [h.below.index hv hr] at hsel'
    refine ⟨n + n', by omega, ?_, fun m hm => ?_⟩
    · have hcnt : (D.listing v''.isOpen (some x)).length + (n + n') = (D.listing v.isOpen (some x)).length ↔
          (D.listing v'.isOpen (some x)).length + n = (D.listing v.isOpen (some x)).length ∧
            (D.listing v''.isOpen (some x)).length + n' = (D.listing v'.isOpen (some x)).length := by omega
      rw [hcnt, hi, hi', List.forall_mem_singleton, List.forall_mem_cons]
      refine and_congr_right fun _ => forall₂_congr fun d hd => ?_
      rw [ho d hd, forgets_congr hv.consistent.fits h.dict fun y hy => hsib d hd y (.inr hy)]
    · rw [hsel' m hm, hsel (m + n') (by omega)]
      have hsum : m + n' + n = m + (n + n') := by omega
      rw [hsum]

theorem seen_or_remembered (hf : v.DictFits D) (hp : Relation.TransGen v.IsLoadedChild d e) :
    D.Seen v.isOpen (some d) e ∨ ∃ b, D.Seen v.isOpen (some d) b ∧ v.isOpen b = false ∧
      Relation.TransGen v.IsLoadedChild b e := by
  induction hp with
  | single hc => exact .inl (.child (hf.mem hc).2)
  | @tail b c _ hc ih =>
    rcases ih with hs | ⟨b', hs, hclo, hp⟩
    · cases hb : v.isOpen b with
      | true => exact .inl (.deeper hs hb (hf.mem hc).2)
      | false => exact .inr ⟨b, hs, hb, .single hc⟩
    · exact .inr ⟨b', hs, hclo, .tail hp hc⟩

theorem forgets_loop (hv : v.Sound D) (h : LoopsRows D v v' x (D.children (some x))) :
    (v'.Forgets D x ∧ ∀ c ∈ D.children (some x), v.isOpen c = true → v.Forgets D c) ↔ v.Forgets D x := by
  have hf := hv.consistent.fits
  have hf' := h.below.sound.consistent.fits
  have hch (c : α) (hc : c ∈ D.children (some x)) : v'.isOpen c = false :=
    Bool.eq_false_iff.2 fun hco => h.closed c hc c (.inl rfl) (isOpen_iff.1 hco)
  -- below a child that was collapsed nothing has changed
  have ha (d : α) (hd : d ∈ D.children (some x)) (hdo : v.isOpen d = false) (z : α)
      (hz : D.Below (some d) z) : (z ∈ v'.expandedItems ↔ z ∈ v.expandedItems) := h.untouched d hd hdo z hz
  constructor
  · rintro ⟨hl, hk⟩ d hd hclo hr
    obtain ⟨c, hc, rfl | ⟨hco, hcd⟩⟩ := hd.head
    · refine hl d (.child hc) (hch d hc) ?_
      exact hr.of_same hf (fun z _ => by rw [h.dict]) fun z hz => (ha d hc hclo z hz).2
    · exact hk c hc hco d hcd hclo hr
  · intro hfor
    refine ⟨fun d hd _ hr => ?_, fun c hc hco d hd => hfor d ((Outline.Seen.child hc).trans hco hd)⟩
    obtain ⟨c, hc, rfl | ⟨hco, -⟩⟩ := hd.head
    · obtain ⟨e, hp, he, hne⟩ := hr
      have hrel : v'.IsLoadedChild = v.IsLoadedChild := by
        funext p q
        rw [IsLoadedChild, IsLoadedChild, h.dict]
      have hp' : Relation.TransGen v.IsLoadedChild d e := hrel ▸ hp
      rw [h.dict] at hne
      have heOp := h.below.shrinks e he
      cases hdo : v.isOpen d with
      | false => exact hfor d (.child hc) hdo ⟨e, hp', heOp, hne⟩
      | true =>
        rcases seen_or_remembered hf hp' with hs | ⟨b, hs, hclo, hb⟩
        · exact h.closed d hc e (.inr ⟨hdo, hs⟩) he
        · exact hfor b ((Outline.Seen.child hc).trans hdo hs) hclo ⟨e, hb, heOp, hne⟩
    · cases (hch c hc).symm.trans hco

theorem refresh_cell (hc : v.viewBased = false) : v.refresh D = v := by
  rw [refresh, if_neg (by rw [hc]; exact Bool.false_ne_true)]

theorem LoopsRows.refl (h : v.Sound D) (hc : v.viewBased = false) (hv : v.ValidSelection) (x : α) :
    LoopsRows D v v x [] :=
  ⟨⟨h, fun _ hy => hy, fun _ _ => .rfl⟩, hc, rfl, hv, fun _ _ => .rfl, fun _ h => (nomatch h),
    fun _ h => (nomatch h), 0, Nat.le_refl _, iff_of_true rfl fun _ h => (nomatch h), fun _ _ => rfl⟩

variable (collapseChildren) in
theorem LoopsRows.close {children : List α} (hv : v.Sound D) (hr : x ∈ v.items) (ho : v.isOpen x = true)
    (hk : collapseChildren = true → children = D.children (some x))
    (hnn : collapseChildren = false → children = [] ∧ v' = v) (h : LoopsRows D v v' x children) :
    CollapsesRows D v (v'.closeItem D (some x)) x collapseChildren := by
  have hr' := h.below.row hv hr
  have ho' := h.below.isOpen ho
  have hs' := h.below.sound
  obtain ⟨hvld, hsel⟩ := closeItem_selection hs' h.valid hr' ho'
  have hl := (loaded_of_seen hs'.consistent.open_loaded hs'.consistent.root
    (hs'.consistent.mem_items.1 hr')).2 (isOpen_iff.1 ho')
  obtain ⟨hle, hi⟩ := collect_length hs' (s := some x) ho' hl
  obtain ⟨n, hn, hnf, hsh⟩ := h.selection
  have hrw : rowsBelow D v x = D.listing v.isOpen (some x) := by rw [rowsBelow, if_pos ho]
  refine ⟨h.below.close, (closeItem_viewBased x).trans h.viewBased, ?_, hvld, fun ha _ y hy hin => ?_,
    fun hclo => ?_, (v'.collectItemsStartingWith D (some x)).length + n, ?_, ?_, ?_⟩
  · rw [closeItem, note_itemDict]
    exact h.dict
  · obtain ⟨c, hc, hcy⟩ := hy.head
    refine h.closed c (hk ha ▸ hc) y hcy ?_
    rw [closeItem_expandedItems] at hin
    exact (List.mem_filter.1 hin).1
  · cases hclo.symm.trans ho
  · rw [hrw]
    omega
  · have hcnt : (v'.collectItemsStartingWith D (some x)).length + n = (D.listing v.isOpen (some x)).length ↔
        (v'.collectItemsStartingWith D (some x)).length = (D.listing v'.isOpen (some x)).length ∧
          (D.listing v'.isOpen (some x)).length + n = (D.listing v.isOpen (some x)).length := by omega
    rw [hrw, hcnt, hi, hnf]
    refine Iff.trans ?_ (forall_prop_of_true ho).symm
    cases ha : collapseChildren with
    | true =>
      obtain rfl := hk ha
      exact forgets_loop hv h
    | false =>
      obtain ⟨rfl, rfl⟩ := hnn ha
      exact and_iff_left fun _ h => absurd h List.not_mem_nil
  · rw [hsel, h.below.index hv hr]
    exact hsh _ hle

theorem collapseFuel_collapsesRows (fuel : Nat) (hfu : D.size (some x) < fuel) (hcl : v.viewBased = false)
    (hv : v.Sound D) (hvld : v.ValidSelection) (hr : x ∈ v.items) :
    CollapsesRows D v (collapseFuel D fuel v (some x) collapseChildren) x collapseChildren := by
  induction fuel generalizing v x collapseChildren with
  | zero => omega
  | succ fuel ih =>
    rw [collapseFuel]
    cases ho : v.isOpen x with
    | false =>
      have hg : (isExpandable D (some x) && v.isItemExpanded (some x)) = false := by
        rw [show v.isItemExpanded (some x) = false from ho, Bool.and_false]
      rw [hg]
      exact .refl hv hcl hvld ho
    | true =>
      have hg : (isExpandable D (some x) && v.isItemExpanded (some x)) = true := by
        rw [Bool.and_eq_true]
        exact ⟨hv.only_expandable x (isOpen_iff.1 ho), ho⟩
      have hfl (children : List α) (hs : ∀ c ∈ children, c ∈ D.children (some x))
          (hnd : children.Nodup) (v : NSOutlineView α) (hcl : v.viewBased = false) (hv : v.Sound D)
          (hvld : v.ValidSelection) (hr : x ∈ v.items) (ho : v.isOpen x = true) :
          LoopsRows D v (children.foldl (fun v child =>
            if isExpandable D (some child) then collapseFuel D fuel v (some child) true else v) v)
            x children := by
        induction children generalizing v with
        | nil => exact .refl hv hcl hvld x
        | cons c children ihc =>
          have hc := hs c List.mem_cons_self
          have hsz := Outline.size_lt hc
          have hcr : c ∈ v.items := hv.consistent.mem_items.2 (.deeper (hv.consistent.mem_items.1 hr) ho hc)
          have hf : CollapsesRows D v
              (if isExpandable D (some c) then collapseFuel D fuel v (some c) true else v) c true := by
            split
            · exact ih (by omega) hcl hv hvld hcr
            · rename_i hlf
              refine .refl hv hcl hvld (Bool.eq_false_iff.2 fun hco => hlf ?_)
              exact hv.only_expandable c (isOpen_iff.1 hco)
          rw [List.foldl_cons]
          have hl := loopsRows_single hv hr ho hc hf
          exact .cons hv hr hs hnd hl
            (ihc (fun d hd => hs d (List.mem_cons_of_mem c hd)) (List.nodup_cons.1 hnd).2 _ hl.viewBased
              hl.below.sound hl.valid (hl.below.row hv hr) (hl.below.isOpen ho))
      rw [hg]
      simp only [if_true]
      cases collapseChildren with
      | true =>
        have hld := (loaded_of_seen hv.consistent.open_loaded hv.consistent.root
          (hv.consistent.mem_items.1 hr)).2 (isOpen_iff.1 ho)
        have hl := hfl (v.itemDict (some x)) (fun c hc => (hv.consistent.fits.mem hc).2)
          (hld ▸ D.nodup (some x)) v hcl hv hvld hr ho
        have hcs := hl.close true hv hr ho (fun _ => hld) fun h => absurd h.symm Bool.false_ne_true
        simp only [if_true]
        rw [refresh_cell hcs.viewBased]
        exact hcs
      | false =>
        have hcs := (LoopsRows.refl hv hcl hvld x).close false hv hr ho (absurd · Bool.false_ne_true)
          fun _ => ⟨rfl, rfl⟩
        simp only [Bool.false_eq_true, if_false]
        rw [refresh_cell hcs.viewBased]
        exact hcs

/-! ## When the selection follows -/

section Removed

variable {front below back : List α}

section

omit [DecidableEq α]

theorem selected_kept_iff (hits : v.items = front ++ (below ++ back)) (hnd : v.items.Nodup)
    (hits' : v'.items = front ++ back) :
    (v.IsSelected y ∧ y ∈ v'.items) ↔ (∃ i ∈ v.selectedRows, i < front.length ∧ front[i]? = some y) ∨
      ∃ j, front.length + below.length + j ∈ v.selectedRows ∧ back[j]? = some y := by
  rw [hits, List.nodup_append, List.nodup_append] at hnd
  obtain ⟨-, ⟨-, -, ha⟩, har⟩ := hnd
  rw [hits', IsSelected, hits]
  constructor
  · rintro ⟨⟨i, hi, hy⟩, hk⟩
    rcases Nat.lt_or_ge i front.length with hlt | hge
    · rw [List.getElem?_append_left hlt] at hy
      exact .inl ⟨i, hi, hlt, hy⟩
    · rw [List.getElem?_append_right hge] at hy
      rcases Nat.lt_or_ge (i - front.length) below.length with hin | hbhd
      · rw [List.getElem?_append_left hin] at hy
        have hb := List.mem_of_getElem? hy
        rcases List.mem_append.1 hk with hf | hbc
        · exact absurd rfl (har y hf y (List.mem_append_left _ hb))
        · exact absurd rfl (ha y hb y hbc)
      · rw [List.getElem?_append_right hbhd] at hy
        refine .inr ⟨i - front.length - below.length, ?_, hy⟩
        rwa [show front.length + below.length + (i - front.length - below.length) = i by omega]
  · rintro (⟨i, hi, hlt, hy⟩ | ⟨j, hj, hy⟩)
    · refine ⟨⟨i, hi, ?_⟩, List.mem_append_left _ (List.mem_of_getElem? hy)⟩
      rwa [List.getElem?_append_left hlt]
    · refine ⟨⟨_, hj, ?_⟩, List.mem_append_right _ (List.mem_of_getElem? hy)⟩
      rw [List.getElem?_append_right (by omega), List.getElem?_append_right (by omega), ← hy]
      congr 1
      omega

theorem selected_moved_iff (hits' : v'.items = front ++ back)
    (hs : v'.selectedRows = shiftLeft v.selectedRows (front.length + n) n) :
    v'.IsSelected y ↔ (∃ i ∈ v.selectedRows, i < front.length ∧ front[i]? = some y) ∨
      ∃ j, front.length + n + j ∈ v.selectedRows ∧ back[j]? = some y := by
  rw [IsSelected, hits', hs]
  constructor
  · rintro ⟨i, hi, hy⟩
    rcases (mem_shiftLeft (by omega)).1 hi with ⟨hlt, hi⟩ | ⟨hge, hi⟩
    · rw [List.getElem?_append_left (by omega)] at hy
      exact .inl ⟨i, hi, by omega, hy⟩
    · rw [List.getElem?_append_right (by omega)] at hy
      refine .inr ⟨i - front.length, ?_, hy⟩
      rwa [show front.length + n + (i - front.length) = i + n by omega]
  · rintro (⟨i, hi, hlt, hy⟩ | ⟨j, hj, hy⟩)
    · refine ⟨i, (mem_shiftLeft (by omega)).2 (.inl ⟨by omega, hi⟩), ?_⟩
      rwa [List.getElem?_append_left hlt]
    · refine ⟨front.length + j, (mem_shiftLeft (by omega)).2 (.inr ⟨by omega, ?_⟩), ?_⟩
      · rwa [show front.length + j + n = front.length + n + j by omega]
      · rw [List.getElem?_append_right (by omega), ← hy]
        congr 1
        omega

theorem follows_removed_iff (hits : v.items = front ++ (below ++ back)) (hnd : v.items.Nodup)
    (hits' : v'.items = front ++ back) (hv' : v'.ValidSelection) (hn : below.length ≤ n) (hv : v.ValidSelection)
    (hs : v'.selectedRows = shiftLeft v.selectedRows (front.length + n) n) : FollowsItems v v' ↔
      n = below.length ∨ ∀ i ∈ v.selectedRows, i < front.length + below.length := by
  rw [hv'.follows_iff]
  constructor
  · intro h
    by_contra hnot
    rw [not_or] at hnot
    obtain ⟨hne, hb⟩ := hnot
    push Not at hb
    obtain ⟨i, hi, hle⟩ := hb
    -- the last selected row stands too high afterwards
    obtain ⟨last, hls⟩ := Finset.max_of_mem hi
    have hl := Finset.mem_of_max hls
    have hm (j : Nat) (hj : j ∈ v.selectedRows) : j ≤ last := Finset.le_max_of_eq hj hls
    have hil := hm i hi
    have hbc : last - (front.length + below.length) < back.length := by
      have hrg := hv.in_range last hl
      rw [hits, List.length_append, List.length_append] at hrg
      omega
    have hr := List.getElem?_eq_getElem hbc
    have hk := (selected_kept_iff hits hnd hits').2 (.inr ⟨last - (front.length + below.length),
      by rwa [show front.length + below.length + (last - (front.length + below.length)) = last by omega],
      hr⟩)
    rw [hits, List.nodup_append, List.nodup_append] at hnd
    obtain ⟨-, ⟨-, hbac, -⟩, ha⟩ := hnd
    rcases (selected_moved_iff hits' hs).1 ((h _).2 hk) with ⟨j, -, -, hj⟩ | ⟨j, hj, hj'⟩
    · exact ha _ (List.mem_of_getElem? hj) _ (List.mem_append_right _ (List.mem_of_getElem? hr)) rfl
    · have heq := (List.getElem?_inj hbc hbac).1 (hr.trans hj'.symm)
      have := hm _ hj
      omega
  · intro h y
    rw [selected_kept_iff hits hnd hits', selected_moved_iff hits' hs]
    rcases h with rfl | hnn
    · exact Iff.rfl
    · refine or_congr_right (iff_of_false ?_ ?_)
      · rintro ⟨j, hj, -⟩
        have := hnn _ hj
        omega
      · rintro ⟨j, hj, -⟩
        have := hnn _ hj
        omega

end

end Removed

/-! ## Collapsing an item -/

variable (collapseChildren) in
theorem collapseFuel_eq_refresh {P : NSOutlineView α → Prop}
    (hc : ∀ v x, P v → P (v.closeItem D (some x))) (hr : ∀ v, P v → P (v.refresh D)) (fuel : Nat)
    (hg : (isExpandable D (some x) && v.isItemExpanded (some x)) = true) (h : P v) :
    ∃ w, P w ∧ collapseFuel D (fuel + 1) v (some x) collapseChildren = w.refresh D := by
  rw [collapseFuel, if_pos hg]
  dsimp only
  split
  · refine ⟨_, hc _ x (foldl_keeps (fun v c h => ?_) _ h), rfl⟩
    split
    · exact collapseFuel_keeps hc hr fuel h
    · exact h
  · exact ⟨_, hc _ x h, rfl⟩

theorem closeItem_valid (h : v.Valid) (x : α) : (v.closeItem D (some x)).Valid := by
  have hv : ((v.markCollapsed (some x)).removeRows (v.collectItemsStartingWith D (some x))).Valid := h
  exact note_valid hv _

variable (collapseChildren) in
theorem collapseFuel_viewBased_selection (fuel : Nat) (hvw : v.viewBased = true)
    (hg : (isExpandable D (some x) && v.isItemExpanded (some x)) = true) (h : v.Valid) :
    (collapseFuel D (fuel + 1) v (some x) collapseChildren).ValidSelection ∧
      (collapseFuel D (fuel + 1) v (some x) collapseChildren).selectedRows = ∅ := by
  obtain ⟨w, ⟨hvw, hv⟩, heq⟩ := collapseFuel_eq_refresh (P := fun w => w.viewBased = true ∧ w.Valid)
    collapseChildren (fun _ y h => ⟨(closeItem_viewBased y).trans h.1, closeItem_valid h.2 y⟩)
    (fun _ h => ⟨refresh_steady.viewBased.trans h.1, refresh_valid h.2⟩) fuel hg ⟨hvw, h⟩
  rw [heq]
  exact refresh_selection hvw hv

theorem mem_rowsBelow (h : v.Sound D) (hy : y ∈ v.items) : y ∈ rowsBelow D v x ↔ D.Below (some x) y := by
  rw [rowsBelow]
  constructor
  · intro hin
    split at hin
    · exact (Outline.mem_listing.1 hin).toBelow
    · exact nomatch hin
  · intro hb
    obtain ⟨-, ho, hs⟩ := (h.consistent.mem_items.1 hy).between (D.height_lt_bound x) hb
    rw [if_pos ho]
    exact Outline.mem_listing.2 hs

theorem collapseItem_follows_iff (h : v.Sound D) (hv : v.ValidSelection) (hr : x ∈ v.items) :
    FollowsItems v (v.collapseItem D (some x) collapseChildren) ↔ v.isOpen x = false ∨
      (v.viewBased = true ∧ ∀ y, v.IsSelected y → D.Below (some x) y) ∨ (v.viewBased = false ∧
        (v.Forgets D x ∨ ∀ i ∈ v.selectedRows, i < v.items.idxOf x + 1 + (rowsBelow D v x).length)) := by
  have hbn := D.height_lt_bound x
  have hc : Collapsed D v (collapseFuel D (D.bound + 1) v (some x) collapseChildren) x :=
    collapseFuel_collapsed _ (Nat.lt_succ_of_lt hbn) h
  have hnd : v.items.Nodup := h.consistent.listsRows.nodup
  rw [collapseItem]
  cases hop : v.isOpen x with
  | false =>
    have hg : (isExpandable D (some x) && v.isItemExpanded (some x)) = false := by
      rw [show v.isItemExpanded (some x) = false from hop, Bool.and_false]
    refine iff_of_true ?_ (.inl rfl)
    rw [collapseFuel, hg]
    exact KeepsSelection.follows ⟨hv, fun _ => .rfl⟩
  | true =>
    obtain ⟨front, back, ho, hn, hfrt⟩ := rows_collapsed h hc hr
    cases hvw : v.viewBased with
    | true =>
      have hg : (isExpandable D (some x) && v.isItemExpanded (some x)) = true := by
        rw [Bool.and_eq_true]
        exact ⟨h.only_expandable x (isOpen_iff.1 hop), hop⟩
      obtain ⟨hv', hnn⟩ := collapseFuel_viewBased_selection collapseChildren D.bound
        hvw hg hv.valid
      rw [follows_iff_of_none hv' hnn]
      have hk (y : α) (hy : y ∈ v.items) :
          y ∉ (collapseFuel D (D.bound + 1) v (some x) collapseChildren).items ↔ D.Below (some x) y := by
        rw [← mem_rowsBelow h hy, hn]
        rw [ho] at hy hnd
        simp only [List.nodup_append, List.nodup_cons, List.mem_append, List.mem_cons] at hnd hy ⊢
        grind
      constructor
      · exact fun hd => .inr (.inl ⟨rfl, fun y hy => (hk y hy.mem).1 (hd y hy)⟩)
      · rintro (hf | ⟨-, hb⟩ | ⟨hf, -⟩) y hy
        · cases hf
        · exact (hk y hy.mem).2 (hb y hy)
        · cases hf
    | false =>
      have hrw : CollapsesRows D v (collapseFuel D (D.bound + 1) v (some x) collapseChildren) x
          collapseChildren := collapseFuel_collapsesRows _ (Nat.lt_succ_of_lt hbn) hvw h hv hr
      obtain ⟨n, hle, hi, hs⟩ := hrw.selection
      have hidx : v.items.idxOf x + 1 = (front ++ [x]).length := by
        rw [ho, List.idxOf_append_of_notMem hfrt, List.idxOf_cons_self, List.length_append]
        rfl
      rw [hidx] at hs ⊢
      have ho' : v.items = (front ++ [x]) ++ (rowsBelow D v x ++ back) := by
        rw [ho, List.append_assoc]
        rfl
      have hn' : (collapseFuel D (D.bound + 1) v (some x) collapseChildren).items = (front ++ [x]) ++ back := by
        rw [hn, List.append_assoc]
        rfl
      have hfol := follows_removed_iff ho' hnd hn' hrw.valid hle hv hs
      rw [hfol, hi, forall_prop_of_true hop]
      constructor
      · exact fun hcn => .inr (.inr ⟨rfl, hcn⟩)
      · rintro (hf | ⟨hf, -⟩ | ⟨-, hcn⟩)
        · cases hf
        · cases hf
        · exact hcn

end NSOutlineView

end GnustepGui.OutlineView
