import GnustepGui.OutlineView.Loading

/-!
# The rows of an outline view

Between two calls the rows are the items that are seen, in preorder, and what is expanded and seen has
been loaded (`Consistent`). Collapsing an item and reloading keep this; opening one keeps it when it has
a row and its expanded children remember nothing below a collapsed item (`openItem_consistent`).
-/

namespace GnustepGui.OutlineView

namespace NSOutlineView

variable {α : Type*} [DecidableEq α] {D : DataSource α} {v v' : NSOutlineView α} {s t : Option α}
  {x y z : α}

/-- The rows are those of the expanded items, and what is expanded has been loaded. -/
structure Consistent (D : DataSource α) (v : NSOutlineView α) : Prop where
  rows : v.items = D.listing v.isOpen none
  root : v.itemDict none = D.children none
  fits : v.DictFits D
  open_loaded : v.OpenLoaded D
  levels : ∀ s, ∀ x ∈ v.itemDict s, v.HasLevel D x

theorem Consistent.mem_items (h : v.Consistent D) : x ∈ v.items ↔ D.Seen v.isOpen none x := by
  rw [h.rows, Outline.mem_listing]

theorem Consistent.of_same (h : v.Consistent D) (hexpanded : v'.expandedItems = v.expandedItems)
    (hits : v'.items = v.items) (hd : v'.itemDict = v.itemDict)
    (hl : v'.levelOfItems = v.levelOfItems) : v'.Consistent D where
  rows := by rw [isOpen_congr hexpanded, hits, h.rows]
  root := by rw [hd, h.root]
  fits := by rw [DictFits, hd]; exact h.fits
  open_loaded := by rw [OpenLoaded, hd, hexpanded]; exact h.open_loaded
  levels := fun s x hx => (h.levels s x (hd ▸ hx)).congr (by rw [hl])

/-! ## Inserting -/

omit [DecidableEq α] in
theorem insertIdx_front (front back : List α) (x : α) :
    (front ++ back).insertIdx front.length x = front ++ x :: back := by
  induction front with
  | nil => rfl
  | cons y front ih => rw [List.cons_append, List.length_cons, List.insertIdx_succ_cons, ih, List.cons_append]

omit [DecidableEq α] in
theorem foldr_insertIdx (front back rows : List α) :
    rows.foldr (fun item items => items.insertIdx front.length item) (front ++ back) = front ++ (rows ++ back) := by
  induction rows with
  | nil => rfl
  | cons x rows ih => rw [List.foldr_cons, ih, insertIdx_front, List.cons_append]

theorem insertChild_front (front back : List α) (child : α) :
    v.insertChild D front.length child (front ++ back) = front ++ (v.insertedFor D child ++ back) := by
  rw [insertChild, insertedFor]
  split
  · rw [foldr_insertIdx, insertIdx_front, List.cons_append]
  · rw [insertIdx_front]
    rfl

theorem foldr_insertChild (front back children : List α) :
    children.foldr (v.insertChild D front.length) (front ++ back) =
      front ++ (children.flatMap (v.insertedFor D) ++ back) := by
  induction children with
  | nil => rfl
  | cons child children ih =>
    rw [List.foldr_cons, ih, insertChild_front, List.flatMap_cons, List.append_assoc]

theorem insertChildren_top (back : List α) (hits : v.items = back) :
    (v.insertChildren D none).items = (v.itemDict none).flatMap (v.insertedFor D) ++ back := by
  rw [insertChildren, hits]
  exact foldr_insertChild [] back _

theorem insertChildren_hidden (hx : x ∉ v.items) :
    (v.insertChildren D (some x)).items = (v.itemDict (some x)).flatMap (v.insertedFor D) ++ v.items := by
  rw [insertChildren, rowIndexBelow, if_neg hx]
  exact foldr_insertChild [] v.items _

theorem rowIndexBelow_row {front back : List α} (hits : v.items = front ++ x :: back) (hx : x ∉ front) :
    v.rowIndexBelow (some x) = (front ++ [x]).length := by
  have hm : x ∈ v.items := by rw [hits]; exact List.mem_append_right _ List.mem_cons_self
  rw [rowIndexBelow, if_pos hm, hits, List.idxOf_append_of_notMem hx, List.idxOf_cons_self, List.length_append]
  rfl

theorem insertChildren_row {front back : List α} (hits : v.items = front ++ x :: back) (hx : x ∉ front) :
    (v.insertChildren D (some x)).items = front ++ x :: ((v.itemDict (some x)).flatMap (v.insertedFor D) ++ back) := by
  have hi := rowIndexBelow_row hits hx
  have hs : v.items = (front ++ [x]) ++ back := by rw [hits, List.append_assoc]; rfl
  rw [insertChildren, hi, hs]
  refine (foldr_insertChild (front ++ [x]) back _).trans ?_
  rw [List.append_assoc]
  rfl

/-- What is inserted below a loaded item is what is seen there, when its collapsed descendants have
nothing to collect. -/
theorem flatMap_insertedFor (h : v.DictFits D) (ho : v.OpenLoaded D) (hl : v.itemDict s = D.children s)
    (hcln : ∀ c ∈ D.children s, v.isOpen c = true → ∀ y, D.Seen v.isOpen (some c) y →
      v.isOpen y = false → v.collectItemsStartingWith D (some y) = []) :
    (v.itemDict s).flatMap (v.insertedFor D) = D.listing v.isOpen s := by
  rw [hl, Outline.listing_eq]
  refine List.flatMap_congr fun c hc => ?_
  rw [insertedFor]
  refine congrArg (c :: ·) ?_
  cases hco : v.isItemExpanded (some c) with
  | false =>
    have hco' : v.isOpen c = false := hco
    rw [hco']
    rfl
  | true =>
    have hco' : v.isOpen c = true := hco
    have hk := ho s c (hl.symm ▸ hc) (isOpen_iff.1 hco')
    rw [hco', if_pos rfl, if_pos rfl]
    exact collect_eq_listing h ho hco hk (hcln c hc hco')

/-! ## Loading if needed -/

/-- An item that is being opened has been loaded. -/
structure Prepared (D : DataSource α) (v v' : NSOutlineView α) (s : Option α) : Prop where
  same : v' = { v with itemDict := v'.itemDict, levelOfItems := v'.levelOfItems }
  dict : ∀ t, v'.itemDict t = v.itemDict t ∨ (v'.itemDict t = D.children t ∧
    (t = s ∨ ∃ c, t = some c ∧ D.Seen v.isOpen s c ∧ v.isOpen c = true))
  loaded : v'.itemDict s = D.children s
  open_loaded : v'.OpenLoaded D
  levels : ∀ t, ∀ x ∈ v'.itemDict t, v'.HasLevel D x

theorem Prepared.fits (h : Prepared D v v' s) (hf : v.DictFits D) : v'.DictFits D :=
  hf.of_fill fun t => (h.dict t).imp_right And.left

theorem Prepared.isOpen (h : Prepared D v v' s) : v'.isOpen = v.isOpen := isOpen_congr (by rw [h.same])

theorem loadIfNeeded_spec (hf : v.DictFits D) (honly : v.OnlyExpandable D) (hexpanded : v.isItemExpanded s = true)
    (hop : ∀ t, ∀ c ∈ v.itemDict t, c ∈ v.expandedItems → some c ≠ s → v.itemDict (some c) = D.children (some c))
    (hlv : ∀ t, ∀ x ∈ v.itemDict t, v.HasLevel D x) (hl : LevelFits D s (v.levelForItem s)) :
    Prepared D v (v.loadIfNeeded D s) s := by
  rw [loadIfNeeded]
  split
  · rename_i hld
    have hsl : v.itemDict s = D.children s := by
      refine (hf s).resolve_left fun he => ?_
      rw [isItemLoaded, he] at hld
      exact nomatch hld
    refine ⟨rfl, fun t => .inl rfl, hsl, fun t c hc hco => ?_, hlv⟩
    by_cases heq : some c = s
    · rw [heq, hsl]
    · exact hop t c hc hco heq
  · have hb := Outline.size_lt_bound (D := D.toOutline) s
    have hlo := loadFuel_spec (D.bound + 1) (by omega) hf honly hl
    rw [loadDictionaryStartingWith]
    generalize loadFuel D (D.bound + 1) v s (v.levelForItem s) = v' at hlo ⊢
    have hs : v'.expandedItems = v.expandedItems := by rw [hlo.same]
    have hdc (t : Option α) : v'.itemDict t = v.itemDict t ∨ (v'.itemDict t = D.children t ∧
        (t = s ∨ ∃ c, t = some c ∧ D.Seen v.isOpen s c ∧ v.isOpen c = true)) :=
      (hlo.dict t).imp_right fun h => ⟨h.1, h.2.2⟩
    -- an item that is seen has its level from the load, any other one keeps it
    have hkp (x : α) (hx : v.HasLevel D x) : v'.HasLevel D x := by
      rcases hlo.level_other (some x) with heq | rfl | ⟨y, hy, -, hset⟩
      · exact hx.congr heq
      · obtain ⟨n, hd, hn⟩ := hx
        refine ⟨n, hd, ?_⟩
        rw [levelForItem, hlo.level_self]
        exact hn
      · exact Option.some.inj hy ▸ hset
    have hsn (t : Option α) (x : α) (hx : x ∈ D.children t)
        (ht : t = s ∨ ∃ c, t = some c ∧ D.Seen v.isOpen s c ∧ v.isOpen c = true) : D.Seen v.isOpen s x := by
      rcases ht with rfl | ⟨c, rfl, hc, hco⟩
      · exact .child hx
      · exact .deeper hc hco hx
    refine ⟨hlo.same, hdc, hlo.loaded hexpanded, fun t c hc hco => ?_, fun t x hx => ?_⟩
    · rw [hs] at hco
      by_cases heq : some c = s
      · rw [heq]
        exact hlo.loaded hexpanded
      · rcases hdc t with ho | ⟨hkd, ht⟩
        · have hk := hop t c (ho ▸ hc) hco heq
          rcases hdc (some c) with hkt | hfld
          · exact hkt.trans hk
          · exact hfld.1
        · exact hlo.seen_loaded hexpanded c (hsn t c (hkd ▸ hc) ht) (isOpen_iff.2 hco)
    · rcases hdc t with ho | ⟨hkd, ht⟩
      · exact hkp x (hlv t x (ho ▸ hx))
      · exact hlo.levels hexpanded x (hsn t x (hkd ▸ hx) ht)

/-! ## Opening -/

section Fields

variable {numItems : Int}

@[simp] theorem note_items : (v.noteNumberOfRowsChangedBelowItem s numItems).items = v.items := by
  unfold noteNumberOfRowsChangedBelowItem; split <;> rfl

@[simp] theorem note_itemDict : (v.noteNumberOfRowsChangedBelowItem s numItems).itemDict = v.itemDict := by
  unfold noteNumberOfRowsChangedBelowItem; split <;> rfl

@[simp] theorem note_levelOfItems : (v.noteNumberOfRowsChangedBelowItem s numItems).levelOfItems = v.levelOfItems := by
  unfold noteNumberOfRowsChangedBelowItem; split <;> rfl

@[simp] theorem note_expandedItems :
    (v.noteNumberOfRowsChangedBelowItem s numItems).expandedItems = v.expandedItems := by
  unfold noteNumberOfRowsChangedBelowItem; split <;> rfl

@[simp] theorem note_viewBased : (v.noteNumberOfRowsChangedBelowItem s numItems).viewBased = v.viewBased := by
  unfold noteNumberOfRowsChangedBelowItem; split <;> rfl

end Fields

theorem note_consistent {numItems : Int} (h : v.Consistent D) :
    (v.noteNumberOfRowsChangedBelowItem s numItems).Consistent D :=
  h.of_same note_expandedItems note_items note_itemDict note_levelOfItems

theorem markExpanded_isOpen_self : (v.markExpanded (some x)).isOpen x = true :=
  isOpen_iff.2 (List.mem_append_right _ (List.mem_singleton_self x))

theorem markExpanded_isOpen_of_ne (hne : y ≠ x) : (v.markExpanded (some x)).isOpen y = v.isOpen y := by
  rw [Bool.eq_iff_iff, isOpen_iff, isOpen_iff]
  simp [markExpanded, hne]

/-- Below a collapsed item that an expanded child reveals nothing expanded is remembered. -/
def Clean (D : DataSource α) (v : NSOutlineView α) (x : α) : Prop :=
  ∀ d, D.Seen v.isOpen (some x) d → d ∉ D.children (some x) → v.isOpen d = false → ¬ v.Remembers d

omit [DecidableEq α] in
/-- What is remembered depends on what is below only. -/
theorem Remembers.of_same (h : v'.Remembers y) (hf : v'.DictFits D)
    (hd : ∀ z, z = y ∨ D.Below (some y) z → v'.itemDict (some z) = v.itemDict (some z))
    (hexpanded : ∀ z, D.Below (some y) z → z ∈ v'.expandedItems → z ∈ v.expandedItems) : v.Remembers y := by
  obtain ⟨e, hp, he, hne⟩ := h
  have hb := below_of_loaded hf hp
  refine ⟨e, ?_, hexpanded e hb he, hd e (.inr hb) ▸ hne⟩
  clear hne he hb
  induction hp with
  | single hc =>
    rw [IsLoadedChild, hd y (.inl rfl)] at hc
    exact .single hc
  | tail hp hc ih =>
    rw [IsLoadedChild, hd _ (.inr (below_of_loaded hf hp))] at hc
    exact .tail ih hc

section Open

variable (h : v.Consistent D) (honly : v.OnlyExpandable D) (hx : D.isItemExpandable x = true)
  (hclosed : v.isOpen x = false) (hrow : x ∈ v.items ∨ D.children (some x) = [])

include h honly hx hrow in
theorem prepared_open :
    Prepared D (v.markExpanded (some x)) ((v.markExpanded (some x)).loadIfNeeded D (some x)) (some x) := by
  refine loadIfNeeded_spec h.fits (fun y hy => ?_) (isOpen_iff.2 (isOpen_iff.1 markExpanded_isOpen_self))
    (fun t c hc hco hne => ?_) h.levels fun c hc => ?_
  · rcases List.mem_append.1 hy with hy | hy
    · exact honly y hy
    · exact List.mem_singleton.1 hy ▸ hx
  · refine h.open_loaded t c hc ?_
    refine (List.mem_append.1 hco).resolve_right fun hcx => hne ?_
    rw [List.mem_singleton.1 hcx]
  · rcases hrow with hrow | hch
    · obtain ⟨⟨p, hp⟩, -⟩ := loaded_of_seen h.open_loaded h.root (h.mem_items.1 hrow)
      obtain ⟨n, hd, hn⟩ := h.levels p x hp
      have hl : (v.markExpanded (some x)).levelForItem (some x) = n := hn
      exact ⟨n + 1, .child hd hc, by omega⟩
    · rw [hch] at hc
      exact nomatch hc

include hclosed in
theorem prepared_dict (hp : Prepared D (v.markExpanded (some x)) v' (some x)) (hy : D.Below (some x) y)
    (hyclosed : v.isOpen y = false) (hz : z = y ∨ D.Below (some y) z) : v'.itemDict (some z) = v.itemDict (some z) := by
  have hne : y ≠ x := by
    rintro rfl
    exact Nat.lt_irrefl _ hy.size_lt
  have hyclosed' : (v.markExpanded (some x)).isOpen y ≠ true := by
    rw [markExpanded_isOpen_of_ne hne, hyclosed]
    exact Bool.false_ne_true
  have hzx : D.size (some z) < D.size (some x) := by
    rcases hz with rfl | hz
    · exact hy.size_lt
    · exact Nat.lt_trans hz.size_lt hy.size_lt
  refine (hp.dict (some z)).resolve_right fun hf => ?_
  obtain ⟨-, heq | ⟨c, hc, hs, hco⟩⟩ := hf
  · rw [heq] at hzx
    exact Nat.lt_irrefl _ hzx
  · obtain rfl := Option.some.inj hc
    rcases hz with rfl | hz
    · exact hyclosed' hco
    · exact hyclosed' (hs.between hy.size_lt hz).2.1

include h honly hx hclosed hrow in
theorem openItem_consistent (hcln : v.Clean D x) : (v.openItem D (some x)).Consistent D := by
  have hp := prepared_open h honly hx hrow
  rw [openItem]
  refine note_consistent ?_
  generalize (v.markExpanded (some x)).loadIfNeeded D (some x) = v₂ at hp ⊢
  have hf := hp.fits h.fits
  have hop : v₂.isOpen = (v.markExpanded (some x)).isOpen := hp.isOpen
  have hexpanded : v₂.expandedItems = v.expandedItems ++ [x] := by rw [hp.same]; rfl
  have hits : v₂.items = v.items := by rw [hp.same]; rfl
  have hs : v₂.isOpen x = true := hop ▸ markExpanded_isOpen_self
  have hother (y : α) (hne : y ≠ x) : v₂.isOpen y = v.isOpen y := hop ▸ markExpanded_isOpen_of_ne hne
  have hbelow_ne {y : α} (hy : D.Below (some x) y) : y ≠ x := by
    rintro rfl
    exact Nat.lt_irrefl _ hy.size_lt
  have hi : (v₂.itemDict (some x)).flatMap (v₂.insertedFor D) = D.listing v₂.isOpen (some x) := by
    refine flatMap_insertedFor hf hp.open_loaded hp.loaded fun c hc hco y hy hyclosed => ?_
    have hcy : D.Below (some x) y := (Outline.Seen.child hc).trans rfl hy.toBelow
    have hyclosed' : v.isOpen y = false := (hother y (hbelow_ne hcy)).symm.trans hyclosed
    have hsn : D.Seen v.isOpen (some x) y := by
      refine (Outline.Seen.child hc).trans ((hother c (hbelow_ne (.child hc))).symm.trans hco) ?_
      exact hy.congr fun z hz => (hother z (hbelow_ne ((Outline.Seen.child hc).trans rfl hz))).symm
    refine collect_eq_nil hf hyclosed fun hr => ?_
    refine hcln y hsn (fun hych => Outline.Seen.siblings hc hych hy.toBelow) hyclosed' ?_
    refine hr.of_same hf (fun z hz => prepared_dict hclosed hp hcy hyclosed' hz) ?_
    intro z hz hzo
    rw [← isOpen_iff, ← hother z (hbelow_ne (hcy.trans rfl hz))]
    exact isOpen_iff.2 hzo
  refine ⟨?_, ?_, hf, hp.open_loaded, hp.levels⟩
  · by_cases hm : x ∈ v.items
    · obtain ⟨front, back, ho, hn⟩ := Outline.listing_split hother hclosed hs (h.mem_items.1 hm)
      have hfrt : x ∉ front := by
        have hnd := Outline.listing_nodup (D := D.toOutline) v.isOpen none
        rw [ho, List.nodup_append] at hnd
        exact fun hin => hnd.2.2 x hin x List.mem_cons_self rfl
      have hrw : v₂.items = front ++ x :: back := by rw [hits, h.rows, ho]
      rw [insertChildren_row hrw hfrt, hi]
      exact hn.symm
    · have hch := hrow.resolve_left hm
      have hnn : v₂.itemDict (some x) = [] := hp.loaded.trans hch
      have hsm : (v₂.insertChildren D (some x)).items = v₂.items := by rw [insertChildren, hnn]; rfl
      rw [hsm, hits, h.rows]
      refine (Outline.listing_congr fun y hy => hother y ?_).symm
      rintro rfl
      exact hm (h.mem_items.2 hy)
  · rcases hp.dict none with heq | heq
    · exact heq.trans h.root
    · exact heq.1

end Open

/-! ## Collapsing -/

theorem removeRows_items (rows : List α) : (v.removeRows rows).items = v.items.filter fun y => decide (y ∉ rows) := by
  rw [removeRows]
  change rows.foldl (fun items child => items.filter (· ≠ child)) v.items = _
  generalize v.items = items
  induction rows generalizing items with
  | nil => simp
  | cons row rows ih =>
    rw [List.foldl_cons, ih, List.filter_filter]
    refine List.filter_congr fun y _ => ?_
    rw [Bool.eq_iff_iff]
    simp only [Bool.and_eq_true, decide_eq_true_eq, List.mem_cons, not_or]
    exact and_comm

theorem markCollapsed_isOpen_self : (v.markCollapsed (some x)).isOpen x = false := by
  rw [Bool.eq_false_iff, ne_eq, isOpen_iff]
  simp [markCollapsed]

theorem markCollapsed_isOpen_of_ne (hne : y ≠ x) : (v.markCollapsed (some x)).isOpen y = v.isOpen y := by
  rw [Bool.eq_iff_iff, isOpen_iff, isOpen_iff]
  simp [markCollapsed, hne]

theorem filter_collected (h : v.Consistent D) :
    v.items.filter (fun y => decide (y ∉ v.collectItemsStartingWith D (some x))) =
      D.listing (v.markCollapsed (some x)).isOpen none := by
  obtain ⟨keep, hkeep_eq⟩ : ∃ keep : α → Bool,
      keep = fun y => decide (y ∉ v.collectItemsStartingWith D (some x)) := ⟨_, rfl⟩
  rw [← hkeep_eq]
  have hk (y : α) (hy : ¬ D.Below (some x) y) : keep y = true := by
    rw [hkeep_eq]
    exact decide_eq_true fun hin => hy (below_of_mem_collect h.fits hin)
  by_cases hbt : D.Seen v.isOpen none x ∧ v.isOpen x = true
  · obtain ⟨hs, hx⟩ := hbt
    have hs' : D.Seen (v.markCollapsed (some x)).isOpen none x :=
      hs.congr_above fun y hy => markCollapsed_isOpen_of_ne fun heq =>
        Nat.lt_irrefl _ (heq ▸ hy).size_lt
    obtain ⟨front, back, hn, ho⟩ :=
      Outline.listing_split (fun y hne => (markCollapsed_isOpen_of_ne hne).symm) markCollapsed_isOpen_self hx
        hs'
    have hl := (loaded_of_seen h.open_loaded h.root hs).2 (isOpen_iff.1 hx)
    -- a row below the item is in its listing, and so nowhere else
    have hb (y : α) (hy : y ∈ D.listing v.isOpen none) (hxy : D.Below (some x) y) : y ∈ D.listing v.isOpen (some x) :=
      Outline.mem_listing.2 ((Outline.mem_listing.1 hy).between (D.height_lt_bound x) hxy).2.2
    have hnd := Outline.listing_nodup (D := D.toOutline) v.isOpen none
    rw [ho] at hb hnd
    obtain ⟨-, hls, hd⟩ := List.nodup_append.1 hnd
    obtain ⟨-, -, hd'⟩ := List.nodup_append.1 (List.nodup_cons.1 hls).2
    have hf (y : α) (hy : y ∈ front) : ¬ D.Below (some x) y := by
      intro hxy
      have hin := hb y (List.mem_append_left _ hy) hxy
      exact hd y hy y (List.mem_cons_of_mem x (List.mem_append_left _ hin)) rfl
    have hbc (y : α) (hy : y ∈ back) : ¬ D.Below (some x) y := by
      intro hxy
      have hin := hb y
        (List.mem_append_right front (List.mem_cons_of_mem x (List.mem_append_right _ hy))) hxy
      exact hd' y hin y hy rfl
    have hsl : ¬ D.Below (some x) x := fun hxx => Nat.lt_irrefl _ hxx.size_lt
    have hr : (D.listing v.isOpen (some x)).filter keep = [] := by
      refine List.filter_eq_nil_iff.2 fun y hy => ?_
      have hin := mem_collect_of_seen h.fits h.open_loaded hl (isOpen_iff.1 hx)
        (Outline.mem_listing.1 hy)
      rw [hkeep_eq]
      simp [hin]
    have hfr : front.filter keep = front := List.filter_eq_self.2 fun y hy => hk y (hf y hy)
    have hbac : back.filter keep = back := List.filter_eq_self.2 fun y hy => hk y (hbc y hy)
    rw [hn, h.rows, ho, List.filter_append, List.filter_cons_of_pos (hk x hsl), List.filter_append,
      hr, List.nil_append, hfr, hbac]
  · have hsm : D.listing (v.markCollapsed (some x)).isOpen none = D.listing v.isOpen none := by
      refine Outline.listing_congr fun y hy => ?_
      by_cases hne : y = x
      · subst hne
        have hclosed : v.isOpen y = false := Bool.eq_false_iff.2 fun hop => hbt ⟨hy, hop⟩
        rw [markCollapsed_isOpen_self, hclosed]
      · exact markCollapsed_isOpen_of_ne hne
    rw [hsm, ← h.rows]
    refine List.filter_eq_self.2 fun y hy => hk y fun hxy => hbt ?_
    obtain ⟨hs, hop, -⟩ := (h.mem_items.1 hy).between (D.height_lt_bound x) hxy
    exact ⟨hs, hop⟩

theorem closeItem_consistent (h : v.Consistent D) : (v.closeItem D (some x)).Consistent D := by
  rw [closeItem]
  refine note_consistent ⟨?_, h.root, h.fits, fun t c hc hco => ?_, h.levels⟩
  · rw [removeRows_items]
    exact filter_collected h
  · exact h.open_loaded t c hc (List.mem_filter.1 hco).1

/-! ## Reloading -/

theorem reloadData_consistent (honly : v.OnlyExpandable D) : (v.reloadData D).Consistent D := by
  refine Consistent.of_same (v := v.cleared.openItem D none) ?_ rfl rfl rfl rfl
  rw [openItem]
  refine note_consistent ?_
  have hp : Prepared D v.cleared (v.cleared.loadIfNeeded D none) none :=
    loadIfNeeded_spec (fun t => .inl rfl) honly rfl (fun _ _ hc => nomatch hc) (fun _ _ hx => nomatch hx)
      fun c hc => ⟨0, .top hc, rfl⟩
  change Consistent D ((v.cleared.loadIfNeeded D none).insertChildren D none)
  generalize v.cleared.loadIfNeeded D none = v₂ at hp ⊢
  have hf : v₂.DictFits D := hp.fits fun t => .inl rfl
  refine ⟨?_, hp.loaded, hf, hp.open_loaded, hp.levels⟩
  have hits : v₂.items = [] := by rw [hp.same]; rfl
  rw [insertChildren_top [] hits, List.append_nil]
  refine flatMap_insertedFor hf hp.open_loaded hp.loaded fun c hc hco y hy hyclosed => ?_
  rw [collect_eq hf]
  rcases hp.dict (some y) with ho | ⟨-, heq | ⟨d, hd, -, hdo⟩⟩
  · rw [ho]
    rfl
  · exact nomatch heq
  · obtain rfl := Option.some.inj hd
    rw [hp.isOpen] at hyclosed
    exact nomatch hyclosed.symm.trans hdo

end NSOutlineView

end GnustepGui.OutlineView
