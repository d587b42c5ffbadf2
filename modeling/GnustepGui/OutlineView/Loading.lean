import GnustepGui.OutlineView.View

/-!
# Loading and collecting items

What `_loadDictionaryStartingWith:` loads (`loadDictionary_spec`) and what
`_collectItemsStartingWith:into:` collects (`mem_collect`): the children of every loaded item that is
expanded, also of one below a collapsed item. The collected items are the ones that are seen when
nothing below a collapsed item is expanded (`collect_eq_listing`).
-/

namespace GnustepGui.OutlineView

namespace NSOutlineView

variable {α : Type*} [DecidableEq α] {D : DataSource α} {v v' : NSOutlineView α} {s t : Option α}
  {x y z : α} {level : Int}

def isOpen (v : NSOutlineView α) (x : α) : Bool := v.isItemExpanded (some x)

@[simp] theorem isOpen_iff : v.isOpen x = true ↔ x ∈ v.expandedItems := decide_eq_true_iff

/-- The array of an item that has been loaded holds its children. -/
def DictFits (D : DataSource α) (v : NSOutlineView α) : Prop :=
  ∀ s, v.itemDict s = [] ∨ v.itemDict s = D.children s

omit [DecidableEq α] in
theorem DictFits.mem (h : v.DictFits D) (hx : x ∈ v.itemDict s) : v.itemDict s = D.children s ∧ x ∈ D.children s := by
  rcases h s with he | hk
  · rw [he] at hx
    exact nomatch hx
  · exact ⟨hk, hk ▸ hx⟩

/-- Only expandable items are expanded. -/
def OnlyExpandable (D : DataSource α) (v : NSOutlineView α) : Prop :=
  ∀ x ∈ v.expandedItems, D.isItemExpandable x = true

/-! ## Collecting -/

theorem collectFuel_eq (h : v.DictFits D) (fuel : Nat) (hf : D.size s < fuel) :
    v.collectFuel fuel s = v.collectFuel (D.size s + 1) s := by
  induction s using D.induction generalizing fuel with
  | h s ih =>
    obtain ⟨fuel, rfl⟩ : ∃ k, fuel = k + 1 := ⟨fuel - 1, by omega⟩
    rw [collectFuel, collectFuel]
    refine List.flatMap_congr fun c hc => ?_
    have hk := (h.mem hc).2
    have hs := Outline.size_lt hk
    rw [ih c hk fuel (by omega), ih c hk (D.size s) hs]

theorem collect_eq (h : v.DictFits D) :
    v.collectItemsStartingWith D s = (v.itemDict s).flatMap fun c =>
      (if v.isItemExpanded s then [c] else []) ++ v.collectItemsStartingWith D (some c) := by
  rw [collectItemsStartingWith, collectFuel]
  refine List.flatMap_congr fun c hc => ?_
  have hs := Outline.size_lt (h.mem hc).2
  have hb := Outline.size_lt_bound (D := D.toOutline) s
  rw [collectItemsStartingWith, collectFuel_eq h D.bound (by omega), collectFuel_eq h (D.bound + 1) (by omega)]

/-- An item that is in the array of another one. -/
def IsLoadedChild (v : NSOutlineView α) (p c : α) : Prop := c ∈ v.itemDict (some p)

theorem mem_collect_step (h : v.DictFits D) : y ∈ v.collectItemsStartingWith D (some x) ↔
      ∃ c ∈ v.itemDict (some x), (x ∈ v.expandedItems ∧ y = c) ∨ y ∈ v.collectItemsStartingWith D (some c) := by
  rw [collect_eq h, List.mem_flatMap]
  refine exists_congr fun c => and_congr_right fun _ => ?_
  rw [List.mem_append]
  refine or_congr_left ?_
  by_cases hx : x ∈ v.expandedItems <;> simp [isItemExpanded, hx]

theorem mem_collect (h : v.DictFits D) : y ∈ v.collectItemsStartingWith D (some x) ↔
      ∃ e, Relation.ReflTransGen v.IsLoadedChild x e ∧ e ∈ v.expandedItems ∧ y ∈ v.itemDict (some e) := by
  constructor
  · intro hy
    generalize hs : some x = s
    induction s using D.induction generalizing x with
    | h s ih =>
      subst hs
      obtain ⟨c, hc, ⟨hx, rfl⟩ | hcol⟩ := (mem_collect_step h).1 hy
      · exact ⟨x, .refl, hx, hc⟩
      · obtain ⟨e, hp, he, hye⟩ := ih c (h.mem hc).2 hcol rfl
        exact ⟨e, .head hc hp, he, hye⟩
  · rintro ⟨e, hp, he, hye⟩
    induction hp using Relation.ReflTransGen.head_induction_on with
    | refl => exact (mem_collect_step h).2 ⟨y, hye, .inl ⟨he, rfl⟩⟩
    | head hc _ ih => exact (mem_collect_step h).2 ⟨_, hc, .inr ih⟩

omit [DecidableEq α] in
/-- What has been loaded below an item is below it. -/
theorem below_of_loaded (h : v.DictFits D) (hp : Relation.TransGen v.IsLoadedChild x y) : D.Below (some x) y := by
  induction hp with
  | single hc => exact .child (h.mem hc).2
  | tail _ hc ih => exact .deeper ih rfl (h.mem hc).2

theorem below_of_mem_collect (h : v.DictFits D) (hy : y ∈ v.collectItemsStartingWith D (some x)) :
    D.Below (some x) y := by
  obtain ⟨e, hp, -, hye⟩ := (mem_collect h).1 hy
  exact below_of_loaded h (.tail' hp hye)

/-- An expanded item, with children, is loaded somewhere below. -/
def Remembers (v : NSOutlineView α) (d : α) : Prop :=
  ∃ e, Relation.TransGen v.IsLoadedChild d e ∧ e ∈ v.expandedItems ∧ v.itemDict (some e) ≠ []

theorem collect_eq_nil (h : v.DictFits D) (hc : v.isOpen x = false) (hcln : ¬ v.Remembers x) :
    v.collectItemsStartingWith D (some x) = [] := by
  refine List.eq_nil_iff_forall_not_mem.2 fun y hy => ?_
  obtain ⟨e, hp, he, hye⟩ := (mem_collect h).1 hy
  rcases Relation.reflTransGen_iff_eq_or_transGen.1 hp with rfl | hp
  · rw [← isOpen_iff, hc] at he
    exact nomatch he
  · exact hcln ⟨e, hp, he, List.ne_nil_of_mem hye⟩

/-- Each expanded child of a loaded item is loaded itself. -/
def OpenLoaded (D : DataSource α) (v : NSOutlineView α) : Prop :=
  ∀ s, ∀ c ∈ v.itemDict s, c ∈ v.expandedItems → v.itemDict (some c) = D.children (some c)

theorem loaded_of_seen (ho : v.OpenLoaded D) (hs : v.itemDict s = D.children s) (hx : D.Seen v.isOpen s x) :
    (∃ p, x ∈ v.itemDict p) ∧ (x ∈ v.expandedItems → v.itemDict (some x) = D.children (some x)) := by
  induction hx with
  | child hx =>
    have hm := hs.symm ▸ hx
    exact ⟨⟨s, hm⟩, ho s _ hm⟩
  | deeper _ hp hx ih =>
    have hm := (ih.2 (isOpen_iff.1 hp)).symm ▸ hx
    exact ⟨⟨_, hm⟩, ho _ _ hm⟩

theorem mem_collect_of_seen (h : v.DictFits D) (ho : v.OpenLoaded D)
    (hl : v.itemDict (some x) = D.children (some x)) (hx : x ∈ v.expandedItems)
    (hy : D.Seen v.isOpen (some x) y) : y ∈ v.collectItemsStartingWith D (some x) := by
  have hpt : ∃ e, Relation.ReflTransGen v.IsLoadedChild x e ∧ e ∈ v.expandedItems ∧ y ∈ v.itemDict (some e) := by
    induction hy with
    | child hy => exact ⟨x, .refl, hx, hl.symm ▸ hy⟩
    | deeper hp hpo hy ih =>
      obtain ⟨e, hpt, he, hpe⟩ := ih
      have hp' := isOpen_iff.1 hpo
      exact ⟨_, .tail hpt hpe, hp', (ho _ _ hpe hp').symm ▸ hy⟩
  exact (mem_collect h).2 hpt

/-- Where no collapsed item that is seen has anything to collect, the items that are seen are
collected in preorder. -/
theorem collect_eq_listing (h : v.DictFits D) (ho : v.OpenLoaded D) (hs : v.isItemExpanded s = true)
    (hl : v.itemDict s = D.children s)
    (hcln : ∀ y, D.Seen v.isOpen s y → v.isOpen y = false → v.collectItemsStartingWith D (some y) = []) :
    v.collectItemsStartingWith D s = D.listing v.isOpen s := by
  induction s using D.induction with
  | h s ih =>
    rw [collect_eq h, Outline.listing_eq, hl, hs]
    refine List.flatMap_congr fun c hc => ?_
    cases hc' : v.isOpen c with
    | false => rw [hcln c (.child hc) hc']; rfl
    | true =>
      have hk := ho s c (hl.symm ▸ hc) (isOpen_iff.1 hc')
      rw [ih c hc hc' hk fun y hy => hcln y ((Outline.Seen.child hc).trans hc' hy)]
      rfl

/-! ## Loading -/

theorem insertArray_same (children : List α) :
    v.insertArray s children = { v with itemDict := (v.insertArray s children).itemDict } := by
  rw [insertArray]
  split <;> rfl

theorem loadFuel_same (fuel : Nat) (level : Int) :
    loadFuel D fuel v s level = { v with
      itemDict := (loadFuel D fuel v s level).itemDict
      levelOfItems := (loadFuel D fuel v s level).levelOfItems } := by
  induction fuel generalizing v s level with
  | zero => rfl
  | succ fuel ih =>
    have hf (children : List α) (v : NSOutlineView α) :
        children.foldl (fun v c => loadFuel D fuel v (some c) (level + 1)) v = { v with
          itemDict := (children.foldl (fun v c => loadFuel D fuel v (some c) (level + 1)) v).itemDict
          levelOfItems := (children.foldl (fun v c => loadFuel D fuel v (some c) (level + 1)) v).levelOfItems } := by
      induction children generalizing v with
      | nil => rfl
      | cons c children ihc =>
        rw [List.foldl_cons]
        refine (ihc _).trans ?_
        rw [ih (level + 1)]
    rw [loadFuel]
    refine (hf _ _).trans ?_
    rw [setLevel, insertArray_same]

theorem insertArray_fits (hf : v.DictFits D) {children : List α}
    (hk : children = D.children s ∨ children = []) : (v.insertArray s children).DictFits D := by
  rw [insertArray]
  split
  · rename_i hl
    intro t
    by_cases ht : t = s
    · subst ht
      refine .inr ((Function.update_self ..).trans (hk.resolve_right ?_))
      rintro rfl
      exact Nat.lt_irrefl 0 hl
    · have hs : Function.update v.itemDict s children t = v.itemDict t := Function.update_of_ne ht ..
      exact (hf t).imp hs.trans hs.trans
  · exact hf

theorem loadFuel_fits (hf : v.DictFits D) (fuel : Nat) (level : Int) : (loadFuel D fuel v s level).DictFits D := by
  induction fuel generalizing v s level with
  | zero => exact hf
  | succ fuel ih =>
    have hfl (children : List α) (v : NSOutlineView α) (hf : v.DictFits D) :
        DictFits D (children.foldl (fun v c => loadFuel D fuel v (some c) (level + 1)) v) := by
      induction children generalizing v with
      | nil => exact hf
      | cons c children ihc => exact ihc _ (ih hf (level + 1))
    rw [loadFuel]
    refine hfl _ _ (insertArray_fits (v := v) hf ?_)
    split
    · exact .inl rfl
    · exact .inr rfl

/-- The level of an item is its depth. -/
def HasLevel (D : DataSource α) (v : NSOutlineView α) (x : α) : Prop :=
  ∃ n, D.Depth x n ∧ v.levelForItem (some x) = n

/-- The children of an item have the level that follows its own. -/
def LevelFits (D : DataSource α) (s : Option α) (level : Int) : Prop :=
  ∀ c ∈ D.children s, ∃ n : Nat, D.Depth c n ∧ level + 1 = n

/-- Loading `s` fills its array and those of the expanded items that are seen below it, and sets the
levels of all items that are seen. -/
structure Loads (D : DataSource α) (v v' : NSOutlineView α) (s : Option α) (level : Int) : Prop where
  same : v' = { v with itemDict := v'.itemDict, levelOfItems := v'.levelOfItems }
  dict : ∀ t, v'.itemDict t = v.itemDict t ∨
    (v'.itemDict t = D.children t ∧ v.isItemExpanded s = true ∧
      (t = s ∨ ∃ c, t = some c ∧ D.Seen v.isOpen s c ∧ v.isOpen c = true))
  loaded : v.isItemExpanded s = true → v'.itemDict s = D.children s
  seen_loaded : v.isItemExpanded s = true → ∀ c, D.Seen v.isOpen s c → v.isOpen c = true →
    v'.itemDict (some c) = D.children (some c)
  level_self : v'.levelOfItems s = some level
  level_other : ∀ t, v'.levelOfItems t = v.levelOfItems t ∨ t = s ∨
    ∃ x, t = some x ∧ D.Below s x ∧ v'.HasLevel D x
  levels : v.isItemExpanded s = true → ∀ x, D.Seen v.isOpen s x → v'.HasLevel D x

/-- The same for a run of children of `s`. -/
structure LoadsAll (D : DataSource α) (v v' : NSOutlineView α) (s : Option α) (children : List α) : Prop where
  same : v' = { v with itemDict := v'.itemDict, levelOfItems := v'.levelOfItems }
  dict : ∀ t, v'.itemDict t = v.itemDict t ∨
    (v'.itemDict t = D.children t ∧ ∃ c, t = some c ∧ D.Seen v.isOpen s c ∧ v.isOpen c = true)
  seen_loaded : ∀ d ∈ children, ∀ c, c = d ∨ (v.isOpen d = true ∧ D.Seen v.isOpen (some d) c) →
    v.isOpen c = true → v'.itemDict (some c) = D.children (some c)
  level_other : ∀ t, v'.levelOfItems t = v.levelOfItems t ∨
    ∃ x, t = some x ∧ D.Below s x ∧ v'.HasLevel D x
  levels : ∀ d ∈ children, ∀ x, x = d ∨ (v.isOpen d = true ∧ D.Seen v.isOpen (some d) x) →
    v'.HasLevel D x

omit [DecidableEq α] in
theorem HasLevel.congr (h : v.HasLevel D x) (hs : v'.levelOfItems (some x) = v.levelOfItems (some x)) :
    v'.HasLevel D x := by
  obtain ⟨n, hd, hl⟩ := h
  refine ⟨n, hd, ?_⟩
  rw [levelForItem, hs]
  exact hl

theorem isOpen_congr (h : v'.expandedItems = v.expandedItems) : v'.isOpen = v.isOpen := by
  funext x
  rw [Bool.eq_iff_iff, isOpen_iff, isOpen_iff, h]

omit [DecidableEq α] in
theorem DictFits.of_fill (h : v.DictFits D)
    (hd : ∀ t, v'.itemDict t = v.itemDict t ∨ v'.itemDict t = D.children t) : v'.DictFits D := by
  intro t
  rcases hd t with heq | heq
  · rw [heq]
    exact h t
  · exact .inr heq

theorem foldl_loads {fuel : Nat} (hfit : v.DictFits D) (hon : v.OnlyExpandable D)
    (hl : LevelFits D s level) (children : List α) (hs : ∀ c ∈ children, c ∈ D.children s)
    (hld : ∀ v : NSOutlineView α, v.DictFits D → v.OnlyExpandable D → ∀ c ∈ D.children s,
      Loads D v (loadFuel D fuel v (some c) (level + 1)) (some c) (level + 1)) :
    LoadsAll D v (children.foldl (fun v c => loadFuel D fuel v (some c) (level + 1)) v) s children := by
  induction children generalizing v with
  | nil =>
    exact ⟨rfl, fun t => .inl rfl, fun _ h => (nomatch h), fun t => .inl rfl, fun _ h => nomatch h⟩
  | cons c children ih =>
    rw [List.foldl_cons]
    have hc : c ∈ D.children s := hs c List.mem_cons_self
    have hf := hld v hfit hon c hc
    generalize loadFuel D fuel v (some c) (level + 1) = v₁ at hf ⊢
    have hexpanded : v₁.expandedItems = v.expandedItems := by rw [hf.same]
    have ho : v₁.isOpen = v.isOpen := isOpen_congr hexpanded
    have hfit₁ : v₁.DictFits D := hfit.of_fill fun t => (hf.dict t).imp_right And.left
    have hon₁ : v₁.OnlyExpandable D := fun x hx => hon x (hexpanded ▸ hx)
    have hr := ih hfit₁ hon₁ fun d hd => hs d (List.mem_cons_of_mem c hd)
    generalize children.foldl (fun v c => loadFuel D fuel v (some c) (level + 1)) v₁ = v₂ at hr ⊢
    have hfld (t : Option α) (h : v₁.itemDict t = D.children t) : v₂.itemDict t = D.children t := by
      rcases hr.dict t with heq | heq
      · exact heq.trans h
      · exact heq.1
    have hk (x : α) (hx : v₁.HasLevel D x) : v₂.HasLevel D x := by
      rcases hr.level_other (some x) with heq | ⟨y, hy, -, hl⟩
      · exact hx.congr heq
      · exact Option.some.inj hy ▸ hl
    have hsl : v₁.HasLevel D c := by
      obtain ⟨n, hdep, hn⟩ := hl c hc
      refine ⟨n, hdep, ?_⟩
      rw [levelForItem, hf.level_self]
      exact hn
    refine ⟨hr.same.trans (by rw [hf.same]), fun t => ?_, fun d hd x hx hxo => ?_, fun t => ?_,
      fun d hd x hx => ?_⟩
    · rcases hr.dict t with heq | ⟨hkd, x, rfl, hx, hxo⟩
      · rcases hf.dict t with hsm | ⟨hkd, hco, rfl | ⟨x, rfl, hx, hxo⟩⟩
        · exact .inl (heq.trans hsm)
        · exact .inr ⟨heq.trans hkd, c, rfl, .child hc, hco⟩
        · exact .inr ⟨heq.trans hkd, x, rfl, (Outline.Seen.child hc).trans hco hx, hxo⟩
      · exact .inr ⟨hkd, x, rfl, ho ▸ hx, ho ▸ hxo⟩
    · rcases List.mem_cons.1 hd with rfl | hd
      · refine hfld _ ?_
        rcases hx with rfl | ⟨hdo, hx⟩
        · exact hf.loaded hxo
        · exact hf.seen_loaded hdo x hx hxo
      · exact hr.seen_loaded d hd x (ho ▸ hx) (ho ▸ hxo)
    · rcases hr.level_other t with heq | hset
      · rcases hf.level_other t with hsm | rfl | ⟨x, rfl, hx, hl⟩
        · exact .inl (heq.trans hsm)
        · exact .inr ⟨c, rfl, .child hc, hk c hsl⟩
        · exact .inr ⟨x, rfl, (Outline.Seen.child hc).trans rfl hx, hk x hl⟩
      · exact .inr hset
    · rcases List.mem_cons.1 hd with rfl | hd
      · rcases hx with rfl | ⟨hdo, hx⟩
        · exact hk x hsl
        · exact hk x (hf.levels hdo x hx)
      · exact hr.levels d hd x (ho ▸ hx)

theorem insertArray_spec (hf : v.DictFits D) (s : Option α) :
    v.insertArray s (D.children s) = { v with itemDict := (v.insertArray s (D.children s)).itemDict } ∧
      (v.insertArray s (D.children s)).itemDict s = D.children s ∧
      ∀ t, t ≠ s → (v.insertArray s (D.children s)).itemDict t = v.itemDict t := by
  rw [insertArray]
  split
  · exact ⟨rfl, Function.update_self .., fun t ht => Function.update_of_ne ht ..⟩
  · rename_i he
    have hk : D.children s = [] := List.length_eq_zero_iff.1 (by omega)
    refine ⟨rfl, ?_, fun t ht => rfl⟩
    rcases hf s with heq | heq
    · rw [heq, hk]
    · exact heq

theorem loadFuel_spec (fuel : Nat) (hfl : D.size s < fuel) (hf : v.DictFits D)
    (hon : v.OnlyExpandable D) (hl : LevelFits D s level) : Loads D v (loadFuel D fuel v s level) s level := by
  induction fuel generalizing v s level with
  | zero => omega
  | succ fuel ih =>
    have hld (v : NSOutlineView α) (hf : v.DictFits D) (hon : v.OnlyExpandable D) (c : α) (hc : c ∈ D.children s) :
        Loads D v (loadFuel D fuel v (some c) (level + 1)) (some c) (level + 1) := by
      have hsz := Outline.size_lt hc
      refine ih (by omega) hf hon fun d hd => ?_
      obtain ⟨n, hdep, hn⟩ := hl c hc
      exact ⟨n + 1, .child hdep hd, by omega⟩
    have hcn : (s.isNone || (isExpandable D s && v.isItemExpanded s)) = v.isItemExpanded s := by
      cases s with
      | none => rfl
      | some x =>
        by_cases hx : x ∈ v.expandedItems
        · simp [isExpandable, hon x hx]
        · simp [isItemExpanded, hx]
    rw [loadFuel, hcn]
    cases hexpanded : v.isItemExpanded s with
    | false =>
      simp only [Bool.false_eq_true, if_false, List.foldl_nil]
      refine ⟨rfl, fun t => .inl rfl, fun h => ?_, fun h => ?_, Function.update_self .., fun t => ?_, fun h => ?_⟩
      · exact nomatch hexpanded.symm.trans h
      · exact nomatch hexpanded.symm.trans h
      · by_cases ht : t = s
        · exact .inr (.inl ht)
        · exact .inl (Function.update_of_ne ht ..)
      · exact nomatch hexpanded.symm.trans h
    | true =>
      simp only [if_true]
      have hst := insertArray_spec hf s
      generalize v.insertArray s (D.children s) = v₀ at hst ⊢
      obtain ⟨hsm₀, hsl₀, hother₀⟩ := hst
      have ho : (v₀.setLevel s level).isOpen = v.isOpen := isOpen_congr (by rw [hsm₀]; rfl)
      have hf₀ : (v₀.setLevel s level).DictFits D := by
        refine hf.of_fill fun t => ?_
        by_cases ht : t = s
        · exact .inr (ht ▸ hsl₀)
        · exact .inl (hother₀ t ht)
      have hon₀ : (v₀.setLevel s level).OnlyExpandable D := by
        intro x hx
        refine hon x ?_
        rw [hsm₀] at hx
        exact hx
      have ha := foldl_loads hf₀ hon₀ hl (D.children s) (fun c hc => hc) hld
      have hl₀ : (v₀.setLevel s level).levelOfItems s = some level := Function.update_self ..
      have hlv₀ (t : Option α) (ht : t ≠ s) : (v₀.setLevel s level).levelOfItems t = v.levelOfItems t := by
        rw [hsm₀]
        exact Function.update_of_ne ht ..
      generalize List.foldl _ _ _ = v₁ at ha ⊢
      have hh (x : α) (hx : D.Seen v.isOpen s x) : ∃ d ∈ D.children s, x = d ∨
            ((v₀.setLevel s level).isOpen d = true ∧ D.Seen (v₀.setLevel s level).isOpen (some d) x) := by
        rw [ho]
        exact hx.head
      have hdc (t : Option α) : v₁.itemDict t = v.itemDict t ∨ v₁.itemDict t = D.children t ∧
          (t = s ∨ ∃ c, t = some c ∧ D.Seen v.isOpen s c ∧ v.isOpen c = true) := by
        rcases ha.dict t with heq | ⟨hk, hfld⟩
        · by_cases ht : t = s
          · exact .inr ⟨ht ▸ (ht ▸ heq).trans hsl₀, .inl ht⟩
          · exact .inl (heq.trans (hother₀ t ht))
        · exact .inr ⟨hk, .inr (ho ▸ hfld)⟩
      refine ⟨ha.same.trans (by rw [hsm₀]; rfl), fun t => ?_, fun _ => ?_, fun _ c hc hco => ?_, ?_,
        fun t => ?_, fun _ x hx => ?_⟩
      · exact (hdc t).imp_right fun h => ⟨h.1, hexpanded, h.2⟩
      · rcases ha.dict s with heq | heq
        · exact heq.trans hsl₀
        · exact heq.1
      · obtain ⟨d, hd, hcd⟩ := hh c hc
        exact ha.seen_loaded d hd c hcd (ho ▸ hco)
      · rcases ha.level_other s with heq | ⟨x, rfl, hx, -⟩
        · exact heq.trans hl₀
        · exact absurd hx.size_lt (Nat.lt_irrefl _)
      · rcases ha.level_other t with heq | hs
        · by_cases ht : t = s
          · exact .inr (.inl ht)
          · exact .inl (heq.trans (hlv₀ t ht))
        · exact .inr (.inr hs)
      · obtain ⟨d, hd, hxd⟩ := hh x hx
        exact ha.levels d hd x hxd

end NSOutlineView

end GnustepGui.OutlineView
