import GnustepGui.OutlineView.Collapsing

/-!
# Removing the children of an item

`_removeChildren:` goes through what has been loaded below an item. It takes each child out of the rows
at once, and notes all children of the item when the last one is out; meanwhile the rows and the
selection are out of step by the children that are pending (`InStep`).
-/

namespace GnustepGui.OutlineView

open IndexSets

namespace NSOutlineView

variable {α : Type*} [DecidableEq α] {D : DataSource α} {v v' v'' w : NSOutlineView α} {s t : Option α}
  {x y z c d : α} {n m i j : Nat}

/-! ## What is left alone -/

def AtOrBelow (D : DataSource α) (s : Option α) (z : α) : Prop := some z = s ∨ D.Below s z

omit [DecidableEq α] in
theorem AtOrBelow.child (h : AtOrBelow D s z) (hc : c ∈ D.children (some z)) : D.Below s c := by
  rcases h with rfl | h
  · exact .child hc
  · exact .deeper h rfl hc

omit [DecidableEq α] in
theorem AtOrBelow.apart (hc : c ∈ D.children s) (hd : d ∈ D.children s) (hne : c ≠ d)
    (h : AtOrBelow D (some d) z) : ¬ AtOrBelow D (some c) z := by
  obtain ⟨hz, hb⟩ := Outline.Seen.apart hc hd hne (h.imp_left Option.some.inj)
  exact fun h => h.elim (fun heq => hz (Option.some.inj heq)) hb

theorem removeChild_fits (h : v.DictFits D) (c : α) : (v.removeChild c).DictFits D := by
  intro t
  rw [removeChild]
  dsimp only
  by_cases ht : t = some c
  · rw [ht, Function.update_self]
    exact .inl rfl
  · rw [Function.update_of_ne ht]
    exact h t

theorem emptyArray_fits (h : v.DictFits D) (s : Option α) : (v.emptyArray s).DictFits D := by
  intro t
  rw [emptyArray]
  dsimp only
  by_cases ht : t = s
  · rw [ht, Function.update_self]
    exact .inl rfl
  · rw [Function.update_of_ne ht]
    exact h t

theorem removeChildrenFuel_keeps {P : NSOutlineView α → Prop} (hk : ∀ w c, D.Below s c → P w → P (w.removeChild c))
    (he : ∀ w t, (t = s ∨ ∃ z, t = some z ∧ D.Below s z) → P w → P (w.emptyArray t))
    (hn : ∀ w t n, P w → P (w.noteNumberOfRowsChangedBelowItem t n)) (fuel : Nat)
    (ht : t = s ∨ ∃ z, t = some z ∧ D.Below s z) (hf : v.DictFits D) (h : P v) :
    (removeChildrenFuel fuel v t).DictFits D ∧ P (removeChildrenFuel fuel v t) := by
  induction fuel generalizing v t with
  | zero => exact ⟨hf, h⟩
  | succ fuel ih =>
    have hb (c : α) (hc : c ∈ D.children t) : D.Below s c := by
      rcases ht with rfl | ⟨z, rfl, hz⟩
      · exact .child hc
      · exact .deeper hz rfl hc
    have hfl (children : List α) (hs : ∀ c ∈ children, c ∈ D.children t) (v : NSOutlineView α)
        (hf : v.DictFits D) (h : P v) :
        (children.foldl (fun v child => (removeChildrenFuel fuel v (some child)).removeChild child) v).DictFits
          D ∧ P (children.foldl (fun v child =>
            (removeChildrenFuel fuel v (some child)).removeChild child) v) := by
      induction children generalizing v with
      | nil => exact ⟨hf, h⟩
      | cons c children ihc =>
        have hc := hb c (hs c List.mem_cons_self)
        obtain ⟨hf', h'⟩ := ih (t := some c) (.inr ⟨c, rfl, hc⟩) hf h
        exact ihc (fun d hd => hs d (List.mem_cons_of_mem c hd)) _ (removeChild_fits hf' c) (hk _ c hc h')
    obtain ⟨hf', h'⟩ := hfl (v.itemDict t) (fun c hc => (hf.mem hc).2) v hf h
    rw [removeChildrenFuel, DictFits, note_itemDict]
    exact ⟨emptyArray_fits hf' t, hn _ t _ (he _ t ht h')⟩

/-- Rows and expanded items become fewer, and nothing outside of `R` is touched. -/
structure Untouched (v v' : NSOutlineView α) (R : α → Prop) : Prop where
  row : ∀ z, ¬ R z → (z ∈ v'.items ↔ z ∈ v.items)
  dict : ∀ z, ¬ R z → v'.itemDict (some z) = v.itemDict (some z)
  rows : ∀ z, z ∈ v'.items → z ∈ v.items
  expanded : ∀ z, z ∈ v'.expandedItems → z ∈ v.expandedItems
  valid : v.Valid → v'.Valid

omit [DecidableEq α] in
theorem Untouched.refl (v : NSOutlineView α) (R : α → Prop) : Untouched v v R :=
  ⟨fun _ _ => .rfl, fun _ _ => rfl, fun _ => id, fun _ => id, id⟩

variable {R : α → Prop}

omit [DecidableEq α] in
theorem Untouched.trans (h : Untouched v v' R) (h' : Untouched v' v'' R) : Untouched v v'' R :=
  ⟨fun z hz => (h'.row z hz).trans (h.row z hz), fun z hz => (h'.dict z hz).trans (h.dict z hz),
    fun z hz => h.rows z (h'.rows z hz), fun z hz => h.expanded z (h'.expanded z hz),
    fun hv => h'.valid (h.valid hv)⟩

theorem removeChild_untouched (hc : R c) : Untouched v (v.removeChild c) R := by
  refine ⟨fun z hz => ?_, fun z hz => ?_, fun z hz => (List.mem_filter.1 hz).1,
    fun z hz => (List.mem_filter.1 hz).1, id⟩
  · have hne : z ≠ c := by
      rintro rfl
      exact hz hc
    simp [removeChild, hne]
  · rw [removeChild]
    dsimp only
    rw [Function.update_of_ne]
    rintro heq
    exact hz (Option.some.inj heq ▸ hc)

theorem emptyArray_untouched (hs : ∀ z, s = some z → R z) : Untouched v (v.emptyArray s) R := by
  refine ⟨fun _ _ => .rfl, fun z hz => ?_, fun _ => id, fun _ => id, id⟩
  rw [emptyArray]
  dsimp only
  rw [Function.update_of_ne]
  rintro rfl
  exact hz (hs z rfl)

theorem note_untouched (numItems : Int) : Untouched v (v.noteNumberOfRowsChangedBelowItem s numItems) R := by
  refine ⟨fun z _ => by rw [note_items], fun z _ => by rw [note_itemDict], fun z hz => ?_, fun z hz => ?_,
    fun hv => note_valid hv numItems⟩
  · rwa [note_items] at hz
  · rwa [note_expandedItems] at hz

theorem removeChildrenFuel_untouched (fuel : Nat) (hf : v.DictFits D) (s : Option α) :
    (removeChildrenFuel fuel v s).DictFits D ∧ Untouched v (removeChildrenFuel fuel v s) (AtOrBelow D s) := by
  refine removeChildrenFuel_keeps (P := fun w => Untouched v w (AtOrBelow D s)) (s := s)
    (fun w c hc h => h.trans (removeChild_untouched (.inr hc))) (fun w t ht h => h.trans ?_)
    (fun w t n h => h.trans (note_untouched n)) fuel (.inl rfl) hf (.refl v _)
  refine emptyArray_untouched fun z hz => ?_
  rcases ht with rfl | ⟨y, rfl, hy⟩
  · exact .inl hz.symm
  · exact .inr (Option.some.inj hz ▸ hy)

theorem removeChild_step (fuel : Nat) (hf : v.DictFits D) (c : α) :
    ((removeChildrenFuel fuel v (some c)).removeChild c).DictFits D ∧
      Untouched v ((removeChildrenFuel fuel v (some c)).removeChild c) (AtOrBelow D (some c)) := by
  obtain ⟨hf', h⟩ := removeChildrenFuel_untouched fuel hf (some c)
  exact ⟨removeChild_fits hf' c, h.trans (removeChild_untouched (.inl rfl))⟩

/-! ## What is gone -/

/-- What has been loaded below `s`. -/
def LoadedBelow (v : NSOutlineView α) (s : Option α) (z : α) : Prop :=
  ∃ c ∈ v.itemDict s, Relation.ReflTransGen v.IsLoadedChild c z

omit [DecidableEq α] in
theorem atOrBelow_of_path (hf : v.DictFits D) (hp : Relation.ReflTransGen v.IsLoadedChild y z) :
    AtOrBelow D (some y) z := by
  rcases Relation.reflTransGen_iff_eq_or_transGen.1 hp with rfl | hp
  · exact .inl rfl
  · exact .inr (below_of_loaded hf hp)

omit [DecidableEq α] in
/-- Where nothing has been touched the loaded ways down stay. -/
theorem path_congr (hf : v.DictFits D) (hs : ∀ z, AtOrBelow D (some y) z →
    v'.itemDict (some z) = v.itemDict (some z)) (hp : Relation.ReflTransGen v.IsLoadedChild y z) :
    Relation.ReflTransGen v'.IsLoadedChild y z := by
  induction hp with
  | refl => exact .refl
  | tail hp hc ih =>
    refine ih.tail ?_
    rw [IsLoadedChild, hs _ (atOrBelow_of_path hf hp)]
    exact hc

theorem removeChildrenFuel_gone (fuel : Nat) (hfu : D.size s < fuel) (hf : v.DictFits D) (hz : v.LoadedBelow s z) :
    z ∉ (removeChildrenFuel fuel v s).items ∧ z ∉ (removeChildrenFuel fuel v s).expandedItems := by
  induction fuel generalizing v s with
  | zero => omega
  | succ fuel ih =>
    have hfl (children : List α) (hs : ∀ c ∈ children, c ∈ D.children s) (hnd : children.Nodup)
        (v : NSOutlineView α) (hf : v.DictFits D) :
        (∀ z, z ∉ v.items ∧ z ∉ v.expandedItems → z ∉ (children.foldl (fun v child =>
          (removeChildrenFuel fuel v (some child)).removeChild child) v).items ∧
          z ∉ (children.foldl (fun v child =>
            (removeChildrenFuel fuel v (some child)).removeChild child) v).expandedItems) ∧
        ((∃ c ∈ children, Relation.ReflTransGen v.IsLoadedChild c z) →
          z ∉ (children.foldl (fun v child =>
            (removeChildrenFuel fuel v (some child)).removeChild child) v).items ∧
          z ∉ (children.foldl (fun v child =>
            (removeChildrenFuel fuel v (some child)).removeChild child) v).expandedItems) := by
      induction children generalizing v with
      | nil => exact ⟨fun _ h => h, fun ⟨_, hc, _⟩ => nomatch hc⟩
      | cons c children ihc =>
        obtain ⟨hf', hst⟩ := removeChild_step fuel hf c
        obtain ⟨hrs, hg⟩ := ihc (fun d hd => hs d (List.mem_cons_of_mem c hd))
          (List.nodup_cons.1 hnd).2 _ hf'
        rw [List.foldl_cons]
        refine ⟨fun z hz => hrs z ⟨fun h => hz.1 (hst.rows z h), fun h => hz.2 (hst.expanded z h)⟩, ?_⟩
        rintro ⟨d, hd, hp⟩
        have hc := hs c List.mem_cons_self
        rcases List.mem_cons.1 hd with rfl | hdin
        · refine hrs z ?_
          rcases Relation.ReflTransGen.cases_head hp with rfl | ⟨e, he, hp⟩
          · simp [removeChild]
          · obtain ⟨hr, hexpanded⟩ := ih (s := some d) (by
              have := Outline.size_lt hc
              omega) hf ⟨e, he, hp⟩
            exact ⟨fun h => hr (List.mem_filter.1 h).1, fun h => hexpanded (List.mem_filter.1 h).1⟩
        · refine hg ⟨d, hdin, path_congr hf (fun z hz => hst.dict z ?_) hp⟩
          refine hz.apart hc (hs d hd) ?_
          rintro rfl
          exact (List.nodup_cons.1 hnd).1 hdin
    have hnd : (v.itemDict s).Nodup := by
      rcases hf s with heq | heq
      · rw [heq]
        exact List.nodup_nil
      · exact heq ▸ D.nodup s
    obtain ⟨-, hg⟩ := hfl (v.itemDict s) (fun c hc => (hf.mem hc).2) hnd v hf
    rw [removeChildrenFuel, note_items, note_expandedItems]
    exact hg hz

/-! ## Rows and selection out of step -/

/-- The rows between those in front and those behind are being removed, and `n` of the removed ones have
not been noted: the selected rows in front stay, and those behind stand `n` rows too low. -/
structure OutOfStep (D : DataSource α) (x : α) (front back : List α) (kept moved : Nat → Prop)
    (v : NSOutlineView α) (between : List α) (n : Nat) : Prop where
  items : v.items = front ++ x :: (between ++ back)
  nodup : v.items.Nodup
  below : ∀ z ∈ between, D.Below (some x) z
  apart : ∀ z, D.Below (some x) z → z ∉ front ∧ z ∉ back
  valid : v.Valid
  kept : ∀ i ≤ front.length, (i ∈ v.selectedRows ↔ kept i)
  moved : ∀ j, (front.length + 1 + (between.length + n) + j ∈ v.selectedRows ↔ moved j)

section OutOfStep

variable {front back between : List α} {kept moved : Nat → Prop}

/-- A child with a row is taken out. -/
theorem OutOfStep.removeChild (h : OutOfStep D x front back kept moved v between n)
    (hc : D.Below (some x) c) :
    ∃ between', OutOfStep D x front back kept moved (v.removeChild c) between'
      (if c ∈ v.items then n + 1 else n) := by
  obtain ⟨hf, hb⟩ := h.apart c hc
  have hs : c ≠ x := by
    rintro rfl
    exact Nat.lt_irrefl _ hc.size_lt
  have hits : (v.removeChild c).items = front ++ x :: (between.filter (· ≠ c) ++ back) := by
    have hk (l : List α) (hl : c ∉ l) : l.filter (· ≠ c) = l := by
      refine List.filter_eq_self.2 fun z hz => decide_eq_true ?_
      rintro rfl
      exact hl hz
    rw [NSOutlineView.removeChild]
    dsimp only
    rw [h.items, List.filter_append, List.filter_cons, List.filter_append, hk front hf,
      hk back hb, if_pos (decide_eq_true hs.symm)]
  have hlen : (between.filter (· ≠ c)).length + (if c ∈ v.items then n + 1 else n) = between.length + n := by
    have hm : c ∈ v.items ↔ c ∈ between := by
      rw [h.items]
      simp [hf, hb, hs]
    have hnd : between.Nodup := by
      have := h.nodup
      rw [h.items, List.nodup_append, List.nodup_cons, List.nodup_append] at this
      exact this.2.1.2.1
    by_cases hin : c ∈ between
    · have hp := List.length_pos_of_mem hin
      have he : between.filter (· ≠ c) = between.erase c := by
        rw [hnd.erase_eq_filter]
        exact List.filter_congr fun z _ => by by_cases hz : z = c <;> simp [hz]
      rw [if_pos (hm.2 hin), he, List.length_erase_of_mem hin]
      omega
    · rw [if_neg fun hc => hin (hm.1 hc), List.filter_eq_self.2]
      rintro z hz
      refine decide_eq_true ?_
      rintro rfl
      exact hin hz
  refine ⟨between.filter (· ≠ c), hits, h.nodup.filter _, fun z hz => h.below z (List.mem_filter.1 hz).1,
    h.apart, h.valid, h.kept, fun j => ?_⟩
  rw [hlen]
  exact h.moved j

theorem OutOfStep.emptyArray (h : OutOfStep D x front back kept moved v between n) (s : Option α) :
    OutOfStep D x front back kept moved (v.emptyArray s) between n :=
  ⟨h.items, h.nodup, h.below, h.apart, h.valid, h.kept, h.moved⟩

theorem OutOfStep.rowIndexBelow (h : OutOfStep D x front back kept moved v between n)
    (hy : AtOrBelow D (some x) y) (hr : y ∈ v.items) : front.length + 1 ≤ v.rowIndexBelow (some y) ∧
      v.rowIndexBelow (some y) ≤ front.length + 1 + between.length := by
  rw [NSOutlineView.rowIndexBelow, if_pos hr]
  have hnd := h.nodup
  rw [h.items, List.nodup_append] at hnd
  rcases hy with heq | hy
  · obtain rfl := Option.some.inj heq
    have hf : y ∉ front := fun hin => hnd.2.2 y hin y List.mem_cons_self rfl
    rw [h.items, List.idxOf_append_of_notMem hf, List.idxOf_cons_self]
    omega
  · obtain ⟨hf, hb⟩ := h.apart y hy
    have hs : x ≠ y := by
      rintro rfl
      exact Nat.lt_irrefl _ hy.size_lt
    have hin : y ∈ between := by
      rw [h.items] at hr
      simpa [hf, hb, hs.symm] using hr
    rw [h.items, List.idxOf_append_of_notMem hf, List.idxOf_cons_ne _ hs, List.idxOf_append_of_mem hin]
    have := List.idxOf_lt_length_of_mem hin
    omega

omit [DecidableEq α] in
theorem OutOfStep.length_items (h : OutOfStep D x front back kept moved v between n) :
    v.items.length = front.length + 1 + between.length + back.length := by
  rw [h.items, List.length_append, List.length_cons, List.length_append]
  omega

theorem OutOfStep.note_kept (h : OutOfStep D x front back kept moved v between n) (hm : 0 < m)
    (hy : AtOrBelow D (some x) y) (hr : y ∈ v.items) (hi : i ≤ front.length) :
    i ∈ (v.noteNumberOfRowsChangedBelowItem (some y) (-m)).selectedRows ↔ kept i := by
  obtain ⟨hl, hh⟩ := h.rowIndexBelow hy hr
  have hlen := h.length_items
  rw [note_removed h.valid hm, Finset.mem_filter, mem_shiftLeft (by omega), ← h.kept i hi]
  constructor
  · rintro ⟨⟨-, hi⟩ | ⟨hge, -⟩, -⟩
    · exact hi
    · omega
  · exact fun hi => ⟨.inl ⟨by omega, hi⟩, by omega⟩

theorem OutOfStep.note (h : OutOfStep D x front back kept moved v between (n + m)) (hm : 0 < m)
    (hy : AtOrBelow D (some x) y) (hr : y ∈ v.items) (hmar : ∀ j, moved j → n + j < back.length) :
    OutOfStep D x front back kept moved (v.noteNumberOfRowsChangedBelowItem (some y) (-m)) between n := by
  obtain ⟨hl, hh⟩ := h.rowIndexBelow hy hr
  have hlen := h.length_items
  refine ⟨by rw [note_items, h.items], by rw [note_items]; exact h.nodup, h.below, h.apart,
    note_valid h.valid _, fun i hi => h.note_kept hm hy hr hi, fun j => ?_⟩
  rw [note_removed h.valid hm, Finset.mem_filter, mem_shiftLeft (by omega), ← h.moved j,
    show front.length + 1 + (between.length + n) + j + m = front.length + 1 + (between.length + (n + m)) + j by
      omega]
  constructor
  · rintro ⟨⟨hlt, -⟩ | ⟨-, hj⟩, -⟩
    · omega
    · exact hj
  · intro hj
    have := hmar j ((h.moved j).1 hj)
    exact ⟨.inr ⟨by omega, hj⟩, by omega⟩

theorem OutOfStep.note_any (h : OutOfStep D x front back kept moved v between n) (hm : 0 < m)
    (hy : AtOrBelow D (some x) y) (hr : y ∈ v.items) (hn : ∀ j, ¬ moved j) :
    OutOfStep D x front back kept moved (v.noteNumberOfRowsChangedBelowItem (some y) (-m)) between n := by
  obtain ⟨hl, hh⟩ := h.rowIndexBelow hy hr
  refine ⟨by rw [note_items, h.items], by rw [note_items]; exact h.nodup, h.below, h.apart,
    note_valid h.valid _, fun i hi => h.note_kept hm hy hr hi, fun j => iff_of_false (fun hj => ?_) (hn j)⟩
  rw [note_removed h.valid hm, Finset.mem_filter, mem_shiftLeft (by omega)] at hj
  rcases hj with ⟨⟨hlt, -⟩ | ⟨-, hj⟩, -⟩
  · omega
  · refine hn (j + m) ((h.moved (j + m)).1 ?_)
    rwa [show front.length + 1 + (between.length + n) + (j + m) =
      front.length + 1 + (between.length + n) + j + m by omega]

end OutOfStep

/-! ## The whole removal -/

/-- The number of children that come before `z`, or before something above it, below `y`. -/
inductive Earlier (D : DataSource α) (y : α) : α → Nat → Prop
  | self : Earlier D y y 0
  | child {p c n i} : Earlier D y p n → (D.children (some p))[i]? = some c → Earlier D y c (n + i)

omit [DecidableEq α] in
theorem Earlier.head (h : Earlier D c z n) (hc : (D.children (some y))[i]? = some c) : Earlier D y z (i + n) := by
  induction h with
  | self => simpa using Earlier.child .self hc
  | child _ hd ih => exact (Nat.add_assoc i _ _) ▸ Earlier.child ih hd

/-- What is loaded at or below `y` has a row, with its children if anything is selected behind. -/
def InRows (v : NSOutlineView α) (moved : Nat → Prop) (y : α) : Prop :=
  ∀ d, Relation.ReflTransGen v.IsLoadedChild y d → v.itemDict (some d) ≠ [] →
    d ∈ v.items ∧ ((∀ c ∈ v.itemDict (some d), c ∈ v.items) ∨
      ((∀ j, ¬ moved j) ∧ ∀ c ∈ v.itemDict (some d), c ∉ v.items))

/-- The rows selected behind stay in front of the end of the rows. -/
def HasMargin (D : DataSource α) (v : NSOutlineView α) (moved : Nat → Prop) (rows : Nat) (y : α) (n : Nat) :
    Prop :=
  ∀ d k, Relation.ReflTransGen v.IsLoadedChild y d → Earlier D y d k → v.itemDict (some d) ≠ [] →
    ∀ j, moved j → n + k + j < rows

section Removal

variable {moved : Nat → Prop} {rows : Nat}

omit [DecidableEq α] in
theorem InRows.of_same (h : v.InRows moved y) (hf' : v'.DictFits D)
    (hdc : ∀ z, AtOrBelow D (some y) z → v'.itemDict (some z) = v.itemDict (some z))
    (hr : ∀ z, AtOrBelow D (some y) z → (z ∈ v'.items ↔ z ∈ v.items)) : v'.InRows moved y := by
  intro d hp hne
  have hd := atOrBelow_of_path hf' hp
  have hp' := path_congr hf' (fun z hz => (hdc z hz).symm) hp
  have hk (c : α) (hc : c ∈ v.itemDict (some d)) : c ∈ v'.items ↔ c ∈ v.items :=
    hr c (.inr (hd.child (hf'.mem ((hdc d hd).symm ▸ hc)).2))
  rw [hdc d hd] at hne ⊢
  obtain ⟨hin, hkd⟩ := h d hp' hne
  refine ⟨(hr d hd).2 hin, hkd.imp (fun h c hc => (hk c hc).2 (h c hc)) fun h => ?_⟩
  exact ⟨h.1, fun c hc hin => h.2 c hc ((hk c hc).1 hin)⟩

omit [DecidableEq α] in
theorem HasMargin.of_same (h : v.HasMargin D moved rows y n) (hf' : v'.DictFits D)
    (hd : ∀ z, AtOrBelow D (some y) z → v'.itemDict (some z) = v.itemDict (some z)) :
    v'.HasMargin D moved rows y n := by
  intro d k hp he hne
  rw [hd d (atOrBelow_of_path hf' hp)] at hne
  exact h d k (path_congr hf' (fun z hz => (hd z hz).symm) hp) he hne

end Removal

theorem removeChildrenFuel_self (fuel : Nat) (hf : v.DictFits D) (hr : y ∈ v.items) :
    y ∈ (removeChildrenFuel fuel v (some y)).items := by
  refine (removeChildrenFuel_keeps (D := D) (P := fun w => y ∈ w.items) (s := some y) (fun w c hc h => ?_)
    (fun _ _ _ h => h) (fun w t n h => by rwa [note_items]) fuel (.inl rfl) hf hr).2
  refine List.mem_filter.2 ⟨h, decide_eq_true ?_⟩
  rintro rfl
  exact Nat.lt_irrefl _ hc.size_lt

section Whole

variable {front back between : List α} {kept moved : Nat → Prop}

/-- Behind the removal the rows and the selection are as much out of step as before it. -/
theorem removeChildrenFuel_outOfStep (fuel : Nat) (hfu : D.size (some y) < fuel) (hf : v.DictFits D)
    (hy : AtOrBelow D (some x) y) (h : OutOfStep D x front back kept moved v between n)
    (hrw : v.InRows moved y) (hm : v.HasMargin D moved back.length y n) :
    ∃ between', OutOfStep D x front back kept moved (removeChildrenFuel fuel v (some y)) between' n := by
  induction fuel generalizing v y n between with
  | zero => omega
  | succ fuel ih =>
    -- the children either all have rows (`e = 1`) or none of them has (`e = 0`)
    have hfl (e : Nat) (he : e = 0 ∨ e = 1) (children : List α)
        (hs : ∀ c ∈ children, c ∈ D.children (some y)) (hnd : children.Nodup) (n : Nat)
        (v : NSOutlineView α) (hf : v.DictFits D) (between : List α)
        (h : OutOfStep D x front back kept moved v between n) (hr : ∀ c ∈ children, c ∈ v.items ↔ e = 1)
        (hrw : ∀ c ∈ children, v.InRows moved c)
        (hm : ∀ i c, children[i]? = some c → v.HasMargin D moved back.length c (n + e * i)) :
        ∃ between', OutOfStep D x front back kept moved (children.foldl (fun v child =>
          (removeChildrenFuel fuel v (some child)).removeChild child) v) between' (n + e * children.length) := by
      induction children generalizing v n between with
      | nil => exact ⟨between, h⟩
      | cons c children ihc =>
        have hc := hs c List.mem_cons_self
        have hb := hy.child hc
        obtain ⟨hf', hst⟩ := removeChild_step fuel hf c
        obtain ⟨between₁, h₁⟩ := ih (by
          have := Outline.size_lt hc
          omega) hf (.inr hb) h (hrw c List.mem_cons_self) (hm 0 c rfl)
        obtain ⟨between₂, h₂⟩ := h₁.removeChild hb
        have hpn : (if c ∈ (removeChildrenFuel fuel v (some c)).items then n + 1 else n) = n + e := by
          have hcr := hr c List.mem_cons_self
          by_cases hin : c ∈ v.items
          · rw [if_pos (removeChildrenFuel_self fuel hf hin), hcr.1 hin]
          · have ho : c ∉ (removeChildrenFuel fuel v (some c)).items :=
              fun h => hin ((removeChildrenFuel_untouched fuel hf (some c)).2.rows c h)
            rw [if_neg ho]
            have : e ≠ 1 := fun h => hin (hcr.2 h)
            omega
        rw [hpn] at h₂
        have hap (d : α) (hd : d ∈ children) (z : α) (hz : AtOrBelow D (some d) z) : ¬ AtOrBelow D (some c) z := by
          refine hz.apart hc (hs d (List.mem_cons_of_mem c hd)) ?_
          rintro rfl
          exact (List.nodup_cons.1 hnd).1 hd
        have hl : n + e * (c :: children).length = n + e + e * children.length := by
          rw [List.length_cons, Nat.mul_succ]
          omega
        rw [List.foldl_cons, hl]
        refine ihc (fun d hd => hs d (List.mem_cons_of_mem c hd)) (List.nodup_cons.1 hnd).2 _ _ hf'
          between₂ h₂ (fun d hd => ?_) (fun d hd => ?_) fun i d hi => ?_
        · rw [hst.row d (hap d hd d (.inl rfl)), hr d (List.mem_cons_of_mem c hd)]
        · exact (hrw d (List.mem_cons_of_mem c hd)).of_same hf'
            (fun z hz => hst.dict z (hap d hd z hz)) fun z hz => hst.row z (hap d hd z hz)
        · have hd := List.mem_of_getElem? hi
          have hm' := hm (i + 1) d hi
          rw [Nat.mul_succ, show n + (e * i + e) = n + e + e * i by omega] at hm'
          exact hm'.of_same hf' fun z hz => hst.dict z (hap d hd z hz)
    rcases List.eq_nil_or_concat (v.itemDict (some y)) with hn | ⟨_, _, hcon⟩
    · rw [removeChildrenFuel, hn, List.foldl_nil, noteNumberOfRowsChangedBelowItem,
        if_pos (show (-(([] : List α).length : Int)) = 0 from rfl)]
      exact ⟨between, h.emptyArray _⟩
    · have hne : v.itemDict (some y) ≠ [] := by
        rw [hcon]
        simp
      have hp := List.length_pos_of_ne_nil hne
      obtain ⟨hyr, hk⟩ := hrw y .refl hne
      have hld : v.itemDict (some y) = D.children (some y) := (hf (some y)).resolve_left hne
      have hs (c : α) (hc : c ∈ v.itemDict (some y)) : c ∈ D.children (some y) := hld ▸ hc
      have hnd : (v.itemDict (some y)).Nodup := hld ▸ D.nodup (some y)
      have hdw (c : α) (hc : c ∈ v.itemDict (some y)) : v.InRows moved c := fun d hpt => hrw d (.head hc hpt)
      have hyr' := removeChildrenFuel_self (fuel + 1) hf hyr
      rw [removeChildrenFuel, note_items] at hyr'
      rw [removeChildrenFuel]
      rcases hk with ha | ⟨hnn, ha⟩
      · obtain ⟨between', h'⟩ := hfl 1 (.inr rfl) (v.itemDict (some y)) hs hnd n v hf between h
          (fun c hc => iff_of_true (ha c hc) rfl) hdw fun i c hi d k hpt hear hd j hj => by
            have hin := List.mem_of_getElem? hi
            have := hm d (i + k) (.head hin hpt) (hear.head (hld ▸ hi)) hd j hj
            omega
        rw [Nat.one_mul] at h'
        exact ⟨between', (h'.emptyArray _).note hp hy hyr' fun j hj => hm y 0 .refl .self hne j hj⟩
      · obtain ⟨between', h'⟩ := hfl 0 (.inl rfl) (v.itemDict (some y)) hs hnd n v hf between h
          (fun c hc => iff_of_false (ha c hc) Nat.zero_ne_one) hdw
          fun _ _ _ _ _ _ _ _ j hj => absurd hj (hnn j)
        rw [Nat.zero_mul] at h'
        exact ⟨between', (h'.emptyArray _).note_any hp hy hyr' hnn⟩

end Whole

end NSOutlineView

end GnustepGui.OutlineView
