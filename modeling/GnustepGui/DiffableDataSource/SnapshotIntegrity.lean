import GnustepGui.DiffableDataSource.Snapshot

/-!
# Integrity of a snapshot

`Integrity` says that the sections are distinct and that the dictionary has exactly them as keys. `Extends` is what an
operation that adds keeps: no section goes, and as many item identifiers are there as before and those added.
-/

namespace GnustepGui.DiffableDataSource

open NSDiffableDataSourceSnapshot StateExcept Positions

variable {S I : Type} [DecidableEq S] [DecidableEq I] {s s' : NSDiffableDataSourceSnapshot S I}
  {x y : S} (defaultSection : S)

/-- The sections are distinct, and the keys of the dictionary. -/
structure Integrity (s : NSDiffableDataSourceSnapshot S I) : Prop where
  nodup : s.sections.Nodup
  keys : ∀ x, x ∈ s.itemsBySection ↔ x ∈ s.sections

/-- The sections of `s` are there in `s'`, and its items with `ids` added. -/
structure Extends (s s' : NSDiffableDataSourceSnapshot S I) (ids : List I) : Prop where
  integrity : Integrity s'
  items : (s'.itemIdentifiers : Multiset I) = s.itemIdentifiers + ids
  sections : ∀ x ∈ s.sections, x ∈ s'.sections

omit [DecidableEq S] [DecidableEq I] in
theorem integrity_init : Integrity (init : NSDiffableDataSourceSnapshot S I) :=
  ⟨List.nodup_nil, fun x => by simp [init]⟩

section Operations

omit [DecidableEq I]

theorem Extends.refl (h : Integrity s) : Extends s s [] := ⟨h, by simp, fun _ hx => hx⟩

theorem Extends.trans {s1 s2 s3 : NSDiffableDataSourceSnapshot S I} {ids ids' : List I}
    (h : Extends s1 s2 ids) (h' : Extends s2 s3 ids') : Extends s1 s3 (ids ++ ids') := by
  refine ⟨h'.integrity, ?_, fun x hx => h'.sections x (h.sections x hx)⟩
  rw [h'.items, h.items, ← Multiset.coe_add, add_assoc]

theorem Integrity.lookup_isSome (h : Integrity s) (hx : x ∈ s.sections) :
    ∃ items, s.itemsBySection.lookup x = some items :=
  Option.isSome_iff_exists.mp (AList.lookup_isSome.mpr ((h.keys x).mpr hx))

theorem Integrity.lookup_eq_none (h : Integrity s) (hx : x ∉ s.sections) : s.itemsBySection.lookup x = none :=
  AList.lookup_eq_none.mpr fun hk => hx ((h.keys x).mp hk)

/-! ## Items -/

theorem items_setItems_self (items : List I) :
    (s.setItems x items).itemIdentifiersInSectionWithIdentifier x = items := by
  simp [itemIdentifiersInSectionWithIdentifier, setItems]

theorem items_setItems_ne (items : List I) (hne : y ≠ x) :
    (s.setItems x items).itemIdentifiersInSectionWithIdentifier y = s.itemIdentifiersInSectionWithIdentifier y := by
  simp [itemIdentifiersInSectionWithIdentifier, setItems, AList.lookup_insert_ne hne]

theorem flatMap_setItems_of_notMem {l : List S} (items : List I) (hx : x ∉ l) :
    l.flatMap (s.setItems x items).itemIdentifiersInSectionWithIdentifier =
      l.flatMap s.itemIdentifiersInSectionWithIdentifier := by
  refine List.flatMap_congr fun y hy => items_setItems_ne items ?_
  rintro rfl
  exact hx hy

theorem Integrity.items_setItems (h : Integrity s) (hx : x ∈ s.sections) (items : List I) :
    ((s.setItems x items).itemIdentifiers : Multiset I) +
        s.itemIdentifiersInSectionWithIdentifier x = s.itemIdentifiers + items := by
  obtain ⟨a, b, he⟩ := List.append_of_mem hx
  have hn := h.nodup
  rw [he] at hn
  obtain ⟨-, hb, ha⟩ := List.nodup_append.mp hn
  have hxa : x ∉ a := fun hm => ha x hm x (by simp) rfl
  have hxb : x ∉ b := (List.nodup_cons.mp hb).1
  unfold itemIdentifiers
  show (((s.sections).flatMap _ : List I) : Multiset I) + _ = _
  rw [he]
  simp only [List.flatMap_append, List.flatMap_cons, flatMap_setItems_of_notMem items hxa,
    flatMap_setItems_of_notMem items hxb, items_setItems_self, ← Multiset.coe_add]
  abel

theorem Integrity.setItems (h : Integrity s) (hx : x ∈ s.sections) (items : List I) :
    Integrity (s.setItems x items) := by
  refine ⟨h.nodup, fun y => ?_⟩
  show y ∈ s.itemsBySection.insert x items ↔ y ∈ s.sections
  rw [AList.mem_insert, h.keys]
  constructor
  · rintro (rfl | hy)
    · exact hx
    · exact hy
  · exact Or.inr

theorem Integrity.putItems (h : Integrity s) (hx : x ∈ s.sections) {items ids : List I}
    (hp : (items : Multiset I) = s.itemIdentifiersInSectionWithIdentifier x + ids) :
    Extends s (s.setItems x items) ids := by
  refine ⟨h.setItems hx items, ?_, fun y hy => hy⟩
  have he := h.items_setItems hx items
  rw [hp, ← add_assoc, add_right_comm] at he
  exact add_right_cancel he

theorem Integrity.addEmpty (h : Integrity s) (hx : x ∉ s.sections) {l : List S} (hl : l.Perm (x :: s.sections)) :
    Extends s ((⟨l, s.itemsBySection⟩ : NSDiffableDataSourceSnapshot S I).setItems x []) [] := by
  refine ⟨⟨?_, fun y => ?_⟩, ?_, fun y hy => ?_⟩
  · show l.Nodup
    rw [hl.nodup_iff]
    exact List.nodup_cons.mpr ⟨hx, h.nodup⟩
  · show y ∈ s.itemsBySection.insert x [] ↔ y ∈ l
    rw [AList.mem_insert, h.keys, hl.mem_iff, List.mem_cons]
  · rw [Multiset.coe_nil, add_zero, Multiset.coe_eq_coe]
    refine (hl.flatMap_right _).trans ?_
    rw [List.flatMap_cons, items_setItems_self, List.nil_append]
    refine List.Perm.of_eq ?_
    exact flatMap_setItems_of_notMem (s := ⟨l, s.itemsBySection⟩) [] hx
  · show y ∈ l
    exact hl.mem_iff.mpr (List.mem_cons_of_mem _ hy)

theorem Integrity.ensureSection (h : Integrity s) (sectionIdentifier : Option S) :
    Extends s (s.ensureSection defaultSection sectionIdentifier) [] ∧ sectionIdentifier.getD defaultSection ∈
        (s.ensureSection defaultSection sectionIdentifier).sections := by
  unfold NSDiffableDataSourceSnapshot.ensureSection addSection
  generalize sectionIdentifier.getD defaultSection = x
  by_cases hx : x ∈ s.sections
  · obtain ⟨items, hits⟩ := h.lookup_isSome hx
    simp only [if_pos hx, hits, Option.isNone_some, Bool.false_eq_true, if_false]
    exact ⟨.refl h, hx⟩
  · simp only [if_neg hx, h.lookup_eq_none hx, Option.isNone_none, if_true]
    exact ⟨h.addEmpty hx (List.perm_append_singleton _ _), by simp [NSDiffableDataSourceSnapshot.setItems]⟩

theorem Integrity.appendSections (h : Integrity s) (ids : List S) :
    Extends s (ids.foldl (fun s x => s.ensureSection defaultSection (some x)) s) [] := by
  induction ids generalizing s with
  | nil => exact .refl h
  | cons x ids ih =>
    have hx := (h.ensureSection defaultSection (some x)).1
    exact hx.trans (ih hx.integrity)

theorem appendSectionsWithIdentifiers_spec (h : Integrity s) (ids : List S) :
    ∃ s', appendSectionsWithIdentifiers defaultSection ids s = .ok () s' ∧ Extends s s' [] :=
  ⟨_, modify_run _, h.appendSections defaultSection ids⟩

/-! ## Inserting sections -/

omit [DecidableEq S] in
theorem insertSection_run {index : Nat} (hi : index ≤ s.sections.length) :
    insertSection x index s = .ok () { s with sections := s.sections.insertIdx index x } := by
  unfold insertSection
  rw [get_bind, if_neg (by omega)]
  rfl

omit [DecidableEq S] in
theorem removeSectionAtIndex_run {index : Nat} (hi : index < s.sections.length) :
    removeSectionAtIndex index s = .ok () { s with sections := s.sections.eraseIdx index } := by
  unfold removeSectionAtIndex
  rw [get_bind, if_neg (by omega)]
  rfl

theorem insertSectionsLoop_spec (ids : List S) : ∀ {s : NSDiffableDataSourceSnapshot S I}
    {index : Nat}, Integrity s → index ≤ s.sections.length →
      ∃ s', insertSectionsLoop ids index s = .ok () s' ∧ Extends s s' [] := by
  induction ids with
  | nil => exact fun h _ => ⟨_, rfl, .refl h⟩
  | cons x rest ih =>
    intro s index h hi
    unfold insertSectionsLoop
    rw [get_bind]
    by_cases hx : x ∈ s.sections
    · rw [if_pos hx]
      exact ih h hi
    · rw [if_neg hx, bind_ok (insertSection_run hi), modify_bind]
      have ha := h.addEmpty hx (List.perm_insertIdx x s.sections hi)
      have hl : index + 1 ≤ (s.sections.insertIdx index x).length := by
        rw [List.length_insertIdx_of_le_length hi]
        omega
      obtain ⟨s', hr, hext⟩ := ih ha.integrity hl
      exact ⟨s', hr, ha.trans hext⟩

theorem insertSectionsBefore_spec (h : Integrity s) (ids : List S) (other : S) :
    ∃ s', insertSectionsBefore ids other s = .ok () s' ∧ Extends s s' [] := by
  unfold NSDiffableDataSourceSnapshot.insertSectionsBefore
  rw [get_bind]
  refine insertSectionsLoop_spec ids h ?_
  cases hi : s.sections.idxOf? other with
  | none => simp
  | some i =>
    obtain ⟨pre, post, he, rfl, -⟩ := idxOf?_eq_some hi
    rw [he]
    simp

theorem insertSectionsAfter_spec (h : Integrity s) (ids : List S) (other : S) :
    ∃ s', insertSectionsAfter defaultSection ids other s = .ok () s' ∧ Extends s s' [] := by
  unfold NSDiffableDataSourceSnapshot.insertSectionsAfter
  rw [get_bind]
  cases hi : s.sections.idxOf? other with
  | none => exact appendSectionsWithIdentifiers_spec defaultSection h ids
  | some i =>
    obtain ⟨pre, post, he, rfl, -⟩ := idxOf?_eq_some hi
    refine insertSectionsLoop_spec ids h ?_
    rw [he]
    simp

/-! ## Deleting sections -/

theorem Integrity.deleteSection (h : Integrity s) (x : S) : Integrity (s.deleteSection x) ∧
      ((s.deleteSection x).itemIdentifiers : Multiset I) ≤ s.itemIdentifiers := by
  refine ⟨⟨h.nodup.filter _, fun y => ?_⟩, ?_⟩
  · show y ∈ s.itemsBySection.erase x ↔ y ∈ s.sections.filter (· ≠ x)
    rw [AList.mem_erase, h.keys, List.mem_filter, decide_eq_true_iff, and_comm]
  · have he : (s.deleteSection x).itemIdentifiers =
        (s.sections.filter (· ≠ x)).flatMap s.itemIdentifiersInSectionWithIdentifier := by
      refine List.flatMap_congr fun y hy => ?_
      have hne : y ≠ x := by simpa using (List.mem_filter.mp hy).2
      simp [itemIdentifiersInSectionWithIdentifier, NSDiffableDataSourceSnapshot.deleteSection,
        AList.lookup_erase_ne hne]
    rw [he, Multiset.coe_le]
    exact (List.filter_sublist.flatMap _).subperm

theorem Integrity.deleteSections (h : Integrity s) (ids : List S) :
    Integrity (ids.foldl NSDiffableDataSourceSnapshot.deleteSection s) ∧
      ((ids.foldl NSDiffableDataSourceSnapshot.deleteSection s).itemIdentifiers : Multiset I) ≤ s.itemIdentifiers := by
  induction ids generalizing s with
  | nil => exact ⟨h, le_rfl⟩
  | cons x ids ih =>
    obtain ⟨h1, h2⟩ := h.deleteSection x
    exact ⟨(ih h1).1, (ih h1).2.trans h2⟩

end Operations

/-! ## Finding, adding and deleting items -/

omit [DecidableEq I] in
theorem itemIdentifiers_lookup {items : List I} (hx : s.itemsBySection.lookup x = some items) :
    s.itemIdentifiersInSectionWithIdentifier x = items := by
  simp [itemIdentifiersInSectionWithIdentifier, hx]

theorem Integrity.findItemIdentifier_some (h : Integrity s) {item : I} {index : Nat}
    (hf : s.findItemIdentifier item = some (x, index)) :
    x ∈ s.sections ∧ ∃ pre post, s.itemsBySection.lookup x = some (pre ++ item :: post) ∧ index = pre.length := by
  obtain ⟨y, hy, hs⟩ := List.exists_of_findSome?_eq_some hf
  obtain ⟨i, hi, he⟩ := Option.map_eq_some_iff.mp hs
  obtain ⟨rfl, rfl⟩ := Prod.mk.inj he
  obtain ⟨items, hits⟩ := h.lookup_isSome hy
  simp only [indexOfItem, hits] at hi
  obtain ⟨pre, post, rfl, rfl, -⟩ := idxOf?_eq_some hi
  exact ⟨hy, pre, post, hits, rfl⟩

section

omit [DecidableEq I]

theorem insertItemsAt_spec (h : Integrity s) {items : List I} (hx : x ∈ s.sections)
    (hits : s.itemsBySection.lookup x = some items) (ids : List I) {index : Nat} (hi : index ≤ items.length) :
    ∃ s', insertItemsAt ids x index s = .ok () s' ∧ Extends s s' ids := by
  unfold insertItemsAt
  rw [get_bind, hits]
  simp only
  rw [if_neg (by omega)]
  refine ⟨_, rfl, h.putItems hx ?_⟩
  rw [itemIdentifiers_lookup hits]
  conv_rhs => rw [← List.take_append_drop index items]
  simp only [← Multiset.coe_add]
  abel

theorem appendItemsInto_spec (h : Integrity s) (ids : List I) (sectionIdentifier : Option S) :
    ∃ s', appendItemsInto defaultSection ids sectionIdentifier s = .ok () s' ∧ Extends s s' ids := by
  refine ⟨_, modify_run _, ?_⟩
  obtain ⟨hext, hx⟩ := h.ensureSection defaultSection sectionIdentifier
  obtain ⟨items, hits⟩ := hext.integrity.lookup_isSome hx
  simp only [hits]
  refine hext.trans (hext.integrity.putItems hx ?_)
  rw [itemIdentifiers_lookup hits, Multiset.coe_add]

theorem appendItemsWithIdentifiers_spec (h : Integrity s) (ids : List I) :
    ∃ s', appendItemsWithIdentifiers defaultSection ids s = .ok () s' ∧ Extends s s' ids := by
  unfold appendItemsWithIdentifiers
  rw [get_bind]
  cases s.sections.getLast? with
  | some x => exact appendItemsInto_spec defaultSection h ids (some x)
  | none =>
    obtain ⟨s1, hr, hext⟩ := appendSectionsWithIdentifiers_spec defaultSection h
      [defaultSection]
    obtain ⟨s2, hr2, hext2⟩ := appendItemsInto_spec defaultSection
      hext.integrity ids (some defaultSection)
    refine ⟨s2, ?_, hext.trans hext2⟩
    simp only
    rw [bind_ok hr, hr2]

end

/-- The items are put at the index of another one, or at the one behind it. -/
theorem insertItemsNear_spec (h : Integrity s) (ids : List I) (item : I) (place : Nat → Nat)
    (hp : ∀ i, place i ≤ i + 1) :
    ∃ s', (do
      if ids.length = 0 then return ()
      match (← get).findItemIdentifier item with
      | some (x, itemIndex) => insertItemsAt ids x (place itemIndex)
      | none => appendItemsWithIdentifiers defaultSection ids : SnapshotM S I Unit) s = .ok () s' ∧
      Extends s s' ids := by
  by_cases hi : ids.length = 0
  · rw [if_pos hi, List.length_eq_zero_iff.mp hi]
    exact ⟨s, rfl, .refl h⟩
  · rw [if_neg hi]
    rw [get_bind]
    cases hf : s.findItemIdentifier item with
    | none => exact appendItemsWithIdentifiers_spec defaultSection h ids
    | some r =>
      obtain ⟨x, index⟩ := r
      obtain ⟨hx, pre, post, hits, rfl⟩ := h.findItemIdentifier_some hf
      have := hp pre.length
      exact insertItemsAt_spec h hx hits ids (by simp; omega)

theorem insertItemsBefore_spec (h : Integrity s) (ids : List I) (item : I) :
    ∃ s', insertItemsBefore defaultSection ids item s = .ok () s' ∧ Extends s s' ids :=
  insertItemsNear_spec defaultSection h ids item (fun i => i) Nat.le_succ

theorem insertItemsAfter_spec (h : Integrity s) (ids : List I) (item : I) :
    ∃ s', insertItemsAfter defaultSection ids item s = .ok () s' ∧ Extends s s' ids :=
  insertItemsNear_spec defaultSection h ids item (· + 1) fun _ => Nat.le_refl _

theorem Integrity.deleteItem (h : Integrity s) (item : I) : Integrity (s.deleteItem item) ∧
      ((s.deleteItem item).itemIdentifiers : Multiset I) ≤ s.itemIdentifiers := by
  unfold NSDiffableDataSourceSnapshot.deleteItem
  cases hf : s.findItemIdentifier item with
  | none => exact ⟨h, le_rfl⟩
  | some r =>
    obtain ⟨x, index⟩ := r
    obtain ⟨hx, pre, post, hits, rfl⟩ := h.findItemIdentifier_some hf
    simp only [hits]
    rw [if_pos (by simp), eraseIdx_at]
    refine ⟨h.setItems hx _, ?_⟩
    have he := h.items_setItems hx (pre ++ post)
    rw [itemIdentifiers_lookup hits] at he
    have hle : ((pre ++ post : List I) : Multiset I) ≤ (pre ++ item :: post : List I) :=
      Multiset.coe_le.mpr ((List.sublist_cons_self item post).append_left pre).subperm
    exact le_of_add_le_add_right (he.trans_le (add_le_add_right hle _))

theorem Integrity.deleteItems (h : Integrity s) (ids : List I) :
    Integrity (ids.foldl NSDiffableDataSourceSnapshot.deleteItem s) ∧
      ((ids.foldl NSDiffableDataSourceSnapshot.deleteItem s).itemIdentifiers : Multiset I) ≤ s.itemIdentifiers := by
  induction ids generalizing s with
  | nil => exact ⟨h, le_rfl⟩
  | cons x ids ih =>
    obtain ⟨h1, h2⟩ := h.deleteItem x
    exact ⟨(ih h1).1, (ih h1).2.trans h2⟩

end GnustepGui.DiffableDataSource
