import GnustepGui.DiffableDataSource.DataSource
import GnustepGui.DiffableDataSource.SnapshotRuns

/-!
# The rows of a table

The rows are the items of the sections one after another. Three traversals count them: the lookup of a row, and
the rows to reload for some sections or items. They agree if and only if the row is not before the first one, and no
item to reload is there twice (`rows_agree_iff`).
-/

namespace GnustepGui.DiffableDataSource

open NSDiffableDataSourceSnapshot StateExcept

variable {S I : Type} [DecidableEq S] [DecidableEq I]

/-! ## Reloading -/

namespace NSTableViewDiffableDataSource

/-- The loop that adds up the rows of the sections before an index. -/
def runningTotal (s : NSDiffableDataSourceSnapshot S I) (sectionIndex : Nat) : Nat :=
  (s.sections.take sectionIndex).foldl
    (fun runningTotal sec => runningTotal + (s.itemIdentifiersInSectionWithIdentifier sec).length) 0

/-- The rows that `reloadSectionsWithIdentifiers:` collects. -/
def sectionRowsToReload (s : NSDiffableDataSourceSnapshot S I) (sectionIdentifiers : List S) : Finset Nat :=
  sectionIdentifiers.foldl (fun rowsToReload x =>
    match s.sections.idxOf? x with
    | none => rowsToReload
    | some sectionIndex =>
      rowsToReload ∪ Finset.Ico (runningTotal s sectionIndex)
        (runningTotal s sectionIndex + (s.itemIdentifiersInSectionWithIdentifier x).length)) ∅

/-- The loop over the sections that stops at the first one with the item. -/
def rowOfItem (s : NSDiffableDataSourceSnapshot S I) (item : I) : List S → Nat → Option Nat
  | [], _ => none
  | x :: rest, runningTotal =>
    match (s.itemIdentifiersInSectionWithIdentifier x).idxOf? item with
    | some index => some (runningTotal + index)
    | none => rowOfItem s item rest (runningTotal + (s.itemIdentifiersInSectionWithIdentifier x).length)

/-- The rows that `reloadItemsWithIdentifiers:` collects. -/
def itemRowsToReload (s : NSDiffableDataSourceSnapshot S I) (itemIdentifiers : List I) : Finset Nat :=
  itemIdentifiers.foldl (fun rowsToReload item =>
    match rowOfItem s item s.sections 0 with
    | none => rowsToReload
    | some row => insert row rowsToReload) ∅

/-- The rows and columns that the table view is told to reload. -/
def reloadData (numberOfColumns : Nat) (rowsToReload : Finset Nat) : Option (Finset Nat × Finset Nat) :=
  if 0 < rowsToReload.card then some (rowsToReload, Finset.range numberOfColumns) else none

def reloadSectionsWithIdentifiers (d : NSTableViewDiffableDataSource S I) (numberOfColumns : Nat)
    (sectionIdentifiers : List S) : Option (Finset Nat × Finset Nat) :=
  reloadData numberOfColumns (sectionRowsToReload d.snapshot sectionIdentifiers)

def reloadItemsWithIdentifiers (d : NSTableViewDiffableDataSource S I) (numberOfColumns : Nat)
    (itemIdentifiers : List I) : Option (Finset Nat × Finset Nat) :=
  reloadData numberOfColumns (itemRowsToReload d.snapshot itemIdentifiers)

end NSTableViewDiffableDataSource

open NSTableViewDiffableDataSource

/-! ## What the rows are -/

/-- The rows with the sections they belong to. -/
def rowsOf (s : NSDiffableDataSourceSnapshot S I) (sections : List S) : List (S × I) :=
  sections.flatMap fun x => (s.itemIdentifiersInSectionWithIdentifier x).map fun item => (x, item)

/-- The rows that are told to the table view are these. -/
def Reloads (told : Option (Finset Nat × Finset Nat)) (rows : Set Nat) : Prop :=
  ∀ row, row ∈ rows ↔ ∃ rowsToReload columns, told = some (rowsToReload, columns) ∧ row ∈ rowsToReload

variable {s : NSDiffableDataSourceSnapshot S I} {x : S} {item : I} {sections : List S} {row total : Nat}

omit [DecidableEq I] in
theorem numberOfItems_eq (s : NSDiffableDataSourceSnapshot S I) : s.numberOfItems = s.itemIdentifiers.length := by
  rw [numberOfItems, itemIdentifiers, List.length_flatMap]

theorem reloads_reloadData {rows : Finset Nat} {numberOfColumns : Nat} {expected : Set Nat} :
    Reloads (reloadData numberOfColumns rows) expected ↔ ∀ row, row ∈ expected ↔ row ∈ rows := by
  refine forall_congr' fun row => ?_
  rw [reloadData]
  split
  · refine iff_congr Iff.rfl ⟨?_, fun h => ⟨rows, _, rfl, h⟩⟩
    rintro ⟨rowsToReload, columns, ht, hr⟩
    obtain ⟨rfl, -⟩ := Prod.mk.inj (Option.some.inj ht)
    exact hr
  · rename_i hn
    have he : rows = ∅ := Finset.card_eq_zero.mp (Nat.eq_zero_of_not_pos hn)
    rw [he]
    exact iff_congr Iff.rfl ⟨fun ⟨_, _, h, _⟩ => (nomatch h), fun h => absurd h (Finset.notMem_empty row)⟩

/-! ## Looking a row up -/

section

omit [DecidableEq I]

theorem itemIdentifierForRowLoop_eq (s : NSDiffableDataSourceSnapshot S I) (sections : List S) (row total : Nat) :
    itemIdentifierForRowLoop s ((total + row : Nat) : Int) sections total =
      .ok (sections.flatMap s.itemIdentifiersInSectionWithIdentifier)[row]? := by
  induction sections generalizing row total with
  | nil => rfl
  | cons x sections ih =>
    rw [itemIdentifierForRowLoop, List.flatMap_cons]
    generalize s.itemIdentifiersInSectionWithIdentifier x = items
    by_cases hlt : row < items.length
    · rw [if_pos (by omega), if_neg (by omega), List.getElem?_append_left hlt]
      congr 2
      omega
    · rw [if_neg (by omega), List.getElem?_append_right (by omega)]
      have hr := ih (row - items.length) (total + items.length)
      have hs : total + items.length + (row - items.length) = total + row := by omega
      rw [hs] at hr
      push_cast at hr ⊢
      exact hr

theorem itemIdentifierForRow_natCast (d : NSTableViewDiffableDataSource S I) (row : Nat) :
    d.itemIdentifierForRow row = .ok d.snapshot.itemIdentifiers[row]? := by
  have hl := itemIdentifierForRowLoop_eq d.snapshot d.snapshot.sections row 0
  rw [Nat.zero_add] at hl
  exact hl

theorem itemIdentifierForRow_neg (d : NSTableViewDiffableDataSource S I) {row : Int} (hn : row < 0) :
    d.itemIdentifierForRow row = .ok none ↔ d.snapshot.sections = [] := by
  rw [itemIdentifierForRow]
  cases d.snapshot.sections with
  | nil => exact ⟨fun _ => rfl, fun _ => rfl⟩
  | cons x sections =>
    rw [itemIdentifierForRowLoop, if_pos (by omega), if_pos hn]
    exact ⟨nofun, nofun⟩

end

/-! ## Rows to reload -/

theorem mem_foldl_collect {α : Type} {collect : Finset Nat → α → Finset Nat} (rowsOf : α → Set Nat)
    (hc : ∀ rows x row, row ∈ collect rows x ↔ row ∈ rows ∨ row ∈ rowsOf x) (xs : List α) (rows : Finset Nat)
    (row : Nat) : row ∈ xs.foldl collect rows ↔ row ∈ rows ∨ ∃ x ∈ xs, row ∈ rowsOf x := by
  induction xs generalizing rows with
  | nil => exact ⟨.inl, fun h => h.resolve_right fun ⟨_, hx, _⟩ => absurd hx List.not_mem_nil⟩
  | cons x xs ih =>
    rw [List.foldl_cons, ih, hc, or_assoc, List.exists_mem_cons_iff]

section

omit [DecidableEq I]

theorem foldl_length (s : NSDiffableDataSourceSnapshot S I) (sections : List S) (total : Nat) :
    sections.foldl (fun total x => total + (s.itemIdentifiersInSectionWithIdentifier x).length) total =
      total + (rowsOf s sections).length := by
  induction sections generalizing total with
  | nil => rfl
  | cons x sections ih =>
    rw [List.foldl_cons, ih, rowsOf, rowsOf, List.flatMap_cons, List.length_append, List.length_map]
    omega

theorem rowsOf_append (s : NSDiffableDataSourceSnapshot S I) (sections sections' : List S) :
    rowsOf s (sections ++ sections') = rowsOf s sections ++ rowsOf s sections' := List.flatMap_append

theorem fst_mem_of_rowsOf {y : S} (h : (rowsOf s sections)[row]? = some (y, item)) : y ∈ sections := by
  obtain ⟨x, hx, hit⟩ := List.mem_flatMap.mp (List.mem_of_getElem? h)
  obtain ⟨_, _, heq⟩ := List.mem_map.mp hit
  exact (Prod.mk.inj heq).1 ▸ hx

end

/-- The rows of a section. -/
def rowsOfSection (s : NSDiffableDataSourceSnapshot S I) (x : S) : Set Nat :=
  {row | ∃ item, (rowsOf s s.sections)[row]? = some (x, item)}

omit [DecidableEq I] in
theorem mem_rowsOfSection (hnd : s.sections.Nodup) : row ∈ rowsOfSection s x ↔
    ∃ sectionIndex, s.sections.idxOf? x = some sectionIndex ∧ runningTotal s sectionIndex ≤ row ∧
      row < runningTotal s sectionIndex + (s.itemIdentifiersInSectionWithIdentifier x).length := by
  cases hx : s.sections.idxOf? x with
  | none =>
    have ho := List.idxOf?_eq_none_iff.mp hx
    exact ⟨fun ⟨_, h⟩ => absurd (fst_mem_of_rowsOf h) ho, fun ⟨_, h, _⟩ => nomatch h⟩
  | some sectionIndex =>
    obtain ⟨pre, post, hs, rfl, hp⟩ := Positions.idxOf?_eq_some hx
    have hps : x ∉ post := by
      rw [hs] at hnd
      exact (List.nodup_cons.mp (List.nodup_append.mp hnd).2.1).1
    have ht : runningTotal s pre.length = (rowsOf s pre).length := by
      rw [runningTotal, hs, List.take_left, foldl_length, Nat.zero_add]
    have hr : rowsOf s s.sections = rowsOf s pre ++
        ((s.itemIdentifiersInSectionWithIdentifier x).map fun item => (x, item)) ++ rowsOf s post := by
      rw [hs, rowsOf_append, rowsOf, rowsOf, rowsOf, List.flatMap_cons, List.append_assoc]
    simp only [Option.some.injEq, exists_eq_left', ht]
    rw [rowsOfSection, Set.mem_ofPred_eq, hr]
    generalize s.itemIdentifiersInSectionWithIdentifier x = items
    constructor
    · rintro ⟨item, hit⟩
      by_cases hl : row < (rowsOf s pre).length
      · rw [List.append_assoc, List.getElem?_append_left hl] at hit
        exact absurd (fst_mem_of_rowsOf hit) hp
      · refine ⟨by omega, ?_⟩
        by_contra hh
        have hlen : (rowsOf s pre ++ items.map fun item => (x, item)).length = (rowsOf s pre).length + items.length := by
          rw [List.length_append, List.length_map]
        rw [List.getElem?_append_right (by omega)] at hit
        exact absurd (fst_mem_of_rowsOf hit) hps
    · rintro ⟨hl, hh⟩
      have hlt : row - (rowsOf s pre).length < items.length := by omega
      refine ⟨items[row - (rowsOf s pre).length], ?_⟩
      rw [List.append_assoc, List.getElem?_append_right hl,
        List.getElem?_append_left (by rwa [List.length_map]), List.getElem?_map, List.getElem?_eq_getElem hlt]
      rfl

omit [DecidableEq I] in
/-- Where the sections are distinct, all rows of the sections are reloaded and no others. -/
theorem mem_sectionRowsToReload (hnd : s.sections.Nodup) (sectionIdentifiers : List S) (row : Nat) :
    row ∈ sectionRowsToReload s sectionIdentifiers ↔ ∃ x ∈ sectionIdentifiers, row ∈ rowsOfSection s x := by
  rw [sectionRowsToReload]
  refine (mem_foldl_collect (rowsOfSection s) (fun rows x row => ?_) _ _ row).trans
    (or_iff_right (Finset.notMem_empty row))
  rw [mem_rowsOfSection hnd]
  cases s.sections.idxOf? x with
  | none => exact ⟨.inl, fun h => h.resolve_right nofun⟩
  | some sectionIndex =>
    simp only [Option.some.injEq, exists_eq_left', Finset.mem_union, Finset.mem_Ico]

theorem rowOfItem_eq (s : NSDiffableDataSourceSnapshot S I) (item : I) (sections : List S) (total : Nat) :
    rowOfItem s item sections total =
      ((sections.flatMap s.itemIdentifiersInSectionWithIdentifier).idxOf? item).map (total + ·) := by
  induction sections generalizing total with
  | nil => rfl
  | cons x sections ih =>
    rw [rowOfItem, List.flatMap_cons]
    have ha (items rest : List I) : (items ++ rest).idxOf? item =
        (items.idxOf? item).or ((rest.idxOf? item).map fun i => i + items.length) := List.findIdx?_append
    rw [ha]
    cases (s.itemIdentifiersInSectionWithIdentifier x).idxOf? item with
    | some index => rfl
    | none =>
      rw [Option.none_or, Option.map_map]
      refine (ih _).trans (Option.map_congr fun i _ => ?_)
      rw [Function.comp_apply]
      omega

theorem mem_itemRowsToReload (s : NSDiffableDataSourceSnapshot S I) (itemIdentifiers : List I) (row : Nat) :
    row ∈ itemRowsToReload s itemIdentifiers ↔ ∃ item ∈ itemIdentifiers, s.itemIdentifiers.idxOf? item = some row := by
  rw [itemRowsToReload]
  refine (mem_foldl_collect (fun item => {row | s.itemIdentifiers.idxOf? item = some row})
    (fun rows item row => ?_) _ _ row).trans (or_iff_right (Finset.notMem_empty row))
  have hr := rowOfItem_eq s item s.sections 0
  simp only [Nat.zero_add, Option.map_id'] at hr
  have hr : rowOfItem s item s.sections 0 = s.itemIdentifiers.idxOf? item := hr
  rw [hr, Set.mem_ofPred_eq]
  cases s.itemIdentifiers.idxOf? item with
  | none => exact ⟨.inl, fun h => h.resolve_right (Option.some_ne_none row).symm⟩
  | some index =>
    rw [Option.some.injEq, Finset.mem_insert, or_comm, eq_comm]

theorem getElem?_of_idxOf? {l : List I} (h : l.idxOf? item = some row) : l[row]? = some item := by
  obtain ⟨pre, post, rfl, rfl, -⟩ := Positions.idxOf?_eq_some h
  exact Positions.getElem?_at pre item post

theorem count_of_lt {l : List I} {i j : Nat} (hi : l[i]? = some item) (hj : l[j]? = some item) (hlt : i < j) :
    2 ≤ l.count item := by
  obtain ⟨hilt, rfl⟩ := List.getElem?_eq_some_iff.mp hi
  obtain ⟨hjlt, heq⟩ := List.getElem?_eq_some_iff.mp hj
  rw [← List.duplicate_iff_two_le_count, List.duplicate_iff_exists_distinct_get]
  exact ⟨⟨i, hilt⟩, ⟨j, hjlt⟩, hlt, rfl, heq.symm⟩

theorem firstRows_iff (l items : List I) :
    (∀ row, (∃ item ∈ items, l[row]? = some item) ↔ ∃ item ∈ items, l.idxOf? item = some row) ↔
      ∀ item ∈ items, l.count item ≤ 1 := by
  constructor
  · intro h item hit
    by_contra ht
    obtain ⟨n, m, hlt, hn, hm⟩ := List.duplicate_iff_exists_distinct_get.mp
      (List.duplicate_iff_two_le_count.mpr (Nat.not_le.mp ht))
    have hf {row : Nat} (hr : l[row]? = some item) : l.idxOf? item = some row := by
      obtain ⟨other, _, hother⟩ := (h row).mp ⟨item, hit, hr⟩
      obtain rfl := Option.some.inj ((getElem?_of_idxOf? hother).symm.trans hr)
      exact hother
    have hn' : l[(n : Nat)]? = some item := List.getElem?_eq_some_iff.mpr ⟨n.2, hn.symm⟩
    have hm' : l[(m : Nat)]? = some item := List.getElem?_eq_some_iff.mpr ⟨m.2, hm.symm⟩
    have heq := Option.some.inj ((hf hn').symm.trans (hf hm'))
    exact absurd (Fin.ext heq) (ne_of_lt hlt)
  · intro h row
    constructor
    · rintro ⟨item, hit, hr⟩
      refine ⟨item, hit, ?_⟩
      cases hf : l.idxOf? item with
      | none => exact absurd (List.mem_of_getElem? hr) (List.idxOf?_eq_none_iff.mp hf)
      | some first =>
        have hc := h item hit
        have hg := getElem?_of_idxOf? hf
        obtain hlt | rfl | hlt := lt_trichotomy first row
        · exact absurd (count_of_lt hg hr hlt) (by omega)
        · rfl
        · exact absurd (count_of_lt hr hg hlt) (by omega)
    · rintro ⟨item, hit, hr⟩
      exact ⟨item, hit, getElem?_of_idxOf? hr⟩

/-! ## Snapshots that can be reached -/

section Distinct

variable {α : Type}

/-- The sections stay distinct. -/
def KeepsDistinct (m : SnapshotM S I α) : Prop :=
  ∀ s, s.sections.Nodup → (stateOf (m s)).sections.Nodup

section

omit [DecidableEq S] [DecidableEq I]

theorem KeepsDistinct.bind {β : Type} {m : SnapshotM S I α} {k : α → SnapshotM S I β} (hm : KeepsDistinct m)
    (hk : ∀ a, KeepsDistinct (k a)) : KeepsDistinct (m >>= k) := by
  intro s hs
  have hst := hm s hs
  cases hr : m s with
  | ok a s' =>
    rw [bind_ok hr]
    rw [hr] at hst
    exact hk a s' hst
  | error e s' =>
    rw [bind_error hr]
    rw [hr] at hst
    exact hst

theorem keepsDistinct_pure (a : α) : KeepsDistinct (pure a : SnapshotM S I α) := fun _ hs => hs

end

omit [DecidableEq I] in
theorem ensureSection_nodup (hs : s.sections.Nodup) (defaultSection : S) (sectionIdentifier : Option S) :
    (s.ensureSection defaultSection sectionIdentifier).sections.Nodup := by
  have hadd : (s.addSection (sectionIdentifier.getD defaultSection)).sections.Nodup := by
    rw [addSection]
    split
    · exact hs
    · rename_i hx
      exact List.nodup_append.mpr ⟨hs, List.nodup_singleton _, fun a ha b hb => by
        rw [List.mem_singleton.mp hb]
        rintro rfl
        exact hx ha⟩
  rw [ensureSection]
  split
  · exact hadd
  · exact hadd

omit [DecidableEq I] in
theorem appendSections_keepsDistinct (defaultSection : S) (ids : List S) :
    KeepsDistinct (appendSectionsWithIdentifiers defaultSection ids : SnapshotM S I Unit) := by
  intro s hs
  change (ids.foldl _ s).sections.Nodup
  induction ids generalizing s with
  | nil => exact hs
  | cons x ids ih => exact ih _ (ensureSection_nodup hs defaultSection (some x))

omit [DecidableEq S] [DecidableEq I] in
/-- A section that is not there may be inserted; past the end the insertion raises. -/
theorem insertSection_nodup (hs : s.sections.Nodup) (hx : x ∉ s.sections) (index : Nat) :
    (stateOf (insertSection x index s)).sections.Nodup := by
  by_cases hi : index ≤ s.sections.length
  · rw [insertSection_run hi]
    exact (List.perm_insertIdx x s.sections hi).nodup_iff.mpr (List.nodup_cons.mpr ⟨hx, hs⟩)
  · unfold insertSection
    rw [get_bind, if_pos (by omega)]
    exact hs

section

omit [DecidableEq I]

theorem insertSectionsLoop_keepsDistinct (ids : List S) (index : Nat) :
    KeepsDistinct (insertSectionsLoop ids index : SnapshotM S I Unit) := by
  induction ids generalizing index with
  | nil => exact keepsDistinct_pure _
  | cons x ids ih =>
    intro s hs
    unfold insertSectionsLoop
    rw [get_bind]
    split
    · exact ih index s hs
    · rename_i hx
      have hst := insertSection_nodup hs hx index
      have hrs : KeepsDistinct (do modify fun s => s.setItems x []; insertSectionsLoop ids (index + 1) :
          SnapshotM S I Unit) := KeepsDistinct.bind (fun _ hs => hs) fun _ => ih (index + 1)
      cases hr : insertSection x index s with
      | ok a s' =>
        rw [bind_ok hr]
        rw [hr] at hst
        exact hrs s' hst
      | error e s' =>
        rw [bind_error hr]
        rw [hr] at hst
        exact hst

theorem moveSection_nodup (hs : s.sections.Nodup) {fromIndex : Nat} (hf : s.sections.idxOf? x = some fromIndex)
    (index : Nat) :
    (stateOf ((do removeSectionAtIndex fromIndex; insertSection x index : SnapshotM S I Unit) s)).sections.Nodup := by
  rw [bind_ok (removeSectionAtIndex_run (eraseIdx_length hf).1)]
  obtain ⟨pre, post, hsc, rfl, hp⟩ := Positions.idxOf?_eq_some hf
  refine insertSection_nodup (hs.sublist (List.eraseIdx_sublist _ _)) ?_ index
  rw [hsc, Positions.eraseIdx_at, List.mem_append, not_or]
  rw [hsc] at hs
  exact ⟨hp, (List.nodup_cons.mp (List.nodup_append.mp hs).2.1).1⟩

theorem appendItemsInto_keepsDistinct (defaultSection : S) (ids : List I) (sectionIdentifier : Option S) :
    KeepsDistinct (appendItemsInto defaultSection ids sectionIdentifier) := by
  intro s hs
  have he := ensureSection_nodup hs defaultSection sectionIdentifier
  unfold appendItemsInto
  rw [modify_run]
  dsimp only
  split
  · exact he
  · exact he

theorem appendItems_keepsDistinct (defaultSection : S) (ids : List I) :
    KeepsDistinct (appendItemsWithIdentifiers defaultSection ids) := by
  intro s hs
  unfold appendItemsWithIdentifiers
  rw [get_bind]
  cases s.sections.getLast? with
  | some x => exact appendItemsInto_keepsDistinct defaultSection ids _ s hs
  | none =>
    exact KeepsDistinct.bind (appendSections_keepsDistinct defaultSection [defaultSection])
      (fun _ => appendItemsInto_keepsDistinct defaultSection ids _) s hs

theorem insertItemsAt_keepsDistinct (ids : List I) (x : S) (index : Nat) :
    KeepsDistinct (insertItemsAt ids x index) := by
  intro s hs
  unfold insertItemsAt
  rw [get_bind]
  cases s.itemsBySection.lookup x with
  | none => exact hs
  | some items =>
    dsimp only
    by_cases hi : items.length < index
    · rw [if_pos hi]
      exact hs
    · rw [if_neg hi]
      exact hs

end

theorem deleteItem_sections (s : NSDiffableDataSourceSnapshot S I) (item : I) :
    (s.deleteItem item).sections = s.sections := by
  rw [deleteItem]
  split
  · rfl
  · split
    · rfl
    · split
      · rfl
      · rfl

theorem perform_keepsDistinct (defaultSection : S) (call : SnapshotCall S I) :
    KeepsDistinct (call.perform defaultSection) := by
  intro s hs
  cases call with
  | appendSections ids => exact appendSections_keepsDistinct defaultSection ids s hs
  | insertSectionsBefore ids other => exact insertSectionsLoop_keepsDistinct ids _ s hs
  | insertSectionsAfter ids other =>
    rw [SnapshotCall.perform, NSDiffableDataSourceSnapshot.insertSectionsAfter, get_bind]
    cases s.sections.idxOf? other with
    | none => exact appendSections_keepsDistinct defaultSection ids s hs
    | some index => exact insertSectionsLoop_keepsDistinct ids _ s hs
  | deleteSections ids =>
    change (ids.foldl deleteSection s).sections.Nodup
    induction ids generalizing s with
    | nil => exact hs
    | cons x ids ih => exact ih _ (hs.filter _)
  | moveSectionBefore x other =>
    rw [SnapshotCall.perform, NSDiffableDataSourceSnapshot.moveSectionBefore, get_bind]
    cases hf : s.sections.idxOf? x with
    | none => exact hs
    | some fromIndex =>
      cases s.sections.idxOf? other with
      | none => exact hs
      | some toIndex => exact moveSection_nodup hs hf _
  | moveSectionAfter x other =>
    rw [SnapshotCall.perform, NSDiffableDataSourceSnapshot.moveSectionAfter, get_bind]
    cases hf : s.sections.idxOf? x with
    | none => exact hs
    | some fromIndex =>
      cases s.sections.idxOf? other with
      | none => exact hs
      | some toIndex => exact moveSection_nodup hs hf _
  | appendItems ids => exact appendItems_keepsDistinct defaultSection ids s hs
  | appendItemsInto ids x => exact appendItemsInto_keepsDistinct defaultSection ids x s hs
  | insertItemsBefore ids item =>
    rw [SnapshotCall.perform, NSDiffableDataSourceSnapshot.insertItemsBefore]
    by_cases he : ids.length = 0
    · rw [if_pos he]
      exact hs
    · rw [if_neg he, get_bind]
      cases s.findItemIdentifier item with
      | none => exact appendItems_keepsDistinct defaultSection ids s hs
      | some place => exact insertItemsAt_keepsDistinct ids _ _ s hs
  | insertItemsAfter ids item =>
    rw [SnapshotCall.perform, NSDiffableDataSourceSnapshot.insertItemsAfter]
    by_cases he : ids.length = 0
    · rw [if_pos he]
      exact hs
    · rw [if_neg he, get_bind]
      cases s.findItemIdentifier item with
      | none => exact appendItems_keepsDistinct defaultSection ids s hs
      | some place => exact insertItemsAt_keepsDistinct ids _ _ s hs
  | deleteItems ids =>
    change (ids.foldl deleteItem s).sections.Nodup
    induction ids generalizing s with
    | nil => exact hs
    | cons item ids ih => exact ih _ (by rwa [deleteItem_sections])

theorem snapshotAfter_nodup (defaultSection : S) (calls : List (SnapshotCall S I)) :
    (snapshotAfter defaultSection calls).sections.Nodup := by
  induction calls using List.reverseRecOn with
  | nil => exact List.nodup_nil
  | append_singleton calls call ih =>
    rw [snapshotAfter_snoc]
    exact perform_keepsDistinct defaultSection call _ ih

end Distinct

/-! ## The three traversals -/

/-- A table data source with a snapshot. -/
def showing (s : NSDiffableDataSourceSnapshot S I) : NSTableViewDiffableDataSource S I :=
  ⟨.rebuilt s⟩

/-- The row has its item in the concatenation of the sections, and a row outside has none. -/
def RowShown (d : NSTableViewDiffableDataSource S I) (row : Int) : Prop :=
  d.itemIdentifierForRow row =
    .ok (if 0 ≤ row ∧ row < d.numberOfRowsInTableView then d.snapshot.itemIdentifiers[row.toNat]? else none)

/-- The rows of the sections are reloaded. -/
def SectionsReloaded (d : NSTableViewDiffableDataSource S I) (numberOfColumns : Nat) (sectionIdentifiers : List S) : Prop :=
  Reloads (d.reloadSectionsWithIdentifiers numberOfColumns sectionIdentifiers)
    {row | ∃ x ∈ sectionIdentifiers, row ∈ rowsOfSection d.snapshot x}

/-- The rows with the items are reloaded. -/
def ItemsReloaded (d : NSTableViewDiffableDataSource S I) (numberOfColumns : Nat) (itemIdentifiers : List I) : Prop :=
  Reloads (d.reloadItemsWithIdentifiers numberOfColumns itemIdentifiers)
    {row | ∃ item ∈ itemIdentifiers, d.snapshot.itemIdentifiers[row]? = some item}

omit [DecidableEq I] in
theorem rowShown_iff (d : NSTableViewDiffableDataSource S I) (row : Int) :
    RowShown d row ↔ 0 ≤ row ∨ d.snapshot.sections = [] := by
  rw [RowShown]
  by_cases hn : row < 0
  · rw [if_neg (by omega), itemIdentifierForRow_neg d hn, or_iff_right (by omega)]
  · obtain ⟨i, rfl⟩ := Int.eq_ofNat_of_zero_le (not_lt.mp hn)
    rw [itemIdentifierForRow_natCast, Int.toNat_natCast]
    refine iff_of_true (congrArg _ ?_) (.inl (not_lt.mp hn))
    rw [numberOfRowsInTableView, numberOfItems_eq]
    split
    · rfl
    · exact List.getElem?_eq_none (by omega)

/-- For every snapshot that can be reached the traversals agree if and only if the row is not before the first one
(or there is no section) and no item to reload is there twice. -/
theorem rows_agree_iff (defaultSection : S) (calls : List (SnapshotCall S I)) (row : Int) (numberOfColumns : Nat)
    (sectionIdentifiers : List S) (itemIdentifiers : List I) :
    let d := showing (snapshotAfter defaultSection calls)
    (RowShown d row ∧ SectionsReloaded d numberOfColumns sectionIdentifiers ∧
        ItemsReloaded d numberOfColumns itemIdentifiers) ↔
      (0 ≤ row ∨ d.snapshot.sections = []) ∧
        ∀ item ∈ itemIdentifiers, d.snapshot.itemIdentifiers.count item ≤ 1 := by
  intro d
  have hs : SectionsReloaded d numberOfColumns sectionIdentifiers :=
    reloads_reloadData.mpr fun row =>
      (mem_sectionRowsToReload (snapshotAfter_nodup defaultSection calls) sectionIdentifiers row).symm
  have hits : ItemsReloaded d numberOfColumns itemIdentifiers ↔
      ∀ item ∈ itemIdentifiers, d.snapshot.itemIdentifiers.count item ≤ 1 := by
    rw [← firstRows_iff]
    refine reloads_reloadData.trans (forall_congr' fun row => ?_)
    rw [mem_itemRowsToReload]
    rfl
  rw [rowShown_iff, hits, and_iff_right hs]

/-- With a section the row before the first one raises. -/
theorem row_before_first_raises :
    ¬ RowShown (showing (snapshotAfter 0 [.appendItems [1]] : NSDiffableDataSourceSnapshot Nat Nat)) (-1) := by
  rw [RowShown]
  decide

end GnustepGui.DiffableDataSource
