import GnustepGui.DiffableDataSource.SnapshotIntegrity

/-!
# The diffable data sources of collection and table views

Both keep a snapshot and a dictionary from item identifiers to index paths, built again when a
snapshot is applied; but what is applied is a fresh snapshot, whatever the argument
(`collectionView_showsSnapshot_iff`, `tableView_showsSnapshot_iff`).
-/

namespace GnustepGui.DiffableDataSource

open NSDiffableDataSourceSnapshot

variable {S I : Type} [DecidableEq S] [DecidableEq I]

/-- The indexes of an index path. -/
abbrev NSIndexPath := List Nat

def indexPathForItem (item sectionIndex : Nat) : NSIndexPath := [sectionIndex, item]

/-- `copyWithZone:` -/
def NSDiffableDataSourceSnapshot.copy (s : NSDiffableDataSourceSnapshot S I) :
    NSDiffableDataSourceSnapshot S I :=
  ⟨s.sections, s.sections.foldl (fun copiedItems x =>
    match s.itemsBySection.lookup x with
    | none => copiedItems
    | some items => copiedItems.insert x items) ∅⟩

/-! ## What both data sources do -/

structure IndexedSnapshot (S I : Type) where
  snapshot : NSDiffableDataSourceSnapshot S I
  identifierToIndexPath : AList fun _ : I => NSIndexPath

namespace IndexedSnapshot

def rebuildIndexLookup (s : NSDiffableDataSourceSnapshot S I) : AList fun _ : I => NSIndexPath :=
  s.sections.zipIdx.foldl (fun lookup x =>
    (s.itemIdentifiersInSectionWithIdentifier x.1).zipIdx.foldl (fun lookup item =>
      lookup.insert item.1 (indexPathForItem item.2 x.2)) lookup) ∅

/-- A data source whose index lookup was built from its snapshot. -/
def rebuilt (s : NSDiffableDataSourceSnapshot S I) : IndexedSnapshot S I :=
  ⟨s, rebuildIndexLookup s⟩

def indexPathForItemIdentifier (d : IndexedSnapshot S I) (item : I) : Option NSIndexPath :=
  d.identifierToIndexPath.lookup item

def itemAt (d : IndexedSnapshot S I) (sectionIndex itemIndex : Nat) : Option I :=
  match d.snapshot.sections[sectionIndex]? with
  | none => none
  | some x => (d.snapshot.itemIdentifiersInSectionWithIdentifier x)[itemIndex]?

/-- `itemIdentifierForIndexPath:`; a path of fewer than two indexes stands for the first item. -/
def itemIdentifierForIndexPath (d : IndexedSnapshot S I) (indexPath : NSIndexPath) : Option I :=
  match indexPath with
  | sectionIndex :: itemIndex :: _ => d.itemAt sectionIndex itemIndex
  | _ => d.itemAt 0 0

def numberOfItemsInSection (d : IndexedSnapshot S I) (sectionIndex : Int) : Nat :=
  if sectionIndex < 0 then 0
  else
    match d.snapshot.sections[sectionIndex.toNat]? with
    | none => 0
    | some x => (d.snapshot.itemIdentifiersInSectionWithIdentifier x).length

end IndexedSnapshot

/-! ## The two classes -/

/-- `NSCollectionViewDiffableDataSource` -/
structure NSCollectionViewDiffableDataSource (S I : Type) extends IndexedSnapshot S I

namespace NSCollectionViewDiffableDataSource

def applySnapshot (_ : NSCollectionViewDiffableDataSource S I)
    (_ : NSDiffableDataSourceSnapshot S I) : NSCollectionViewDiffableDataSource S I :=
  ⟨.rebuilt .init⟩

def numberOfSectionsInCollectionView (d : NSCollectionViewDiffableDataSource S I) : Nat :=
  d.snapshot.numberOfSections

end NSCollectionViewDiffableDataSource

/-- `NSTableViewDiffableDataSource` -/
structure NSTableViewDiffableDataSource (S I : Type) extends IndexedSnapshot S I

namespace NSTableViewDiffableDataSource

def applySnapshot (_ : NSTableViewDiffableDataSource S I) (_ : NSDiffableDataSourceSnapshot S I) :
    NSTableViewDiffableDataSource S I :=
  ⟨.rebuilt .init⟩

/-- The loop of `itemIdentifierForRow:`; a negative index raises. -/
def itemIdentifierForRowLoop (s : NSDiffableDataSourceSnapshot S I) (row : Int) :
    List S → Int → Except ArrayException (Option I)
  | [], _ => .ok none
  | x :: rest, runningTotal =>
    let items := s.itemIdentifiersInSectionWithIdentifier x
    if row < runningTotal + items.length then
      if row < runningTotal then .error (.range (row - runningTotal).natAbs items.length)
      else .ok items[(row - runningTotal).toNat]?
    else itemIdentifierForRowLoop s row rest (runningTotal + items.length)

def itemIdentifierForRow (d : NSTableViewDiffableDataSource S I) (row : Int) :
    Except ArrayException (Option I) :=
  itemIdentifierForRowLoop d.snapshot row d.snapshot.sections 0

def numberOfRowsInTableView (d : NSTableViewDiffableDataSource S I) : Nat :=
  d.snapshot.numberOfItems

end NSTableViewDiffableDataSource

/-! ## The lookups are inverse -/

/-- The item is at the position of the snapshot. -/
def IsItemAt (s : NSDiffableDataSourceSnapshot S I) (sectionIndex itemIndex : Nat) (item : I) : Prop :=
  ∃ x, s.sections[sectionIndex]? = some x ∧
    (s.itemIdentifiersInSectionWithIdentifier x)[itemIndex]? = some item

/-! ## Applying a snapshot -/

/-- The data source shows the snapshot: sections, items, counts, and both lookups. -/
structure Shows (d : IndexedSnapshot S I) (s : NSDiffableDataSourceSnapshot S I) : Prop where
  sections : d.snapshot.copy.sections = s.sections
  items : ∀ x ∈ s.sections, d.snapshot.copy.itemIdentifiersInSectionWithIdentifier x =
    s.itemIdentifiersInSectionWithIdentifier x
  counts : ∀ (i : Nat) x, s.sections[i]? = some x →
    d.numberOfItemsInSection i = (s.itemIdentifiersInSectionWithIdentifier x).length
  path_item : ∀ i j item, IsItemAt s i j item →
    d.itemIdentifierForIndexPath (indexPathForItem j i) = some item ∧
      d.indexPathForItemIdentifier item = some (indexPathForItem j i)
  item_path : ∀ item path, d.indexPathForItemIdentifier item = some path →
    d.itemIdentifierForIndexPath path = some item

theorem shows_init_iff {s : NSDiffableDataSourceSnapshot S I} : Shows (.rebuilt .init) s ↔ s.sections = [] := by
  constructor
  · exact fun h => h.sections.symm
  · intro h
    have hn : ∀ item : I, (IndexedSnapshot.rebuilt (S := S) .init).indexPathForItemIdentifier
        item = none := fun item => rfl
    refine ⟨h.symm, ?_, ?_, ?_, ?_⟩
    · intro x hx
      rw [h] at hx
      cases hx
    · intro i x hx
      rw [h] at hx
      cases hx
    · rintro i j item ⟨x, hx, -⟩
      rw [h] at hx
      cases hx
    · intro item path hp
      rw [hn] at hp
      cases hp

namespace NSCollectionViewDiffableDataSource

/-- What is shown after `applySnapshot:animatingDifferences:`. -/
def ShowsSnapshot (d : NSCollectionViewDiffableDataSource S I)
    (s : NSDiffableDataSourceSnapshot S I) : Prop :=
  Shows d.toIndexedSnapshot s ∧ d.numberOfSectionsInCollectionView = s.numberOfSections

theorem showsSnapshot_iff (d : NSCollectionViewDiffableDataSource S I) (s : NSDiffableDataSourceSnapshot S I) :
    (d.applySnapshot s).ShowsSnapshot s ↔ s.sections = [] := by
  unfold ShowsSnapshot applySnapshot
  rw [shows_init_iff]
  refine and_iff_left_of_imp fun h => ?_
  simp [numberOfSectionsInCollectionView, numberOfSections, h, IndexedSnapshot.rebuilt, init]

end NSCollectionViewDiffableDataSource

namespace NSTableViewDiffableDataSource

/-- What is shown after `applySnapshot:animatingDifferences:`; the rows are all items in their
order. -/
def ShowsSnapshot (d : NSTableViewDiffableDataSource S I) (s : NSDiffableDataSourceSnapshot S I) :
    Prop :=
  Shows d.toIndexedSnapshot s ∧ d.numberOfRowsInTableView = s.numberOfItems ∧
    ∀ (row : Nat) item, s.itemIdentifiers[row]? = some item →
      d.itemIdentifierForRow row = .ok (some item)

theorem showsSnapshot_iff (d : NSTableViewDiffableDataSource S I) (s : NSDiffableDataSourceSnapshot S I) :
    (d.applySnapshot s).ShowsSnapshot s ↔ s.sections = [] := by
  unfold ShowsSnapshot applySnapshot
  rw [shows_init_iff]
  refine and_iff_left_of_imp fun h => ⟨?_, ?_⟩
  · simp [numberOfRowsInTableView, numberOfItems, h, IndexedSnapshot.rebuilt, init]
  · intro row item hr
    simp [itemIdentifiers, h] at hr

end NSTableViewDiffableDataSource

/-- Either data source shows the applied snapshot just when that has no sections. -/
theorem applySnapshot_shows_iff (c : NSCollectionViewDiffableDataSource S I)
    (t : NSTableViewDiffableDataSource S I) (s : NSDiffableDataSourceSnapshot S I) :
    ((c.applySnapshot s).ShowsSnapshot s ↔ s.sections = []) ∧
      ((t.applySnapshot s).ShowsSnapshot s ↔ s.sections = []) :=
  ⟨c.showsSnapshot_iff s, t.showsSnapshot_iff s⟩

/-- A snapshot of one section with one item, applied to fresh data sources. -/
theorem applySnapshot_shows_nothing :
    ¬ ((⟨.rebuilt .init⟩ : NSCollectionViewDiffableDataSource Nat Nat).applySnapshot
        ⟨[0], (∅ : AList fun _ : Nat => List Nat).insert 0 [1]⟩).ShowsSnapshot
        ⟨[0], (∅ : AList fun _ : Nat => List Nat).insert 0 [1]⟩ ∧
      ¬ ((⟨.rebuilt .init⟩ : NSTableViewDiffableDataSource Nat Nat).applySnapshot
        ⟨[0], (∅ : AList fun _ : Nat => List Nat).insert 0 [1]⟩).ShowsSnapshot
        ⟨[0], (∅ : AList fun _ : Nat => List Nat).insert 0 [1]⟩ := by
  constructor
  · exact fun h => absurd h.1.sections (by decide)
  · exact fun h => absurd h.1.sections (by decide)

end GnustepGui.DiffableDataSource
