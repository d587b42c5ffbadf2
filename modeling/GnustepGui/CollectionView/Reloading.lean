import GnustepGui.DiffableDataSource.DataSource

/-!
# Reloading a collection view

What a collection view keeps about its items, and the three ways to have them loaded. Frames, drawing, the
tracking views and the selection are left out.

`reloadData` starts from empty containers. The other two go straight to the step that only adds (`items_kept_iff`).
-/

namespace GnustepGui.CollectionView

open DiffableDataSource (NSIndexPath indexPathForItem)

variable {ι ν α : Type*}

/-- An item object: one of the data source, or one made in place of `nil`. -/
inductive NSCollectionViewItem (ι : Type*) where
  | answered (item : ι)
  | made (number : Nat)
  deriving DecidableEq

/-- An item's view: one of the data source, or one made with its item. -/
inductive ItemView (ν : Type*) where
  | answered (view : ν)
  | made (number : Nat)
  deriving DecidableEq

/-- `numberOfSections` is `none` where the data source does not implement it. -/
structure DataSource (ι : Type*) where
  numberOfSections : Option Int
  numberOfItemsInSection : Nat → Int
  itemForRepresentedObjectAtIndexPath : NSIndexPath → Option ι

/-- What a call finds the collection view connected to. The layout is given by its attributes. -/
structure Backing (ι α : Type*) where
  dataSource : Option (DataSource ι)
  collectionViewLayout : Option (NSIndexPath → α)

/-- `fetched` lists what the data source has been asked for, and `made` counts the items made in place of
`nil`. -/
structure NSCollectionView (ι ν α : Type*) where
  visibleItems : List (NSCollectionViewItem ι)
  itemsToIndexPaths : NSCollectionViewItem ι → Option NSIndexPath
  indexPathsToItems : NSIndexPath → Option (NSCollectionViewItem ι)
  itemsToAttributes : NSCollectionViewItem ι → Option α
  subviews : List (ItemView ν)
  allowReload : Bool
  fetched : List (NSIndexPath × NSCollectionViewItem ι)
  made : Nat

def initial (ι ν α : Type*) : NSCollectionView ι ν α where
  visibleItems := []
  itemsToIndexPaths := fun _ => none
  indexPathsToItems := fun _ => none
  itemsToAttributes := fun _ => none
  subviews := []
  allowReload := true
  fetched := []
  made := 0

/-- `[item view]`, after a nib has been tried. -/
def NSCollectionViewItem.view (view : ι → Option ν) : NSCollectionViewItem ι → Option (ItemView ν)
  | .answered item => (view item).map .answered
  | .made number => some (.made number)

namespace Backing

variable (backing : Backing ι α)

def numberOfSections : Int :=
  match backing.dataSource with
  | none => 0
  | some dataSource => dataSource.numberOfSections.getD 1

def numberOfItemsInSection (sectionIndex : Nat) : Int :=
  match backing.dataSource with
  | none => 0
  | some dataSource => dataSource.numberOfItemsInSection sectionIndex

def itemForRepresentedObject (path : NSIndexPath) : Option ι :=
  backing.dataSource.bind (·.itemForRepresentedObjectAtIndexPath path)

/-- The data source's item, or one made in place of `nil`, and how many have been made then. -/
def itemFor (made : Nat) (path : NSIndexPath) : NSCollectionViewItem ι × Nat :=
  match backing.itemForRepresentedObject path with
  | some item => (.answered item, made)
  | none => (.made made, made + 1)

/-- The index paths of one section. -/
def pathsInSection (sectionIndex : Nat) : List NSIndexPath :=
  (List.range (backing.numberOfItemsInSection sectionIndex).toNat).map (indexPathForItem · sectionIndex)

/-- The index paths of all sections. -/
def paths : List NSIndexPath :=
  (List.range backing.numberOfSections.toNat).flatMap backing.pathsInSection

end Backing

namespace NSCollectionView

variable [DecidableEq ι] [DecidableEq ν] (view : ι → Option ν) (backing : Backing ι α)
variable (collection : NSCollectionView ι ν α)

/-! ## Loading -/

/-- `makeItemWithIdentifier:forIndexPath:` -/
def makeItem (path : NSIndexPath) : NSCollectionView ι ν α × NSCollectionViewItem ι :=
  let (item, made) := backing.itemFor collection.made path
  ({ collection with
      itemsToIndexPaths := Function.update collection.itemsToIndexPaths item (some path)
      indexPathsToItems := Function.update collection.indexPathsToItems path (some item)
      fetched := collection.fetched ++ [(path, item)]
      made := made }, item)

/-- `addSubview:`, which moves a view that is there already to the end. -/
def addSubview (subviews : List (ItemView ν)) (view : ItemView ν) : List (ItemView ν) :=
  subviews.erase view ++ [view]

/-- What `_loadItemAtIndexPath:` does with the item. -/
def showItem (path : NSIndexPath) (item : NSCollectionViewItem ι) : NSCollectionView ι ν α :=
  match item.view view with
  | none => collection
  | some itemView =>
    let collection := { collection with visibleItems := collection.visibleItems ++ [item] }
    match backing.collectionViewLayout with
    | none => collection
    | some layoutAttributesForItemAtIndexPath =>
      { collection with
        itemsToAttributes := Function.update collection.itemsToAttributes item
          (some (layoutAttributesForItemAtIndexPath path))
        subviews := addSubview collection.subviews itemView }

def loadItemAtIndexPath (path : NSIndexPath) : NSCollectionView ι ν α :=
  let made := collection.makeItem backing path
  made.1.showItem view backing path made.2

def loadSectionAtIndex (cs : Nat) : NSCollectionView ι ν α :=
  (List.range (backing.numberOfItemsInSection cs).toNat).foldl
    (fun collection ci => collection.loadItemAtIndexPath view backing (indexPathForItem ci cs)) collection

def clearMaps : NSCollectionView ι ν α :=
  { collection with
    visibleItems := []
    itemsToIndexPaths := fun _ => none
    indexPathsToItems := fun _ => none
    itemsToAttributes := fun _ => none
    subviews := [] }

/-! ## The three calls -/

def reloadData : NSCollectionView ι ν α :=
  if collection.allowReload then
    let ns := backing.numberOfSections
    if ns = 0 then collection
    else
      let collection := { collection with allowReload := false }.clearMaps
      let collection := (List.range ns.toNat).foldl (·.loadSectionAtIndex view backing) collection
      { collection with allowReload := true }
  else collection

/-- `getIndexes:maxCount:inIndexRange:` fills the buffer that it is given. -/
def getIndexes (indexes : Finset Nat) (buffer : Option (List Nat)) : Option (List Nat) :=
  buffer.map fun _ => indexes.sort (· ≤ ·)

/-- The buffer is `NULL`. -/
def reloadSections (indexes : Finset Nat) : NSCollectionView ι ν α :=
  match getIndexes indexes none with
  | none => collection
  | some buffer => buffer.foldl (·.loadSectionAtIndex view backing) collection

/-- The set is given in the order in which it is enumerated. -/
def reloadItemsAtIndexPaths (indexPaths : {paths : List NSIndexPath // paths.Nodup}) : NSCollectionView ι ν α :=
  indexPaths.1.foldl (·.loadItemAtIndexPath view backing) collection

end NSCollectionView

/-! ## What the calls are for -/

inductive Call where
  | reloadData
  | reloadSections (indexes : Finset Nat)
  | reloadItemsAtIndexPaths (indexPaths : {paths : List NSIndexPath // paths.Nodup})

/-- A call, and what it finds the collection view connected to. -/
structure Step (ι α : Type*) where
  backing : Backing ι α
  call : Call

namespace Step

/-- The paths that the call is to load, of those that the data source has. -/
def reloaded (step : Step ι α) : List NSIndexPath :=
  match step.call with
  | .reloadData => step.backing.paths
  | .reloadSections indexes => step.backing.paths.filter fun path => ∃ cs ∈ indexes, path.head? = some cs
  | .reloadItemsAtIndexPaths indexPaths => indexPaths.1

/-- The loaded paths that the call is to leave alone. -/
def Spares (step : Step ι α) (path : NSIndexPath) : Prop :=
  match step.call with
  | .reloadData => False
  | .reloadSections indexes => ∀ cs ∈ indexes, path.head? ≠ some cs
  | .reloadItemsAtIndexPaths _ => True

/-- The paths that are loaded after the call. -/
def loaded (step : Step ι α) (before : Set NSIndexPath) : Set NSIndexPath :=
  {path | path ∈ before ∧ step.Spares path ∨ path ∈ step.reloaded}

/-- The data source has the sections and the paths that the call names. -/
def Valid (step : Step ι α) : Prop :=
  match step.call with
  | .reloadData => True
  | .reloadSections indexes => ∀ cs ∈ indexes, cs < step.backing.numberOfSections.toNat
  | .reloadItemsAtIndexPaths indexPaths => ∀ path ∈ indexPaths.1, path ∈ step.backing.paths

def perform [DecidableEq ι] [DecidableEq ν] (view : ι → Option ν) (step : Step ι α)
    (collection : NSCollectionView ι ν α) : NSCollectionView ι ν α :=
  match step.call with
  | .reloadData => collection.reloadData view step.backing
  | .reloadSections indexes => collection.reloadSections view step.backing indexes
  | .reloadItemsAtIndexPaths indexPaths => collection.reloadItemsAtIndexPaths view step.backing indexPaths

end Step

/-- The containers agree on one item for each of the loaded paths. -/
structure Coherent (view : ι → Option ν) (loaded : Set NSIndexPath) (collection : NSCollectionView ι ν α) :
    Prop where
  nodup : collection.visibleItems.Nodup
  mem_visible : ∀ item, item ∈ collection.visibleItems ↔
    ∃ path ∈ loaded, collection.indexPathsToItems path = some item
  isSome_iff : ∀ path, (collection.indexPathsToItems path).isSome ↔ path ∈ loaded
  inverse : ∀ item path, collection.itemsToIndexPaths item = some path ↔
    collection.indexPathsToItems path = some item
  view_mem : ∀ item ∈ collection.visibleItems, ∃ itemView ∈ collection.subviews, item.view view = some itemView
  mem_subviews : ∀ itemView ∈ collection.subviews, ∃ item ∈ collection.visibleItems,
    item.view view = some itemView

/-- Every path that the call is to load has been asked for, and has the item that was answered. -/
def FetchedAgain (step : Step ι α) (before after : NSCollectionView ι ν α) : Prop :=
  ∀ path ∈ step.reloaded, ∃ item, (path, item) ∈ after.fetched.drop before.fetched.length ∧
    after.indexPathsToItems path = some item

/-- What a call is to leave. -/
def Kept [DecidableEq ι] [DecidableEq ν] (view : ι → Option ν) (step : Step ι α)
    (collection : NSCollectionView ι ν α) (loaded : Set NSIndexPath) : Prop :=
  Coherent view (step.loaded loaded) (step.perform view collection) ∧
    FetchedAgain step collection (step.perform view collection)

/-- The item objects for the paths are new, and their views can be shown. -/
structure Loadable (view : ι → Option ν) (backing : Backing ι α) (paths : List NSIndexPath)
    (collection : NSCollectionView ι ν α) : Prop where
  path_new : ∀ path ∈ paths, collection.indexPathsToItems path = none
  item_new : ∀ path ∈ paths, ∀ item, backing.itemForRepresentedObject path = some item →
    collection.itemsToIndexPaths (.answered item) = none
  item_once : ∀ path ∈ paths, ∀ path' ∈ paths, ∀ item, backing.itemForRepresentedObject path = some item →
    backing.itemForRepresentedObject path' = some item → path = path'
  has_view : ∀ path ∈ paths, ∀ item, backing.itemForRepresentedObject path = some item → (view item).isSome
  shown : backing.collectionViewLayout = none → ∀ path ∈ paths, ∃ item itemView,
    backing.itemForRepresentedObject path = some item ∧ view item = some itemView ∧
      .answered itemView ∈ collection.subviews

/-- The condition on a step: a call that only adds has nothing to take out first, and there is nothing
loaded where the data source has no sections. -/
def Fits (view : ι → Option ν) (step : Step ι α) (collection : NSCollectionView ι ν α)
    (loaded : Set NSIndexPath) : Prop :=
  match step.call with
  | .reloadData =>
    (step.backing.numberOfSections = 0 → ∀ path, path ∉ loaded) ∧
      Loadable view step.backing step.backing.paths (initial ι ν α)
  | .reloadSections indexes => ∀ cs ∈ indexes,
    step.backing.pathsInSection cs = [] ∧ ∀ path ∈ loaded, path.head? ≠ some cs
  | .reloadItemsAtIndexPaths indexPaths => Loadable view step.backing indexPaths.1 collection

/-- A condition on every step of a run, with the state and the loaded paths before it. -/
def Along [DecidableEq ι] [DecidableEq ν] (view : ι → Option ν)
    (condition : Step ι α → NSCollectionView ι ν α → Set NSIndexPath → Prop) :
    NSCollectionView ι ν α → Set NSIndexPath → List (Step ι α) → Prop
  | _, _, [] => True
  | collection, loaded, step :: steps =>
    condition step collection loaded ∧ Along view condition (step.perform view collection) (step.loaded loaded) steps

/-! ## What loading adds -/

section Fetch

variable {backing : Backing ι α} {made : Nat} {path : NSIndexPath} {paths : List NSIndexPath}
variable {item : NSCollectionViewItem ι}

/-- What the data source answers for a list of paths, after `made` items in place of `nil`. -/
def fetch (backing : Backing ι α) : Nat → List NSIndexPath → List (NSIndexPath × NSCollectionViewItem ι)
  | _, [] => []
  | made, path :: paths =>
    (path, (backing.itemFor made path).1) :: fetch backing (backing.itemFor made path).2 paths

variable (backing) in
theorem map_fst_fetch (made : Nat) (paths : List NSIndexPath) : (fetch backing made paths).map Prod.fst = paths := by
  induction paths generalizing made with
  | nil => rfl
  | cons path paths ih => exact congrArg _ (ih _)

theorem mem_of_mem_fetch (h : (path, item) ∈ fetch backing made paths) : path ∈ paths := by
  rw [← map_fst_fetch backing made paths]
  exact List.mem_map_of_mem h

variable (backing made) in
theorem exists_mem_fetch (h : path ∈ paths) : ∃ item, (path, item) ∈ fetch backing made paths := by
  rw [← map_fst_fetch backing made paths] at h
  obtain ⟨⟨path, item⟩, hm, rfl⟩ := List.mem_map.mp h
  exact ⟨item, hm⟩

theorem le_itemFor (made : Nat) (path : NSIndexPath) : made ≤ (backing.itemFor made path).2 := by
  unfold Backing.itemFor
  split
  · exact le_rfl
  · exact Nat.le_succ made

theorem itemFor_eq_made {number : Nat} (h : (backing.itemFor made path).1 = .made number) :
    backing.itemForRepresentedObject path = none ∧ number = made ∧ (backing.itemFor made path).2 = made + 1 := by
  unfold Backing.itemFor at h ⊢
  split at h
  · exact nomatch h
  · rename_i hn
    cases h
    exact ⟨hn, rfl, rfl⟩

theorem itemFor_eq_answered {answer : ι} (h : (backing.itemFor made path).1 = .answered answer) :
    backing.itemForRepresentedObject path = some answer := by
  unfold Backing.itemFor at h
  split at h
  · rename_i hs
    cases h
    exact hs
  · exact nomatch h

theorem answered_of_mem_fetch {answer : ι} (h : (path, .answered answer) ∈ fetch backing made paths) :
    backing.itemForRepresentedObject path = some answer := by
  induction paths generalizing made with
  | nil => exact absurd h List.not_mem_nil
  | cons first paths ih =>
    obtain heq | h := List.mem_cons.mp h
    · obtain ⟨rfl, hit⟩ := Prod.mk.inj heq
      exact itemFor_eq_answered hit.symm
    · exact ih h

theorem made_of_mem_fetch {number : Nat} (h : (path, .made number) ∈ fetch backing made paths) :
    backing.itemForRepresentedObject path = none ∧ made ≤ number := by
  induction paths generalizing made with
  | nil => exact absurd h List.not_mem_nil
  | cons first paths ih =>
    obtain heq | h := List.mem_cons.mp h
    · obtain ⟨rfl, hit⟩ := Prod.mk.inj heq
      obtain ⟨hn, rfl, -⟩ := itemFor_eq_made hit.symm
      exact ⟨hn, le_rfl⟩
    · obtain ⟨hn, hle⟩ := ih h
      exact ⟨hn, (le_itemFor made first).trans hle⟩

theorem made_inj_of_mem_fetch {number : Nat} {path' : NSIndexPath} (h : (path, .made number) ∈ fetch backing made paths)
    (h' : (path', .made number) ∈ fetch backing made paths) : path = path' := by
  induction paths generalizing made with
  | nil => exact absurd h List.not_mem_nil
  | cons first paths ih =>
    -- The number that is given out here is below all later ones.
    have hn {path : NSIndexPath} (hit : (backing.itemFor made first).1 = .made number) :
        (path, .made number) ∉ fetch backing (backing.itemFor made first).2 paths := fun hm => by
      obtain ⟨-, rfl, hnx⟩ := itemFor_eq_made hit
      have hle := (made_of_mem_fetch hm).2
      omega
    obtain heq | h := List.mem_cons.mp h <;> obtain heq' | h' := List.mem_cons.mp h'
    · exact (Prod.mk.inj heq).1.trans (Prod.mk.inj heq').1.symm
    · exact absurd h' (hn (Prod.mk.inj heq).2.symm)
    · exact absurd h (hn (Prod.mk.inj heq').2.symm)
    · exact ih h h'

end Fetch

/-- `after` is `before` with the items of `new` loaded. -/
structure Adds (view : ι → Option ν) (backing : Backing ι α)
    (new : List (NSIndexPath × NSCollectionViewItem ι)) (before after : NSCollectionView ι ν α) : Prop where
  visibleItems : after.visibleItems =
    before.visibleItems ++ (new.map Prod.snd).filter fun item => (item.view view).isSome
  fetched : after.fetched = before.fetched ++ new
  allowReload : after.allowReload = before.allowReload
  path_new : ∀ path item, (path, item) ∈ new → after.indexPathsToItems path = some item
  path_old : ∀ path, path ∉ new.map Prod.fst → after.indexPathsToItems path = before.indexPathsToItems path
  item_new : ∀ item ∈ new.map Prod.snd, ∃ path, (path, item) ∈ new ∧ after.itemsToIndexPaths item = some path
  item_old : ∀ item, item ∉ new.map Prod.snd → after.itemsToIndexPaths item = before.itemsToIndexPaths item
  mem_subviews : ∀ itemView, itemView ∈ after.subviews ↔ itemView ∈ before.subviews ∨
    backing.collectionViewLayout.isSome ∧ ∃ item ∈ new.map Prod.snd, item.view view = some itemView
  made_le : before.made ≤ after.made
  made_lt : ∀ number, .made number ∈ new.map Prod.snd → number < after.made

section Adds

variable {view : ι → Option ν} {backing : Backing ι α}
variable {collection before middle after : NSCollectionView ι ν α}
variable {new : List (NSIndexPath × NSCollectionViewItem ι)} {path : NSIndexPath} {item : NSCollectionViewItem ι}

open NSCollectionView

theorem mem_addSubview [DecidableEq ν] {subviews : List (ItemView ν)} {itemView added : ItemView ν} :
    itemView ∈ addSubview subviews added ↔ itemView ∈ subviews ∨ itemView = added := by
  rw [addSubview, List.mem_append, List.mem_singleton]
  by_cases heq : itemView = added
  · simp only [heq, or_true]
  · simp only [heq, or_false, List.mem_erase_of_ne heq]

theorem Adds.nil (collection : NSCollectionView ι ν α) : Adds view backing [] collection collection where
  visibleItems := (List.append_nil _).symm
  fetched := (List.append_nil _).symm
  allowReload := rfl
  path_new := fun _ _ h => absurd h List.not_mem_nil
  path_old := fun _ _ => rfl
  item_new := fun _ h => absurd h List.not_mem_nil
  item_old := fun _ _ => rfl
  mem_subviews := fun itemView => by simp
  made_le := le_rfl
  made_lt := fun _ h => absurd h List.not_mem_nil

/-- One item, then others at other paths. -/
theorem Adds.cons (hf : Adds view backing [(path, item)] before middle)
    (hrs : Adds view backing new middle after) (hn : path ∉ new.map Prod.fst) :
    Adds view backing ((path, item) :: new) before after where
  visibleItems := by
    rw [hrs.visibleItems, hf.visibleItems, List.append_assoc, ← List.filter_append]
    rfl
  fetched := by rw [hrs.fetched, hf.fetched, List.append_assoc, List.singleton_append]
  allowReload := hrs.allowReload.trans hf.allowReload
  path_new := by
    intro path' item' hm
    obtain heq | hm := List.mem_cons.mp hm
    · obtain ⟨rfl, rfl⟩ := Prod.mk.inj heq
      rw [hrs.path_old _ hn]
      exact hf.path_new _ _ (List.mem_singleton_self _)
    · exact hrs.path_new _ _ hm
  path_old := by
    intro path' hm
    rw [List.map_cons, List.mem_cons, not_or] at hm
    rw [hrs.path_old _ hm.2]
    exact hf.path_old _ (by simpa using hm.1)
  item_new := by
    intro item' hm
    by_cases hr : item' ∈ new.map Prod.snd
    · obtain ⟨path', hm', heq⟩ := hrs.item_new _ hr
      exact ⟨path', List.mem_cons_of_mem _ hm', heq⟩
    · obtain rfl : item' = item := (List.mem_cons.mp hm).resolve_right hr
      obtain ⟨path', hm', heq⟩ := hf.item_new item' (List.mem_singleton_self _)
      exact ⟨path', List.mem_cons.mpr (.inl (List.mem_singleton.mp hm')), by rw [hrs.item_old _ hr, heq]⟩
  item_old := by
    intro item' hm
    rw [List.map_cons, List.mem_cons, not_or] at hm
    rw [hrs.item_old _ hm.2]
    exact hf.item_old _ (by simpa using hm.1)
  mem_subviews := by
    intro itemView
    rw [hrs.mem_subviews, hf.mem_subviews]
    simp only [List.map_cons, List.map_nil, List.mem_cons, List.not_mem_nil, or_false, exists_eq_or_imp, exists_eq_left]
    tauto
  made_le := hf.made_le.trans hrs.made_le
  made_lt := by
    intro number hm
    obtain heq | hm := List.mem_cons.mp hm
    · exact (hf.made_lt number (heq ▸ List.mem_singleton_self _)).trans_le hrs.made_le
    · exact hrs.made_lt number hm

variable [DecidableEq ι] [DecidableEq ν]

variable (view backing) in
theorem showItem_maps (collection : NSCollectionView ι ν α) (path : NSIndexPath) (item : NSCollectionViewItem ι) :
    (collection.showItem view backing path item).itemsToIndexPaths = collection.itemsToIndexPaths ∧
      (collection.showItem view backing path item).indexPathsToItems = collection.indexPathsToItems ∧
      (collection.showItem view backing path item).allowReload = collection.allowReload ∧
      (collection.showItem view backing path item).fetched = collection.fetched ∧
      (collection.showItem view backing path item).made = collection.made := by
  unfold showItem
  cases item.view view with
  | none => exact ⟨rfl, rfl, rfl, rfl, rfl⟩
  | some itemView => cases backing.collectionViewLayout <;> exact ⟨rfl, rfl, rfl, rfl, rfl⟩

theorem showItem_visibleItems (collection : NSCollectionView ι ν α) (path : NSIndexPath)
    (item : NSCollectionViewItem ι) : (collection.showItem view backing path item).visibleItems =
      collection.visibleItems ++ [item].filter fun item => (item.view view).isSome := by
  unfold showItem
  cases hv : item.view view with
  | none =>
    rw [List.filter_cons_of_neg (by rw [hv]; exact Bool.false_ne_true)]
    exact (List.append_nil _).symm
  | some itemView =>
    rw [List.filter_cons_of_pos (by rw [hv]; rfl)]
    cases backing.collectionViewLayout <;> rfl

theorem mem_showItem_subviews {itemView : ItemView ν} :
    itemView ∈ (collection.showItem view backing path item).subviews ↔ itemView ∈ collection.subviews ∨
      backing.collectionViewLayout.isSome ∧ item.view view = some itemView := by
  unfold showItem
  cases item.view view with
  | none => simp
  | some shown =>
    cases backing.collectionViewLayout with
    | none => simp
    | some attributes => simp [mem_addSubview, eq_comm]

theorem loadItem_adds (collection : NSCollectionView ι ν α) (path : NSIndexPath) :
    Adds view backing [(path, (backing.itemFor collection.made path).1)] collection
      (collection.loadItemAtIndexPath view backing path) := by
  obtain ⟨hits, hp, ha, hf, hmd⟩ := showItem_maps view backing
    (collection.makeItem backing path).1 path (collection.makeItem backing path).2
  refine ⟨showItem_visibleItems _ path _, hf, ha, ?_, ?_, ?_, ?_, ?_, ?_, ?_⟩
  · intro path' item hm
    obtain ⟨rfl, rfl⟩ := Prod.mk.inj (List.mem_singleton.mp hm)
    exact (congrFun hp _).trans (Function.update_self ..)
  · intro path' hm
    exact (congrFun hp _).trans (Function.update_of_ne (List.ne_of_not_mem_cons hm) ..)
  · intro item hm
    obtain rfl := List.mem_singleton.mp hm
    exact ⟨path, List.mem_singleton_self _, (congrFun hits _).trans (Function.update_self ..)⟩
  · intro item hm
    exact (congrFun hits _).trans (Function.update_of_ne (List.ne_of_not_mem_cons hm) ..)
  · intro itemView
    refine mem_showItem_subviews.trans ?_
    simp only [List.map_cons, List.map_nil, List.mem_singleton, exists_eq_left]
    rfl
  · exact (le_itemFor _ _).trans_eq hmd.symm
  · intro number hm
    obtain ⟨-, rfl, hn⟩ := itemFor_eq_made (List.mem_singleton.mp hm).symm
    exact (Nat.lt_succ_self _).trans_eq (hn.symm.trans hmd.symm)

theorem loadItem_made (collection : NSCollectionView ι ν α) (path : NSIndexPath) :
    (collection.loadItemAtIndexPath view backing path).made = (backing.itemFor collection.made path).2 :=
  (showItem_maps _ _ _ _ _).2.2.2.2

variable (view backing) in
theorem load_adds (collection : NSCollectionView ι ν α) {paths : List NSIndexPath} (hnd : paths.Nodup) :
    Adds view backing (fetch backing collection.made paths) collection
      (paths.foldl (·.loadItemAtIndexPath view backing) collection) := by
  induction paths generalizing collection with
  | nil => exact .nil collection
  | cons path paths ih =>
    obtain ⟨hn, hnd⟩ := List.nodup_cons.mp hnd
    have hr := ih (collection.loadItemAtIndexPath view backing path) hnd
    rw [loadItem_made] at hr
    exact (loadItem_adds collection path).cons hr (by rwa [map_fst_fetch])

end Adds

/-! ## When the containers agree -/

/-- The items made in place of `nil` that are shown have been counted. -/
def Fresh (collection : NSCollectionView ι ν α) : Prop :=
  ∀ number, .made number ∈ collection.visibleItems → number < collection.made

section Agreement

variable {view : ι → Option ν} {backing : Backing ι α} {loaded : Set NSIndexPath}
variable {before after : NSCollectionView ι ν α} {paths : List NSIndexPath}
variable {new : List (NSIndexPath × NSCollectionViewItem ι)}

theorem Adds.fresh (hadds : Adds view backing new before after) (hfresh : Fresh before) : Fresh after := by
  intro number hm
  rw [hadds.visibleItems, List.mem_append, List.mem_filter] at hm
  obtain hm | hm := hm
  · exact (hfresh number hm).trans_le hadds.made_le
  · exact hadds.made_lt number hm.1

theorem Coherent.not_mem_visible {item : NSCollectionViewItem ι} (hcoherent : Coherent view loaded before)
    (h : before.itemsToIndexPaths item = none) : item ∉ before.visibleItems := by
  intro hm
  obtain ⟨path, -, hp⟩ := (hcoherent.mem_visible item).mp hm
  exact nomatch h.symm.trans ((hcoherent.inverse item path).mpr hp)

section Fetched

variable (hcoherent : Coherent view loaded before) (hfresh : Fresh before)
variable (hadds : Adds view backing (fetch backing before.made paths) before after)

include hcoherent hfresh in
/-- What is fetched for loadable paths is not shown yet. -/
theorem Loadable.not_mem_visible (hl : Loadable view backing paths before) {path : NSIndexPath}
    {item : NSCollectionViewItem ι} (hm : (path, item) ∈ fetch backing before.made paths) :
    item ∉ before.visibleItems := by
  cases item with
  | answered answer =>
    exact hcoherent.not_mem_visible (hl.item_new path (mem_of_mem_fetch hm) answer (answered_of_mem_fetch hm))
  | made number =>
    intro hv
    exact absurd (hfresh number hv) (not_lt.mpr (made_of_mem_fetch hm).2)

theorem Loadable.path_unique (hl : Loadable view backing paths before) {path path' : NSIndexPath}
    {item : NSCollectionViewItem ι} (hm : (path, item) ∈ fetch backing before.made paths)
    (hm' : (path', item) ∈ fetch backing before.made paths) : path = path' := by
  cases item with
  | answered answer =>
    exact hl.item_once path (mem_of_mem_fetch hm) path' (mem_of_mem_fetch hm') answer
      (answered_of_mem_fetch hm) (answered_of_mem_fetch hm')
  | made number => exact made_inj_of_mem_fetch hm hm'

theorem Loadable.view_isSome (hl : Loadable view backing paths before) {path : NSIndexPath}
    {item : NSCollectionViewItem ι} (hm : (path, item) ∈ fetch backing before.made paths) :
    (item.view view).isSome := by
  cases item with
  | answered answer =>
    have hs := hl.has_view path (mem_of_mem_fetch hm) answer (answered_of_mem_fetch hm)
    rw [NSCollectionViewItem.view, Option.isSome_map]
    exact hs
  | made number => rfl

include hadds in
theorem Adds.path_some {path : NSIndexPath} (hm : path ∈ paths) :
    ∃ item, (path, item) ∈ fetch backing before.made paths ∧ after.indexPathsToItems path = some item := by
  obtain ⟨item, hit⟩ := exists_mem_fetch backing before.made hm
  exact ⟨item, hit, hadds.path_new path item hit⟩

include hadds in
theorem Adds.path_other {path : NSIndexPath} (hm : path ∉ paths) :
    after.indexPathsToItems path = before.indexPathsToItems path := hadds.path_old path (by rwa [map_fst_fetch])

theorem Coherent.mem_of_eq_some {path : NSIndexPath} {item : NSCollectionViewItem ι}
    (hcoherent : Coherent view loaded before) (h : before.indexPathsToItems path = some item) :
    item ∈ before.visibleItems :=
  (hcoherent.mem_visible item).mpr ⟨path, (hcoherent.isSome_iff path).mp (Option.isSome_of_eq_some h), h⟩

include hadds in
theorem Adds.view_mem_of_loadable (hl : Loadable view backing paths before) {item : NSCollectionViewItem ι}
    (hit : item ∈ (fetch backing before.made paths).map Prod.snd) :
    ∃ itemView ∈ after.subviews, item.view view = some itemView := by
  obtain ⟨⟨path, item⟩, hm, rfl⟩ := List.mem_map.mp hit
  cases hlay : backing.collectionViewLayout with
  | some layout =>
    obtain ⟨itemView, hv⟩ := Option.isSome_iff_exists.mp (hl.view_isSome hm)
    refine ⟨itemView, (hadds.mem_subviews itemView).mpr (.inr ⟨?_, item, hit, hv⟩), hv⟩
    rw [hlay]
    rfl
  | none =>
    obtain ⟨answer, itemView, ha, hv, hs⟩ := hl.shown hlay path (mem_of_mem_fetch hm)
    cases item with
    | answered answer' =>
      obtain rfl := Option.some.inj ((answered_of_mem_fetch hm).symm.trans ha)
      refine ⟨.answered itemView, (hadds.mem_subviews _).mpr (.inl hs), ?_⟩
      rw [NSCollectionViewItem.view, hv]
      rfl
    | made number => exact nomatch (made_of_mem_fetch hm).1.symm.trans ha

include hcoherent hfresh hadds in
theorem Adds.inverse (hl : Loadable view backing paths before) (item : NSCollectionViewItem ι)
    (path : NSIndexPath) : after.itemsToIndexPaths item = some path ↔ after.indexPathsToItems path = some item := by
  by_cases hn : item ∈ (fetch backing before.made paths).map Prod.snd
  · obtain ⟨path', hm', heq'⟩ := hadds.item_new item hn
    constructor
    · intro heq
      obtain rfl := Option.some.inj (heq'.symm.trans heq)
      exact hadds.path_new path' item hm'
    · intro heq
      by_cases hp : path ∈ paths
      · obtain ⟨item', hit', hs⟩ := hadds.path_some hp
        obtain rfl := Option.some.inj (hs.symm.trans heq)
        rw [heq', hl.path_unique hm' hit']
      · rw [hadds.path_other hp] at heq
        exact absurd (hcoherent.mem_of_eq_some heq) (hl.not_mem_visible hcoherent hfresh hm')
  · rw [hadds.item_old item hn, hcoherent.inverse]
    by_cases hp : path ∈ paths
    · obtain ⟨item', hit', hs⟩ := hadds.path_some hp
      rw [hl.path_new path hp, hs]
      refine ⟨fun heq => (nomatch heq), fun heq => absurd ?_ hn⟩
      exact Option.some.inj heq ▸ List.mem_map_of_mem hit'
    · rw [hadds.path_other hp]

include hcoherent hfresh hadds in
theorem Adds.coherent (hnd : paths.Nodup) (hl : Loadable view backing paths before) :
    Coherent view {path | path ∈ loaded ∨ path ∈ paths} after := by
  have hf : ((fetch backing before.made paths).map Prod.snd).filter (fun item => (item.view view).isSome) =
      (fetch backing before.made paths).map Prod.snd := by
    refine List.filter_eq_self.mpr fun item hit => ?_
    obtain ⟨⟨path, item⟩, hm, rfl⟩ := List.mem_map.mp hit
    exact hl.view_isSome hm
  have hv := hadds.visibleItems
  rw [hf] at hv
  refine ⟨?_, fun item => ?_, fun path => ?_, hadds.inverse hcoherent hfresh hl, ?_, ?_⟩
  · rw [hv]
    refine hcoherent.nodup.append ?_ ?_
    · refine List.Nodup.map_on ?_ (List.Nodup.of_map Prod.fst (by rwa [map_fst_fetch]))
      rintro ⟨path, item⟩ hm ⟨path', _⟩ hm' rfl
      rw [hl.path_unique hm hm']
    · intro item ho hn
      obtain ⟨⟨path, item⟩, hm, rfl⟩ := List.mem_map.mp hn
      exact hl.not_mem_visible hcoherent hfresh hm ho
  · rw [hv, List.mem_append, hcoherent.mem_visible]
    constructor
    · rintro (⟨path, hp, heq⟩ | hn)
      · have hother : path ∉ paths := fun h => nomatch (hl.path_new path h).symm.trans heq
        exact ⟨path, .inl hp, (hadds.path_other hother).trans heq⟩
      · obtain ⟨⟨path, item⟩, hm, rfl⟩ := List.mem_map.mp hn
        exact ⟨path, .inr (mem_of_mem_fetch hm), hadds.path_new path item hm⟩
    · rintro ⟨path, hp, heq⟩
      by_cases hm : path ∈ paths
      · obtain ⟨item', hit', hs⟩ := hadds.path_some hm
        obtain rfl := Option.some.inj (hs.symm.trans heq)
        exact .inr (List.mem_map_of_mem hit')
      · rw [hadds.path_other hm] at heq
        exact .inl ⟨path, hp.resolve_right hm, heq⟩
  · by_cases hm : path ∈ paths
    · obtain ⟨item, -, hs⟩ := hadds.path_some hm
      exact ⟨fun _ => .inr hm, fun _ => Option.isSome_of_eq_some hs⟩
    · rw [hadds.path_other hm, hcoherent.isSome_iff]
      exact ⟨.inl, fun h => h.resolve_right hm⟩
  · intro item hit
    rw [hv, List.mem_append] at hit
    obtain ho | hn := hit
    · obtain ⟨itemView, hm, heq⟩ := hcoherent.view_mem item ho
      exact ⟨itemView, (hadds.mem_subviews itemView).mpr (.inl hm), heq⟩
    · exact hadds.view_mem_of_loadable hl hn
  · intro itemView hm
    rw [hv]
    obtain ho | ⟨-, item, hit, heq⟩ := (hadds.mem_subviews itemView).mp hm
    · obtain ⟨item, hit, heq⟩ := hcoherent.mem_subviews itemView ho
      exact ⟨item, List.mem_append_left _ hit, heq⟩
    · exact ⟨item, List.mem_append_right _ hit, heq⟩

include hcoherent hadds in
theorem Adds.loadable (ha : Coherent view {path | path ∈ loaded ∨ path ∈ paths} after) :
    Loadable view backing paths before := by
  have hv {path : NSIndexPath} {item : NSCollectionViewItem ι}
      (hm : (path, item) ∈ fetch backing before.made paths) : item ∈ after.visibleItems :=
    ha.mem_of_eq_some (hadds.path_new path item hm)
  have hvw {path : NSIndexPath} {item : NSCollectionViewItem ι}
      (hm : (path, item) ∈ fetch backing before.made paths) : (item.view view).isSome := by
    obtain ⟨itemView, -, heq⟩ := ha.view_mem item (hv hm)
    exact Option.isSome_of_eq_some heq
  -- An item that was shown before and is fetched now is shown twice.
  have hn {path : NSIndexPath} {item : NSCollectionViewItem ι}
      (hm : (path, item) ∈ fetch backing before.made paths) : item ∉ before.visibleItems := by
    intro ho
    have hnd := ha.nodup
    rw [hadds.visibleItems] at hnd
    exact List.disjoint_of_nodup_append hnd ho (List.mem_filter.mpr ⟨List.mem_map_of_mem hm, hvw hm⟩)
  have hans {path : NSIndexPath} {answer : ι} (hp : path ∈ paths)
      (han : backing.itemForRepresentedObject path = some answer) :
      (path, .answered answer) ∈ fetch backing before.made paths := by
    obtain ⟨item, hit⟩ := exists_mem_fetch backing before.made hp
    cases item with
    | answered answer' => rwa [← Option.some.inj ((answered_of_mem_fetch hit).symm.trans han)]
    | made number => exact nomatch (made_of_mem_fetch hit).1.symm.trans han
  constructor
  · intro path hp
    by_contra hsm
    obtain ⟨item, heq⟩ := Option.ne_none_iff_exists'.mp hsm
    have ho := hcoherent.mem_of_eq_some heq
    have hst : item ∈ after.visibleItems := by
      rw [hadds.visibleItems]
      exact List.mem_append_left _ ho
    obtain ⟨path', -, heq'⟩ := (ha.mem_visible item).mp hst
    by_cases hp' : path' ∈ paths
    · obtain ⟨item', hit', hsm'⟩ := hadds.path_some hp'
      obtain rfl := Option.some.inj (hsm'.symm.trans heq')
      exact hn hit' ho
    · rw [hadds.path_other hp'] at heq'
      have hsa := ((hcoherent.inverse item path).mpr heq).symm.trans ((hcoherent.inverse item path').mpr heq')
      exact hp' (Option.some.inj hsa ▸ hp)
  · intro path hp answer han
    by_contra hsm
    obtain ⟨path', heq⟩ := Option.ne_none_iff_exists'.mp hsm
    exact hn (hans hp han) (hcoherent.mem_of_eq_some ((hcoherent.inverse _ path').mp heq))
  · intro path hp path' hp' answer han han'
    have heq := (ha.inverse _ path).mpr (hadds.path_new _ _ (hans hp han))
    have heq' := (ha.inverse _ path').mpr (hadds.path_new _ _ (hans hp' han'))
    exact Option.some.inj (heq.symm.trans heq')
  · intro path hp answer han
    have hsm := hvw (hans hp han)
    rwa [NSCollectionViewItem.view, Option.isSome_map] at hsm
  · intro hl path hp
    obtain ⟨item, hit⟩ := exists_mem_fetch backing before.made hp
    obtain ⟨itemView, hm, heq⟩ := ha.view_mem item (hv hit)
    rw [hadds.mem_subviews, hl] at hm
    have hs := hm.resolve_right fun h => Bool.false_ne_true h.1
    cases item with
    | answered answer =>
      rw [NSCollectionViewItem.view, Option.map_eq_some_iff] at heq
      obtain ⟨ownView, hown, rfl⟩ := heq
      exact ⟨answer, ownView, answered_of_mem_fetch hit, hown, hs⟩
    | made number =>
      -- A view made with its item is no subview of before.
      obtain ⟨item, ho, hvw⟩ := hcoherent.mem_subviews itemView hs
      rw [← heq] at hvw
      cases item with
      | answered answer =>
        rw [NSCollectionViewItem.view, NSCollectionViewItem.view, Option.map_eq_some_iff] at hvw
        obtain ⟨_, -, h⟩ := hvw
        exact nomatch h
      | made number' =>
        cases hvw
        exact absurd ho (hn hit)

end Fetched

end Agreement

/-! ## The paths of the data source -/

section Paths

variable {backing : Backing ι α} {path : NSIndexPath} {cs : Nat}

theorem head_of_mem_pathsInSection (h : path ∈ backing.pathsInSection cs) : path.head? = some cs := by
  obtain ⟨ci, -, rfl⟩ := List.mem_map.mp h
  rfl

theorem mem_paths : path ∈ backing.paths ↔ ∃ cs < backing.numberOfSections.toNat, path ∈ backing.pathsInSection cs := by
  simp only [Backing.paths, List.mem_flatMap, List.mem_range]

theorem nodup_pathsInSection (cs : Nat) : (backing.pathsInSection cs).Nodup := by
  refine List.nodup_range.map fun ci ci' heq => ?_
  simpa [indexPathForItem] using heq

theorem nodup_paths (backing : Backing ι α) : backing.paths.Nodup := by
  refine List.nodup_flatMap.mpr ⟨fun cs _ => nodup_pathsInSection cs, ?_⟩
  refine List.nodup_range.imp fun {cs cs'} hne path hm hm' => hne ?_
  exact Option.some.inj ((head_of_mem_pathsInSection hm).symm.trans (head_of_mem_pathsInSection hm'))

theorem paths_eq_nil_of_numberOfSections (h : backing.numberOfSections = 0) : backing.paths = [] := by
  rw [Backing.paths, h]
  rfl

end Paths

/-! ## One call -/

section Calls

variable {view : ι → Option ν} {backing : Backing ι α}
variable {collection : NSCollectionView ι ν α} {loaded : Set NSIndexPath} {step : Step ι α}

open NSCollectionView

variable (view) in
theorem clearMaps_coherent (collection : NSCollectionView ι ν α) : Coherent view ∅ collection.clearMaps where
  nodup := List.nodup_nil
  mem_visible := fun _ => ⟨fun h => absurd h List.not_mem_nil, fun ⟨_, h, _⟩ => absurd h (Set.notMem_empty _)⟩
  isSome_iff := fun _ => ⟨fun h => absurd h Bool.false_ne_true, fun h => absurd h (Set.notMem_empty _)⟩
  inverse := fun _ _ => ⟨fun h => (nomatch h), fun h => (nomatch h)⟩
  view_mem := fun _ h => absurd h List.not_mem_nil
  mem_subviews := fun _ h => absurd h List.not_mem_nil

theorem clearMaps_fresh (collection : NSCollectionView ι ν α) : Fresh collection.clearMaps :=
  fun _ h => absurd h List.not_mem_nil

theorem loadable_clearMaps {paths : List NSIndexPath} :
    Loadable view backing paths collection.clearMaps ↔ Loadable view backing paths (initial ι ν α) :=
  ⟨fun h => ⟨h.1, h.2, h.3, h.4, h.5⟩, fun h => ⟨h.1, h.2, h.3, h.4, h.5⟩⟩

theorem loadable_nil : Loadable view backing [] collection where
  path_new := fun _ h => absurd h List.not_mem_nil
  item_new := fun _ h => absurd h List.not_mem_nil
  item_once := fun _ h => absurd h List.not_mem_nil
  has_view := fun _ h => absurd h List.not_mem_nil
  shown := fun _ _ h => absurd h List.not_mem_nil

theorem coherent_congr (hcoherent : Coherent view loaded collection) {loaded' : Set NSIndexPath} :
    Coherent view loaded' collection ↔ ∀ path, path ∈ loaded ↔ path ∈ loaded' :=
  ⟨fun h path => (hcoherent.isSome_iff path).symm.trans (h.isSome_iff path),
    fun h => Set.ext h ▸ hcoherent⟩

theorem Adds.fetchedAgain {before after : NSCollectionView ι ν α} {made : Nat}
    (hadds : Adds view backing (fetch backing made step.reloaded) before after) : FetchedAgain step before after := by
  intro path hp
  obtain ⟨item, hit⟩ := exists_mem_fetch backing made hp
  refine ⟨item, ?_, hadds.path_new path item hit⟩
  rw [hadds.fetched, List.drop_left]
  exact hit

theorem fetchedAgain_of_nil {before after : NSCollectionView ι ν α} (h : step.reloaded = []) :
    FetchedAgain step before after := by
  intro path hp
  rw [h] at hp
  exact absurd hp List.not_mem_nil

theorem fetchedAgain_self_iff : FetchedAgain step collection collection ↔ step.reloaded = [] := by
  refine ⟨fun h => List.eq_nil_iff_forall_not_mem.mpr fun path hp => ?_, fetchedAgain_of_nil⟩
  obtain ⟨item, hit, -⟩ := h path hp
  rw [List.drop_length] at hit
  exact absurd hit List.not_mem_nil

variable [DecidableEq ι] [DecidableEq ν]

theorem loadSection_eq (collection : NSCollectionView ι ν α) (cs : Nat) :
    collection.loadSectionAtIndex view backing cs =
      (backing.pathsInSection cs).foldl (·.loadItemAtIndexPath view backing) collection := List.foldl_map.symm

theorem loadSections_eq (collection : NSCollectionView ι ν α) :
    (List.range backing.numberOfSections.toNat).foldl (·.loadSectionAtIndex view backing) collection =
      backing.paths.foldl (·.loadItemAtIndexPath view backing) collection := by
  rw [Backing.paths, List.foldl_flatMap]
  exact List.foldl_ext _ _ _ fun collection cs _ => loadSection_eq collection cs

theorem reloadData_eq (ha : collection.allowReload = true) (hn : backing.numberOfSections ≠ 0) :
    collection.reloadData view backing =
      { backing.paths.foldl (·.loadItemAtIndexPath view backing)
          { collection with allowReload := false }.clearMaps with allowReload := true } := by
  rw [reloadData, if_pos ha]
  simp only [if_neg hn, loadSections_eq]

theorem reloadData_of_no_sections (hn : backing.numberOfSections = 0) :
    collection.reloadData view backing = collection := by
  unfold reloadData
  simp only [hn, if_true, ite_self]

theorem perform_reloadData (collection : NSCollectionView ι ν α) :
    Step.perform view ⟨backing, .reloadData⟩ collection = collection.reloadData view backing := rfl

theorem perform_reloadSections (collection : NSCollectionView ι ν α) (indexes : Finset Nat) :
    Step.perform view ⟨backing, .reloadSections indexes⟩ collection = collection := rfl

theorem reloadData_kept_iff (hcoherent : Coherent view loaded collection) (hall : collection.allowReload = true) :
    Kept view ⟨backing, .reloadData⟩ collection loaded ↔ Fits view ⟨backing, .reloadData⟩ collection loaded := by
  by_cases hns : backing.numberOfSections = 0
  · have hn : Step.reloaded (⟨backing, .reloadData⟩ : Step ι α) = [] := paths_eq_nil_of_numberOfSections hns
    have hld : Kept view ⟨backing, .reloadData⟩ collection loaded ↔ ∀ path, path ∉ loaded := by
      rw [Kept, perform_reloadData, reloadData_of_no_sections hns, and_iff_left (fetchedAgain_of_nil hn),
        coherent_congr hcoherent]
      simp only [Step.loaded, Step.Spares, hn, and_false, List.not_mem_nil, or_self, Set.mem_ofPred_eq, iff_false]
    rw [hld, Fits, paths_eq_nil_of_numberOfSections hns, and_iff_left loadable_nil]
    exact ⟨fun h _ => h, fun h => h hns⟩
  · have hadds := load_adds view backing
      { collection with allowReload := false }.clearMaps (nodup_paths backing)
    have he := clearMaps_coherent view { collection with allowReload := false }
    have hld : Step.loaded ⟨backing, .reloadData⟩ loaded = {path | path ∈ (∅ : Set NSIndexPath) ∨ path ∈ backing.paths} := by
      ext path
      simp only [Step.loaded, Step.Spares, Step.reloaded, and_false, Set.mem_ofPred_eq, Set.mem_empty_iff_false]
    rw [Kept, perform_reloadData, reloadData_eq hall hns, hld, Fits]
    constructor
    · rintro ⟨ha, -⟩
      refine ⟨fun h => absurd h hns, loadable_clearMaps.mp (hadds.loadable he ?_)⟩
      exact ⟨ha.1, ha.2, ha.3, ha.4, ha.5, ha.6⟩
    · rintro ⟨-, hl⟩
      have ha := hadds.coherent he (clearMaps_fresh _) (nodup_paths backing)
        (loadable_clearMaps.mpr hl)
      have hf : FetchedAgain ⟨backing, .reloadData⟩ { collection with allowReload := false }.clearMaps
          (backing.paths.foldl (·.loadItemAtIndexPath view backing)
            { collection with allowReload := false }.clearMaps) := Adds.fetchedAgain hadds
      exact ⟨⟨ha.1, ha.2, ha.3, ha.4, ha.5, ha.6⟩, hf⟩

theorem reloadSections_kept_iff (hcoherent : Coherent view loaded collection) {indexes : Finset Nat}
    (hv : Step.Valid (⟨backing, .reloadSections indexes⟩ : Step ι α)) :
    Kept view ⟨backing, .reloadSections indexes⟩ collection loaded ↔
      Fits view ⟨backing, .reloadSections indexes⟩ collection loaded := by
  have hn : Step.reloaded ⟨backing, .reloadSections indexes⟩ = [] ↔ ∀ cs ∈ indexes, backing.pathsInSection cs = [] := by
    rw [Step.reloaded, List.filter_eq_nil_iff]
    simp only [decide_eq_true_eq, not_exists, not_and]
    constructor
    · intro h cs hc
      refine List.eq_nil_iff_forall_not_mem.mpr fun path hp => ?_
      exact h path (mem_paths.mpr ⟨cs, hv cs hc, hp⟩) cs hc (head_of_mem_pathsInSection hp)
    · intro h path hp cs hc hh
      obtain ⟨cs', -, hm⟩ := mem_paths.mp hp
      obtain rfl := Option.some.inj ((head_of_mem_pathsInSection hm).symm.trans hh)
      exact List.eq_nil_iff_forall_not_mem.mp (h cs' hc) path hm
  rw [Kept, perform_reloadSections, fetchedAgain_self_iff, coherent_congr hcoherent, Fits]
  simp only [Step.loaded, Step.Spares, Set.mem_ofPred_eq]
  constructor
  · rintro ⟨hl, hr⟩ cs hc
    refine ⟨hn.mp hr cs hc, fun path hp => ?_⟩
    rw [hr] at hl
    obtain h | h := (hl path).mp hp
    · exact h.2 cs hc
    · exact absurd h List.not_mem_nil
  · intro h
    have hr := hn.mpr fun cs hc => (h cs hc).1
    refine ⟨fun path => ?_, hr⟩
    rw [hr]
    exact ⟨fun hp => .inl ⟨hp, fun cs hc => (h cs hc).2 path hp⟩,
      fun hp => hp.elim And.left fun hm => absurd hm List.not_mem_nil⟩

theorem reloadItems_kept_iff (hcoherent : Coherent view loaded collection) (hfresh : Fresh collection)
    {indexPaths : {paths : List NSIndexPath // paths.Nodup}} :
    Kept view ⟨backing, .reloadItemsAtIndexPaths indexPaths⟩ collection loaded ↔
      Fits view ⟨backing, .reloadItemsAtIndexPaths indexPaths⟩ collection loaded := by
  have hadds := load_adds view backing collection indexPaths.2
  have hl : Step.loaded (⟨backing, .reloadItemsAtIndexPaths indexPaths⟩ : Step ι α) loaded =
      {path | path ∈ loaded ∨ path ∈ indexPaths.1} := by
    ext path
    simp only [Step.loaded, Step.Spares, Step.reloaded, and_true, Set.mem_ofPred_eq]
  rw [Kept, hl, Fits]
  exact ⟨fun h => hadds.loadable hcoherent h.1,
    fun h => ⟨hadds.coherent hcoherent hfresh indexPaths.2 h, Adds.fetchedAgain hadds⟩⟩

theorem perform_fresh (hfresh : Fresh collection) (step : Step ι α) : Fresh (step.perform view collection) := by
  obtain ⟨backing, call⟩ := step
  cases call with
  | reloadData =>
    rw [perform_reloadData]
    by_cases ha : collection.allowReload = true
    · by_cases hn : backing.numberOfSections = 0
      · rwa [reloadData_of_no_sections hn]
      · rw [reloadData_eq ha hn]
        exact (load_adds view backing _ (nodup_paths backing)).fresh (clearMaps_fresh _)
    · rwa [reloadData, if_neg ha]
  | reloadSections indexes => exact hfresh
  | reloadItemsAtIndexPaths indexPaths => exact (load_adds view backing collection indexPaths.2).fresh hfresh

theorem perform_allowReload (ha : collection.allowReload = true) (step : Step ι α) :
    (step.perform view collection).allowReload = true := by
  obtain ⟨backing, call⟩ := step
  cases call with
  | reloadData =>
    rw [perform_reloadData]
    by_cases hn : backing.numberOfSections = 0
    · rwa [reloadData_of_no_sections hn]
    · rw [reloadData_eq ha hn]
  | reloadSections indexes => exact ha
  | reloadItemsAtIndexPaths indexPaths =>
    exact (load_adds view backing collection indexPaths.2).allowReload.trans ha

theorem kept_iff (hcoherent : Coherent view loaded collection) (hfresh : Fresh collection)
    (ha : collection.allowReload = true) (hv : step.Valid) :
    Kept view step collection loaded ↔ Fits view step collection loaded := by
  obtain ⟨backing, call⟩ := step
  cases call with
  | reloadData => exact reloadData_kept_iff hcoherent ha
  | reloadSections indexes => exact reloadSections_kept_iff hcoherent hv
  | reloadItemsAtIndexPaths indexPaths => exact reloadItems_kept_iff hcoherent hfresh

theorem along_kept_iff (hcoherent : Coherent view loaded collection) (hfresh : Fresh collection)
    (ha : collection.allowReload = true) {steps : List (Step ι α)} (hv : ∀ step ∈ steps, step.Valid) :
    Along view (Kept view) collection loaded steps ↔ Along view (Fits view) collection loaded steps := by
  induction steps generalizing collection loaded with
  | nil => exact Iff.rfl
  | cons step steps ih =>
    obtain ⟨hs, hst⟩ := List.forall_mem_cons.mp hv
    have hi := kept_iff hcoherent hfresh ha hs
    have hr (hk : Kept view step collection loaded) :=
      ih hk.1 (perform_fresh hfresh step) (perform_allowReload ha step) hst
    exact ⟨fun h => ⟨hi.mp h.1, (hr h.1).mp h.2⟩, fun h => ⟨hi.mpr h.1, (hr (hi.mpr h.1)).mpr h.2⟩⟩

end Calls

/-! ## Whole runs -/

/-- From a new collection view, the calls of a run leave what they are to leave exactly where each of them
fits. -/
theorem items_kept_iff [DecidableEq ι] [DecidableEq ν] (view : ι → Option ν) {steps : List (Step ι α)}
    (hvalid : ∀ step ∈ steps, step.Valid) :
    Along view (Kept view) (initial ι ν α) ∅ steps ↔ Along view (Fits view) (initial ι ν α) ∅ steps :=
  along_kept_iff (clearMaps_coherent _ (initial ι ν α)) (clearMaps_fresh (initial ι ν α)) rfl hvalid

/-- One section of items that the data source leaves to be made, and a layout. -/
def oneSection (items : Nat) : Backing Nat Unit where
  dataSource := some ⟨none, fun _ => items, fun _ => none⟩
  collectionViewLayout := some fun _ => ()

theorem loadable_oneSection {items : Nat} {paths : List NSIndexPath} {collection : NSCollectionView Nat Nat Unit}
    (h : ∀ path ∈ paths, collection.indexPathsToItems path = none) :
    Loadable some (oneSection items) paths collection where
  path_new := h
  item_new := fun _ _ _ ha => nomatch ha
  item_once := fun _ _ _ _ _ ha => nomatch ha
  has_view := fun _ _ _ ha => nomatch ha
  shown := fun hl => nomatch hl

/-- A second item is loaded once the data source has it. -/
theorem items_kept_growing : Along some (Kept some) (initial Nat Nat Unit) ∅
    [⟨oneSection 1, .reloadData⟩, ⟨oneSection 2, .reloadItemsAtIndexPaths ⟨[[0, 1]], by decide⟩⟩] := by
  refine (items_kept_iff some ?_).mpr ⟨⟨fun h => absurd h (by decide), ?_⟩, ?_, trivial⟩
  · intro step hs
    obtain rfl | hs := List.mem_cons.mp hs
    · trivial
    · obtain rfl := List.mem_singleton.mp hs
      exact fun path hp => by
        obtain rfl := List.mem_singleton.mp hp
        decide
  · exact loadable_oneSection fun _ _ => rfl
  · refine loadable_oneSection fun path hp => ?_
    obtain rfl := List.mem_singleton.mp hp
    rfl

/-- A loaded item that is reloaded stays beside the new one. -/
theorem items_not_kept : ∃ steps : List (Step Nat Unit), (∀ step ∈ steps, step.Valid) ∧
    ¬ Along some (Kept some) (initial Nat Nat Unit) ∅ steps := by
  refine ⟨[⟨oneSection 1, .reloadData⟩, ⟨oneSection 1, .reloadItemsAtIndexPaths ⟨[[0, 0]], by decide⟩⟩],
    fun step hs => ?_, fun h => ?_⟩
  · obtain rfl | hs := List.mem_cons.mp hs
    · trivial
    · obtain rfl := List.mem_singleton.mp hs
      exact fun path hp => by
        obtain rfl := List.mem_singleton.mp hp
        decide
  · exact absurd ((h.2.1.1.inverse (.made 0) [0, 0]).mp rfl) (by decide)

end GnustepGui.CollectionView
