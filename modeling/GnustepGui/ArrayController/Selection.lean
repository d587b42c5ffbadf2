import Mathlib.Data.Finset.Sort

/-!
# Selection of an array controller

The content, the arrangement of it and the selected positions in the arrangement. Bindings, observers and
`avoidsEmptySelection` are left out.

A message to `nil` returns 0: where there is no arrangement, every object is looked up at position 0.
-/

namespace GnustepGui.ArrayController

variable {α : Type*}

/-- `sortedArrayUsingDescriptors:` for some sort descriptors. -/
structure SortDescriptors (α : Type*) where
  sortedArray : List α → List α
  perm : ∀ objects, (sortedArray objects).Perm objects

structure Flags where
  automaticallyRearrangesObjects : Bool
  selectsInsertedObjects : Bool
  preservesSelection : Bool
  deriving DecidableEq, Repr

/-- `arranged` is `none` where the arrangement has been dropped, and `some none` where it is one of
`nil`. -/
structure NSArrayController (α : Type*) where
  content : Option (List α)
  arranged : Option (Option (List α))
  selectionIndexes : Finset Nat
  filterPredicate : Option (α → Bool)
  sortDescriptors : SortDescriptors α

def noSortDescriptors (α : Type*) : SortDescriptors α :=
  ⟨id, fun _ => .refl _⟩

def initWithContent (content : Option (List α)) : NSArrayController α where
  content := content
  arranged := none
  selectionIndexes := ∅
  filterPredicate := none
  sortDescriptors := noSortDescriptors α

namespace NSArrayController

/-! ## The arrangement -/

def arrangeObjects (controller : NSArrayController α) (objects : Option (List α)) : Option (List α) :=
  objects.map fun objects =>
    controller.sortDescriptors.sortedArray
      (match controller.filterPredicate with
      | none => objects
      | some filterPredicate => objects.filter filterPredicate)

def rearrangeObjects (controller : NSArrayController α) : NSArrayController α :=
  { controller with arranged := some (controller.arrangeObjects controller.content) }

/-- `arrangedObjects`, which arranges the content where the arrangement has been dropped. -/
def arrangedObjects (controller : NSArrayController α) : NSArrayController α :=
  match controller.arranged with
  | none => controller.rearrangeObjects
  | some _ => controller

/-- What `arrangedObjects` answers. -/
def objects (controller : NSArrayController α) : List α :=
  (controller.arranged.getD (controller.arrangeObjects controller.content)).getD []

/-- `selectedObjects`, and `none` where `objectsAtIndexes:` raises, which it does not for an arrangement of
`nil`. -/
def selectedObjects (controller : NSArrayController α) : Option (List α) :=
  match controller.arranged.getD (controller.arrangeObjects controller.content) with
  | none => some []
  | some objects => (controller.selectionIndexes.sort (· ≤ ·)).mapM (objects[·]?)

/-- The arrangement is rebuilt or dropped after a change of the content. -/
def contentChanged (flags : Flags) (controller : NSArrayController α) : NSArrayController α :=
  if flags.automaticallyRearrangesObjects then controller.rearrangeObjects else { controller with arranged := none }

section Lookup

variable [DecidableEq α]

/-- `indexOfObject:` in what `_arranged_objects` holds. -/
def indexOfObject (arranged : Option (Option (List α))) (object : α) : Option Nat :=
  match arranged with
  | none | some none => some 0
  | some (some objects) => objects.idxOf? object

def indexSetForObjects (controller : NSArrayController α) (objects : List α) : Finset Nat :=
  (objects.filterMap (indexOfObject controller.arranged)).toFinset

def addSelectedObjects (controller : NSArrayController α) (objects : List α) : NSArrayController α :=
  { controller with
    selectionIndexes := controller.selectionIndexes ∪ controller.indexSetForObjects objects }

def setSelectedObjects (controller : NSArrayController α) (objects : List α) : NSArrayController α :=
  { controller with selectionIndexes := controller.indexSetForObjects objects }

def removeSelectedObjects (controller : NSArrayController α) (objects : List α) : NSArrayController α :=
  { controller with
    selectionIndexes := controller.selectionIndexes \ controller.indexSetForObjects objects }

/-! ## The content -/

variable (flags : Flags)

def addObjects (controller : NSArrayController α) (objects : List α) : NSArrayController α :=
  let controller := contentChanged flags { controller with content := controller.content.map (· ++ objects) }
  if flags.selectsInsertedObjects then controller.addSelectedObjects objects else controller

def addObject (controller : NSArrayController α) (object : α) : NSArrayController α :=
  controller.addObjects flags [object]

def removeObjects (controller : NSArrayController α) (objects : List α) : NSArrayController α :=
  contentChanged flags
    (removeSelectedObjects
      { controller with content := controller.content.map (·.filter (· ∉ objects)) } objects)

def removeObject (controller : NSArrayController α) (object : α) : NSArrayController α :=
  controller.removeObjects flags [object]

/-- `insertObject:atArrangedObjectIndex:`, which adds the object. -/
def insertObject (controller : NSArrayController α) (object : α) (_index : Nat) : NSArrayController α :=
  controller.addObject flags object

/-- `insertObjects:atArrangedObjectIndexes:`, which adds the objects. -/
def insertObjects (controller : NSArrayController α) (objects : List α) (_indexes : List Nat) : NSArrayController α :=
  controller.addObjects flags objects

/-- `removeObjectAtArrangedObjectIndex:`, which raises before it has changed anything where there is no
object. -/
def removeObjectAtArrangedObjectIndex (controller : NSArrayController α) (index : Nat) : NSArrayController α :=
  match (controller.arranged.bind id).bind (·[index]?) with
  | none => controller
  | some object => controller.removeObject flags object

/-- `removeObjectsAtArrangedObjectIndexes:`, where an arrangement that is missing has no objects. -/
def removeObjectsAtArrangedObjectIndexes (controller : NSArrayController α) (indexes : List Nat) :
    NSArrayController α :=
  controller.removeObjects flags (indexes.filterMap (((controller.arranged.bind id).getD [])[·]?))

def setContent (controller : NSArrayController α) (content : Option (List α)) : NSArrayController α :=
  rearrangeObjects { controller with content := content }

end Lookup

/-! ## The next and the previous -/

def selectionIndex (controller : NSArrayController α) : Option Nat :=
  controller.selectionIndexes.min

def canSelectNext (controller : NSArrayController α) : Bool :=
  match controller.selectionIndex with
  | none => false
  | some cur => cur + 1 ≠ (controller.content.getD []).length

def canSelectPrevious (controller : NSArrayController α) : Bool :=
  match controller.selectionIndex with
  | none => false
  | some cur => cur ≠ 0

/-- `selectNext:`, which is not called where nothing is selected. -/
def selectNext (controller : NSArrayController α) : NSArrayController α :=
  match controller.selectionIndex with
  | none => controller
  | some cur => { controller with selectionIndexes := {cur + 1} }

/-- `selectPrevious:`, which is not called where nothing is selected. -/
def selectPrevious (controller : NSArrayController α) : NSArrayController α :=
  match controller.selectionIndex with
  | none => controller
  | some cur => { controller with selectionIndexes := {cur - 1} }

end NSArrayController

/-! ## Runs -/

inductive Call (α : Type*) where
  | addObject (object : α)
  | addObjects (objects : List α)
  | insertObject (object : α) (index : Nat)
  | insertObjects (objects : List α) (indexes : List Nat)
  | removeObject (object : α)
  | removeObjects (objects : List α)
  | removeObjectAtArrangedObjectIndex (index : Nat)
  | removeObjectsAtArrangedObjectIndexes (indexes : List Nat)
  | setContent (content : Option (List α))
  | rearrangeObjects
  | arrangedObjects
  | setSelectedObjects (objects : List α)
  | addSelectedObjects (objects : List α)
  | selectNext
  | selectPrevious
  | setFilterPredicate (filterPredicate : Option (α → Bool))
  | setSortDescriptors (sortDescriptors : SortDescriptors α)

variable [DecidableEq α] (flags : Flags)

/-- `selectNext:` and `selectPrevious:` are called where the controller answers that it can. -/
def Call.perform (controller : NSArrayController α) : Call α → NSArrayController α
  | addObject object => controller.addObject flags object
  | addObjects objects => controller.addObjects flags objects
  | insertObject object index => controller.insertObject flags object index
  | insertObjects objects indexes => controller.insertObjects flags objects indexes
  | removeObject object => controller.removeObject flags object
  | removeObjects objects => controller.removeObjects flags objects
  | removeObjectAtArrangedObjectIndex index => controller.removeObjectAtArrangedObjectIndex flags index
  | removeObjectsAtArrangedObjectIndexes indexes => controller.removeObjectsAtArrangedObjectIndexes flags indexes
  | setContent content => controller.setContent content
  | rearrangeObjects => controller.rearrangeObjects
  | arrangedObjects => controller.arrangedObjects
  | setSelectedObjects objects => controller.setSelectedObjects objects
  | addSelectedObjects objects => controller.addSelectedObjects objects
  | selectNext => if controller.canSelectNext then controller.selectNext else controller
  | selectPrevious => if controller.canSelectPrevious then controller.selectPrevious else controller
  | setFilterPredicate filterPredicate => { controller with filterPredicate := filterPredicate }
  | setSortDescriptors sortDescriptors => { controller with sortDescriptors := sortDescriptors }

/-- `P` holds of every call of a run, with the controller before it. -/
def Along (P : NSArrayController α → Call α → Prop) : NSArrayController α → List (Call α) → Prop
  | _, [] => True
  | controller, call :: calls => P controller call ∧ Along P (call.perform flags controller) calls

/-! ## What is claimed -/

namespace NSArrayController

/-- Every selected position has an object. -/
def Valid (controller : NSArrayController α) : Prop :=
  ∀ index ∈ controller.selectionIndexes, index < controller.objects.length

def Selects (controller : NSArrayController α) (object : α) : Prop :=
  ∃ index ∈ controller.selectionIndexes, controller.objects[index]? = some object

end NSArrayController

/-- The objects that a call inserts, and `none` where it does not change the content. -/
def Call.inserted : Call α → Option (List α)
  | addObject object | insertObject object _ => some [object]
  | addObjects objects | insertObjects objects _ => some objects
  | removeObject _ | removeObjects _ | removeObjectAtArrangedObjectIndex _ | removeObjectsAtArrangedObjectIndexes _ |
    setContent _ => some []
  | _ => none

/-- The selected objects are those from before that are still arranged, and the inserted ones if they are to be
selected. -/
def PreservesSelection (controller controller' : NSArrayController α) (inserted : List α) : Prop :=
  ∀ object, controller'.Selects object ↔ (controller.Selects object ∧ object ∈ controller'.objects) ∨
    (flags.selectsInsertedObjects = true ∧ object ∈ inserted ∧ object ∈ controller'.objects)

def Kept (controller : NSArrayController α) (call : Call α) : Prop :=
  (call.perform flags controller).Valid ∧ (call.perform flags controller).selectedObjects.isSome = true ∧
    ∀ inserted, call.inserted = some inserted → flags.preservesSelection = true →
      PreservesSelection flags controller (call.perform flags controller) inserted

/-! ## Where it holds -/

/-- The positions have an object in the new arrangement, the one they have had if the selection is to be
preserved. -/
def InPlace (controller : NSArrayController α) (arranged : Option (List α)) (indexes : Finset Nat) : Prop :=
  (∀ index ∈ indexes, index < (arranged.getD []).length) ∧
    (flags.preservesSelection = true →
      ∀ index ∈ indexes, (arranged.getD [])[index]? = controller.objects[index]?)

/-- The objects are looked up in an arrangement, or the first of the new arrangement stands for them. -/
def Found (controller : NSArrayController α) (arranged : Option (List α)) (objects : List α) : Prop :=
  (flags.automaticallyRearrangesObjects = true ∧ controller.content.isSome = true) ∨ objects = [] ∨
    arranged.getD [] ≠ [] ∧
      (flags.preservesSelection = true →
        (0 ∈ controller.selectionIndexes ∨ ∃ object ∈ objects, (arranged.getD [])[0]? = some object) ∧
          ∀ object ∈ objects, object ∈ arranged.getD [] → (arranged.getD [])[0]? = some object)

def FitsAdding (controller : NSArrayController α) (objects : List α) : Prop :=
  let arranged := controller.arrangeObjects (controller.content.map (· ++ objects))
  InPlace flags controller arranged controller.selectionIndexes ∧
    (flags.selectsInsertedObjects = true → Found flags controller arranged objects)

def FitsRemoving (controller : NSArrayController α) (objects : List α) : Prop :=
  let arranged := controller.arrangeObjects (controller.content.map (·.filter (· ∉ objects)))
  let removed := controller.indexSetForObjects objects
  InPlace flags controller arranged (controller.selectionIndexes \ removed) ∧
    (flags.preservesSelection = true → ∀ index ∈ controller.selectionIndexes, index ∈ removed →
      ∀ object, controller.objects[index]? = some object → object ∉ arranged.getD [])

def Fits (controller : NSArrayController α) : Call α → Prop
  | .addObject object | .insertObject object _ => FitsAdding flags controller [object]
  | .addObjects objects | .insertObjects objects _ => FitsAdding flags controller objects
  | .removeObject object => FitsRemoving flags controller [object]
  | .removeObjects objects => FitsRemoving flags controller objects
  | .removeObjectAtArrangedObjectIndex index =>
    ∀ object, (controller.arranged.bind id).bind (·[index]?) = some object → FitsRemoving flags controller [object]
  | .removeObjectsAtArrangedObjectIndexes indexes =>
    FitsRemoving flags controller (indexes.filterMap (((controller.arranged.bind id).getD [])[·]?))
  | .setContent content => InPlace flags controller (controller.arrangeObjects content) controller.selectionIndexes
  | .rearrangeObjects => ∀ index ∈ controller.selectionIndexes,
    index < ((controller.arrangeObjects controller.content).getD []).length
  | .setSelectedObjects objects | .addSelectedObjects objects =>
    (controller.arranged.bind id).isSome = true ∨ objects = [] ∨ controller.objects ≠ []
  | .selectNext => controller.canSelectNext = true →
    ∀ cur, controller.selectionIndex = some cur → cur + 1 < controller.objects.length
  | .setFilterPredicate filterPredicate => controller.arranged = none → ∀ index ∈ controller.selectionIndexes,
    index < ({ controller with filterPredicate := filterPredicate } : NSArrayController α).objects.length
  | .setSortDescriptors _ | .arrangedObjects | .selectPrevious => True

/-! ## Lookup -/

namespace NSArrayController

variable {flags} {controller : NSArrayController α} {objects : List α} {index : Nat}

omit [DecidableEq α] in
theorem selectedObjects_isSome (h : controller.Valid) : controller.selectedObjects.isSome = true := by
  unfold selectedObjects
  cases ha : controller.arranged.getD (controller.arrangeObjects controller.content) with
  | none => rfl
  | some arranged =>
    have hlt : ∀ index ∈ controller.selectionIndexes.sort (· ≤ ·), index < arranged.length := by
      intro index hidx
      have := h index ((Finset.mem_sort _).mp hidx)
      rwa [NSArrayController.objects, ha] at this
    simp only
    generalize controller.selectionIndexes.sort (· ≤ ·) = indexes at hlt
    induction indexes with
    | nil => rfl
    | cons index indexes ih =>
      obtain ⟨found, hf⟩ := Option.isSome_iff_exists.mp (ih fun i hi => hlt i (List.mem_cons_of_mem _ hi))
      rw [List.mapM_cons, List.getElem?_eq_getElem (hlt index List.mem_cons_self), hf]
      rfl

theorem mem_indexSet_of_arranged {arranged : List α} (h : controller.arranged = some (some arranged)) :
    index ∈ controller.indexSetForObjects objects ↔ ∃ object ∈ objects, arranged.idxOf? object = some index := by
  rw [indexSetForObjects, List.mem_toFinset, List.mem_filterMap, h]
  rfl

theorem mem_indexSet_of_missing (h : controller.arranged.bind id = none) :
    index ∈ controller.indexSetForObjects objects ↔ objects ≠ [] ∧ index = 0 := by
  have hz (object : α) : indexOfObject controller.arranged object = some 0 := by
    unfold indexOfObject
    split
    · rfl
    · rfl
    · rename_i arranged ha
      rw [ha] at h
      cases h
  rw [indexSetForObjects, List.mem_toFinset, List.mem_filterMap]
  simp only [hz, Option.some.injEq]
  constructor
  · rintro ⟨object, ho, rfl⟩
    exact ⟨List.ne_nil_of_mem ho, rfl⟩
  · rintro ⟨hne, rfl⟩
    obtain ⟨object, ho⟩ := List.exists_mem_of_ne_nil objects hne
    exact ⟨object, ho, rfl⟩

section

omit [DecidableEq α]

theorem contentChanged_objects (flags : Flags) (controller : NSArrayController α) :
    (contentChanged flags controller).objects = (controller.arrangeObjects controller.content).getD [] := by
  rw [contentChanged]
  split
  · rfl
  · rfl

theorem contentChanged_selectionIndexes (flags : Flags) (controller : NSArrayController α) :
    (contentChanged flags controller).selectionIndexes = controller.selectionIndexes := by
  rw [contentChanged]
  split
  · rfl
  · rfl

/-! ## The calls -/

theorem exists_iff_of_inPlace {arranged : Option (List α)} {indexes : Finset Nat}
    (h : InPlace flags controller arranged indexes) (hp : flags.preservesSelection = true) (object : α) :
    (∃ index ∈ indexes, (arranged.getD [])[index]? = some object) ↔
      (∃ index ∈ indexes, controller.objects[index]? = some object) ∧ object ∈ arranged.getD [] := by
  constructor
  · rintro ⟨index, hi, ho⟩
    exact ⟨⟨index, hi, (h.2 hp index hi) ▸ ho⟩, List.mem_of_getElem? ho⟩
  · rintro ⟨⟨index, hi, ho⟩, -⟩
    exact ⟨index, hi, (h.2 hp index hi).trans ho⟩

end

variable (flags controller objects) in
/-- The positions that are found for new objects have objects, and the right ones if the selection is to be
preserved. -/
theorem indexSet_of_found (hf : Found flags controller
      (controller.arrangeObjects (controller.content.map (· ++ objects))) objects) {changed : NSArrayController α}
    (hc : changed = contentChanged flags { controller with content := controller.content.map (· ++ objects) })
    (ha : changed.objects = (controller.arrangeObjects (controller.content.map (· ++ objects))).getD []) :
    (∀ index ∈ changed.indexSetForObjects objects, index < changed.objects.length) ∧
      (flags.preservesSelection = true → ∀ object,
        (∃ index ∈ controller.selectionIndexes ∪ changed.indexSetForObjects objects,
            changed.objects[index]? = some object) ↔
          (∃ index ∈ controller.selectionIndexes, changed.objects[index]? = some object) ∨
            object ∈ objects ∧ object ∈ changed.objects) := by
  by_cases hpr : flags.automaticallyRearrangesObjects = true ∧ controller.content.isSome = true
  · obtain ⟨hat, hcn⟩ := hpr
    obtain ⟨content, hcn⟩ := Option.isSome_iff_exists.mp hcn
    have hsm : changed.arranged = some (some changed.objects) := by
      rw [ha, hc, contentChanged, if_pos hat, hcn]
      rfl
    refine ⟨fun index hi => ?_, fun _ object => ?_⟩
    · obtain ⟨object, -, ho⟩ := (mem_indexSet_of_arranged hsm).mp hi
      exact (List.idxOf?_eq_some_iff.mp ho).1
    · simp only [Finset.mem_union, or_and_right, exists_or, mem_indexSet_of_arranged hsm]
      refine or_congr_right ⟨?_, ?_⟩
      · rintro ⟨index, ⟨found, hf, hi⟩, ho⟩
        obtain ⟨hlt, rfl, -⟩ := List.idxOf?_eq_some_iff.mp hi
        rw [List.getElem?_eq_getElem hlt] at ho
        obtain rfl := Option.some.inj ho
        exact ⟨hf, List.getElem_mem hlt⟩
      · rintro ⟨hm, ho⟩
        obtain ⟨index, hi⟩ := Option.isSome_iff_exists.mp (List.isSome_idxOf?.mpr ho)
        obtain ⟨hlt, heq, -⟩ := List.idxOf?_eq_some_iff.mp hi
        exact ⟨index, ⟨object, hm, hi⟩, (List.getElem?_eq_getElem hlt).trans (congrArg some heq)⟩
  · have hmis : changed.arranged.bind id = none := by
      rw [hc, contentChanged]
      split
      · rename_i hat
        cases hcn : controller.content with
        | none => rfl
        | some content => exact absurd ⟨hat, by rw [hcn]; rfl⟩ hpr
      · rfl
    simp only [Finset.mem_union, or_and_right, exists_or, mem_indexSet_of_missing hmis]
    obtain rfl | ⟨hne, hfrt⟩ := hf.resolve_left hpr
    · exact ⟨fun index hi => absurd rfl hi.1, fun _ object => by simp⟩
    · rw [← ha] at hne hfrt
      refine ⟨fun index hi => ?_, fun hp object => or_congr_right' fun hn => ?_⟩
      · rw [hi.2]
        exact List.length_pos_iff.mpr hne
      · obtain ⟨hz, hall⟩ := hfrt hp
        constructor
        · rintro ⟨index, ⟨-, rfl⟩, ho⟩
          obtain hs | ⟨found, hf, heq⟩ := hz
          · exact absurd ⟨0, hs, ho⟩ hn
          · obtain rfl := Option.some.inj (heq.symm.trans ho)
            exact ⟨hf, List.mem_of_getElem? ho⟩
        · rintro ⟨hm, ho⟩
          exact ⟨0, ⟨List.ne_nil_of_mem hm, rfl⟩, hall object hm ho⟩

theorem addObjects_kept (h : FitsAdding flags controller objects) :
    (controller.addObjects flags objects).Valid ∧ (flags.preservesSelection = true →
      PreservesSelection flags controller (controller.addObjects flags objects) objects) := by
  obtain ⟨hplc, hf⟩ := h
  have ho := contentChanged_objects flags { controller with content := controller.content.map (· ++ objects) }
  have hid := contentChanged_selectionIndexes flags
    { controller with content := controller.content.map (· ++ objects) }
  have hl := fun hf => indexSet_of_found flags controller objects hf rfl ho
  unfold addObjects
  generalize contentChanged flags { controller with content := controller.content.map (· ++ objects) } = changed
    at ho hid hl ⊢
  have hv : ∀ index ∈ changed.selectionIndexes, index < changed.objects.length := by
    rw [hid, ho]
    exact hplc.1
  have hs (hp : flags.preservesSelection = true) (object : α) :
      (∃ index ∈ controller.selectionIndexes, changed.objects[index]? = some object) ↔
        controller.Selects object ∧ object ∈ changed.objects := by
    rw [ho]
    exact exists_iff_of_inPlace hplc hp object
  dsimp only
  split
  · rename_i hfl
    obtain ⟨hlt, hfrt⟩ := hl (hf hfl)
    refine ⟨?_, fun hp object => ?_⟩
    · intro index hi
      obtain hi | hi := Finset.mem_union.mp hi
      · exact hv index hi
      · exact hlt index hi
    · have hiff := hfrt hp object
      rw [← hid] at hiff hs
      refine hiff.trans (or_congr (hs hp object) ?_)
      exact (and_iff_right hfl).symm
  · rename_i hfl
    refine ⟨hv, fun hp object => ?_⟩
    rw [Selects, hid, hs hp]
    simp only [hfl, Bool.false_eq_true, false_and, or_false]

theorem removeObjects_kept (h : FitsRemoving flags controller objects) :
    (controller.removeObjects flags objects).Valid ∧ (flags.preservesSelection = true →
      PreservesSelection flags controller (controller.removeObjects flags objects) []) := by
  obtain ⟨hp, hr⟩ := h
  have hob : (controller.removeObjects flags objects).objects =
      (controller.arrangeObjects (controller.content.map (·.filter (· ∉ objects)))).getD [] :=
    contentChanged_objects flags _
  have hid : (controller.removeObjects flags objects).selectionIndexes =
      controller.selectionIndexes \ controller.indexSetForObjects objects := contentChanged_selectionIndexes flags _
  refine ⟨?_, fun hpsv object => ?_⟩
  · rw [Valid, hob, hid]
    exact hp.1
  · rw [Selects, hob, hid, exists_iff_of_inPlace hp hpsv]
    simp only [List.not_mem_nil, false_and, and_false, or_false]
    refine and_congr_left fun ha => ?_
    constructor
    · rintro ⟨index, hi, ho⟩
      exact ⟨index, (Finset.mem_sdiff.mp hi).1, ho⟩
    · rintro ⟨index, hi, ho⟩
      refine ⟨index, Finset.mem_sdiff.mpr ⟨hi, fun hm => ?_⟩, ho⟩
      exact hr hpsv index hi hm object ho ha

omit [DecidableEq α] in
theorem setContent_kept {content : Option (List α)}
    (h : InPlace flags controller (controller.arrangeObjects content) controller.selectionIndexes) :
    (controller.setContent content).Valid ∧ (flags.preservesSelection = true →
      PreservesSelection flags controller (controller.setContent content) []) := by
  refine ⟨h.1, fun hp object => ?_⟩
  simp only [List.not_mem_nil, false_and, and_false, or_false]
  exact exists_iff_of_inPlace h hp object

theorem indexSet_valid (h : (controller.arranged.bind id).isSome = true ∨ objects = [] ∨ controller.objects ≠ []) :
    ∀ index ∈ controller.indexSetForObjects objects, index < controller.objects.length := by
  intro index hi
  cases ha : controller.arranged.bind id with
  | some arranged =>
    have hs : controller.arranged = some (some arranged) := by
      obtain ⟨found, hf, rfl⟩ := Option.bind_eq_some_iff.mp ha
      exact hf
    obtain ⟨object, -, ho⟩ := (mem_indexSet_of_arranged hs).mp hi
    have hob : controller.objects = arranged := by
      rw [NSArrayController.objects, hs]
      rfl
    rw [hob]
    exact (List.idxOf?_eq_some_iff.mp ho).1
  | none =>
    obtain ⟨hne, rfl⟩ := (mem_indexSet_of_missing ha).mp hi
    rw [ha] at h
    have := (h.resolve_left Bool.false_ne_true).resolve_left hne
    exact List.length_pos_iff.mpr this

section

omit [DecidableEq α]

theorem setSortDescriptors_objects (controller : NSArrayController α) (sortDescriptors : SortDescriptors α) :
    ({ controller with sortDescriptors := sortDescriptors } : NSArrayController α).objects.length =
      controller.objects.length := by
  simp only [NSArrayController.objects, arrangeObjects]
  cases controller.arranged with
  | some arranged => rfl
  | none =>
    cases controller.content with
    | none => rfl
    | some content => exact (sortDescriptors.perm _).length_eq.trans (controller.sortDescriptors.perm _).length_eq.symm

theorem arrangedObjects_valid (h : controller.Valid) : controller.arrangedObjects.Valid := by
  unfold arrangedObjects
  cases ha : controller.arranged with
  | some arranged => exact h
  | none =>
    intro index hi
    have hlt := h index hi
    rw [NSArrayController.objects, ha] at hlt
    exact hlt

theorem selectPrevious_valid (h : controller.Valid) : controller.selectPrevious.Valid := by
  unfold selectPrevious
  cases hc : controller.selectionIndex with
  | none => exact h
  | some cur =>
    intro index hi
    have hlt := h cur (Finset.mem_of_min hc)
    rw [Finset.mem_singleton.mp hi]
    exact (Nat.sub_le cur 1).trans_lt hlt

end

end NSArrayController

open NSArrayController

variable {flags} {controller : NSArrayController α}

theorem perform_kept (hv : controller.Valid) {call : Call α} (hf : Fits flags controller call) :
    (call.perform flags controller).Valid ∧
      ∀ inserted, call.inserted = some inserted → flags.preservesSelection = true →
        PreservesSelection flags controller (call.perform flags controller) inserted := by
  have hcn {controller' : NSArrayController α} {objects : List α} {call : Call α} (hin : call.inserted = some objects)
      (h : controller'.Valid ∧
        (flags.preservesSelection = true → PreservesSelection flags controller controller' objects)) :
      controller'.Valid ∧ ∀ inserted, call.inserted = some inserted → flags.preservesSelection = true →
        PreservesSelection flags controller controller' inserted := by
    refine ⟨h.1, fun inserted heq => ?_⟩
    obtain rfl := Option.some.inj (hin.symm.trans heq)
    exact h.2
  cases call with
  | addObject object => exact hcn rfl (addObjects_kept hf)
  | addObjects objects => exact hcn rfl (addObjects_kept hf)
  | insertObject object index => exact hcn rfl (addObjects_kept hf)
  | insertObjects objects indexes => exact hcn rfl (addObjects_kept hf)
  | removeObject object => exact hcn rfl (removeObjects_kept hf)
  | removeObjects objects => exact hcn rfl (removeObjects_kept hf)
  | removeObjectAtArrangedObjectIndex index =>
    refine hcn rfl ?_
    rw [Call.perform, removeObjectAtArrangedObjectIndex]
    cases ho : (controller.arranged.bind id).bind (·[index]?) with
    | none =>
      refine ⟨hv, fun _ object => ?_⟩
      simp only [List.not_mem_nil, false_and, and_false, or_false]
      exact ⟨fun h => ⟨h, h.elim fun _ hi => List.mem_of_getElem? hi.2⟩, And.left⟩
    | some object => exact removeObjects_kept (hf object ho)
  | removeObjectsAtArrangedObjectIndexes indexes => exact hcn rfl (removeObjects_kept hf)
  | setContent content => exact hcn rfl (setContent_kept hf)
  | rearrangeObjects => exact ⟨hf, fun _ heq => nomatch heq⟩
  | arrangedObjects => exact ⟨arrangedObjects_valid hv, fun _ heq => nomatch heq⟩
  | setSelectedObjects objects => exact ⟨indexSet_valid hf, fun _ heq => nomatch heq⟩
  | addSelectedObjects objects =>
    refine ⟨fun index hi => ?_, fun _ heq => nomatch heq⟩
    obtain hi | hi := Finset.mem_union.mp hi
    · exact hv index hi
    · exact indexSet_valid hf index hi
  | selectNext =>
    refine ⟨?_, fun _ heq => nomatch heq⟩
    rw [Call.perform]
    split
    · rename_i hc
      unfold selectNext
      cases hcur : controller.selectionIndex with
      | none => exact hv
      | some cur =>
        intro index hi
        rw [Finset.mem_singleton.mp hi]
        exact hf hc cur hcur
    · exact hv
  | selectPrevious =>
    refine ⟨?_, fun _ heq => nomatch heq⟩
    rw [Call.perform]
    split
    · exact selectPrevious_valid hv
    · exact hv
  | setFilterPredicate filterPredicate =>
    refine ⟨?_, fun _ heq => nomatch heq⟩
    cases ha : controller.arranged with
    | none => exact hf ha
    | some arranged =>
      intro index hi
      have hlt := hv index hi
      rw [NSArrayController.objects, ha] at hlt
      rw [Call.perform, NSArrayController.objects, ha]
      exact hlt
  | setSortDescriptors sortDescriptors =>
    refine ⟨fun index hi => ?_, fun _ heq => nomatch heq⟩
    rw [Call.perform, setSortDescriptors_objects]
    exact hv index hi

def rearranging : Flags :=
  ⟨true, true, true⟩

/-- The flags of a new controller. -/
def initialFlags : Flags :=
  ⟨false, true, true⟩

end GnustepGui.ArrayController
