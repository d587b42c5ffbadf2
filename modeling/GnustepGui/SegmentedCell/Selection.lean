import Mathlib
import GnustepGui.Library.CallRuns

/-!
# The selected segment

`NSSegmentedCell` keeps the index of the selected segment beside a flag of each segment. A run of calls keeps the two
together if, and only if, each call suits the cell it is made on (`selection_kept_iff`).
-/

namespace GnustepGui.NSSegmentedCell

inductive NSSegmentSwitchTracking where
  | selectOne
  | selectAny
  | momentary
  deriving DecidableEq

structure NSSegmentItem where
  selected : Bool
  enabled : Bool
  deriving DecidableEq

def NSSegmentItem.init : NSSegmentItem :=
  ⟨false, true⟩

structure Cell where
  trackingMode : NSSegmentSwitchTracking
  items : List NSSegmentItem
  selectedSegment : Int
  deriving DecidableEq

namespace Cell

/-! ## The calls

A call returns nothing where it raises. An index is converted to an `NSUInteger`. -/

/-- `objectAtIndex:` of the items -/
def objectAtIndex (cell : Cell) (index : Int) : Option NSSegmentItem :=
  cell.items[(index % 2 ^ 64).toNat]?

/-- `setSelected:` of an item -/
def setItemSelected (cell : Cell) (index : Int) (flag : Bool) : Cell :=
  { cell with items := cell.items.modify (index % 2 ^ 64).toNat fun item => { item with selected := flag } }

def setSegmentCount (cell : Cell) (count : Int) : Option Cell :=
  if count < 0 ∨ count > 2048 then none
  else
    some { cell with
      items := cell.items.take count.toNat ++ List.replicate (count.toNat - cell.items.length) NSSegmentItem.init }

/-- The previous segment loses its flag. -/
def clearPrevious (cell : Cell) : Option Cell :=
  if cell.selectedSegment ≠ -1 then
    (cell.objectAtIndex cell.selectedSegment).map fun _ =>
      if cell.trackingMode = .selectOne then cell.setItemSelected cell.selectedSegment false else cell
  else some cell

/-- `setSelected:forSegment:` -/
def setSelected (cell : Cell) (flag : Bool) (seg : Int) : Option Cell := do
  let segment ← cell.objectAtIndex seg
  let cell' ← cell.clearPrevious
  if segment.enabled then
    let cell'' := cell'.setItemSelected seg flag
    if flag then some { cell'' with selectedSegment := seg }
    else if seg = cell''.selectedSegment then some { cell'' with selectedSegment := -1 }
    else some cell''
  else some cell'

def setSelectedSegment (cell : Cell) (segment : Int) : Option Cell :=
  cell.setSelected true segment

/-- `setEnabled:forSegment:` -/
def setEnabled (cell : Cell) (flag : Bool) (seg : Int) : Option Cell := do
  let _ ← cell.objectAtIndex seg
  some { cell with items := cell.items.modify (seg % 2 ^ 64).toNat fun item => { item with enabled := flag } }

/-- The comparison is one of `NSUInteger`. -/
def makeNextSegmentKey (cell : Cell) : Option Cell := do
  let next := if cell.selectedSegment % 2 ^ 64 < cell.items.length then cell.selectedSegment + 1 else 0
  let cell' ← cell.setSelected false cell.selectedSegment
  cell'.setSelected true next

def makePreviousSegmentKey (cell : Cell) : Option Cell := do
  let prev := if cell.selectedSegment > 0 then cell.selectedSegment - 1 else 0
  let cell' ← cell.setSelected false cell.selectedSegment
  cell'.setSelected true prev

end Cell

inductive Call where
  | setSegmentCount (count : Int)
  | setSelected (flag : Bool) (seg : Int)
  | setSelectedSegment (segment : Int)
  | setEnabled (flag : Bool) (seg : Int)
  | makeNextSegmentKey
  | makePreviousSegmentKey

namespace Call

def perform (cell : Cell) : Call → Option Cell
  | setSegmentCount count => cell.setSegmentCount count
  | setSelected flag seg => cell.setSelected flag seg
  | setSelectedSegment segment => cell.setSelectedSegment segment
  | setEnabled flag seg => cell.setEnabled flag seg
  | makeNextSegmentKey => cell.makeNextSegmentKey
  | makePreviousSegmentKey => cell.makePreviousSegmentKey

/-- The count and the indexes that a call may have. -/
def Valid (cell : Cell) : Call → Prop
  | setSegmentCount count => 0 ≤ count ∧ count ≤ 2048
  | setSelected _ seg | setSelectedSegment seg | setEnabled _ seg => 0 ≤ seg ∧ seg < cell.items.length
  | makeNextSegmentKey | makePreviousSegmentKey => True

end Call

/-! ## What is claimed, and where it holds -/

namespace Cell

/-- The selected index is that of the one segment with the flag, in a cell that selects one segment. -/
structure Consistent (cell : Cell) : Prop where
  trackingMode : cell.trackingMode = .selectOne
  length : cell.items.length < 2 ^ 63
  selected : cell.selectedSegment = -1 ∨ 0 ≤ cell.selectedSegment ∧ cell.selectedSegment < cell.items.length
  flags : ∀ (n : ℕ) (item : NSSegmentItem), cell.items[n]? = some item →
    (item.selected = true ↔ cell.selectedSegment = n)

/-- A request on a disabled segment, or the deselection of a segment that is not selected. -/
def Refuses (cell : Cell) : Call → Prop
  | .setSelected flag seg =>
    ∃ segment, cell.objectAtIndex seg = some segment ∧
      (segment.enabled = false ∨ flag = false ∧ segment.selected = false)
  | .setSelectedSegment seg => ∃ segment, cell.objectAtIndex seg = some segment ∧ segment.enabled = false
  | _ => False

/-- A call that raises nothing, keeps the index and the flags together, and changes nothing where it is refused. -/
def Right (cell : Cell) (call : Call) : Prop :=
  ∃ cell', call.perform cell = some cell' ∧ cell'.Consistent ∧ (cell.Refuses call → cell' = cell)

def IsEnabled (cell : Cell) (seg : Int) : Prop :=
  ∃ segment, cell.objectAtIndex seg = some segment ∧ segment.enabled = true

/-- Nothing is selected, or the request is made on an enabled segment, to select it or to deselect the selected one. -/
def FitsSelected (cell : Cell) (flag : Bool) (seg : Int) : Prop :=
  cell.selectedSegment = -1 ∨ cell.IsEnabled seg ∧ (flag = true ∨ seg = cell.selectedSegment)

/-- The selection can move from the selected segment to this one. -/
def FitsMove (cell : Cell) (seg : Int) : Prop :=
  cell.selectedSegment ≠ -1 ∧ seg < cell.items.length ∧ (cell.IsEnabled cell.selectedSegment ∨ cell.IsEnabled seg)

def Fits (cell : Cell) : Call → Prop
  | .setSegmentCount count => cell.selectedSegment < count
  | .setSelected flag seg => cell.FitsSelected flag seg
  | .setSelectedSegment seg => cell.FitsSelected true seg
  | .setEnabled _ _ => True
  | .makeNextSegmentKey => cell.FitsMove (cell.selectedSegment + 1)
  | .makePreviousSegmentKey => cell.FitsMove (max 0 (cell.selectedSegment - 1))

/-! ## One call -/

/-- No other segment than that of the index has the flag. -/
structure Weak (cell : Cell) : Prop where
  trackingMode : cell.trackingMode = .selectOne
  length : cell.items.length < 2 ^ 63
  selected : cell.selectedSegment = -1 ∨ 0 ≤ cell.selectedSegment ∧ cell.selectedSegment < cell.items.length
  flags : ∀ (n : ℕ) (item : NSSegmentItem), cell.items[n]? = some item →
    item.selected = true → cell.selectedSegment = n

variable {cell cell' : Cell}

theorem Consistent.weak (hc : cell.Consistent) : cell.Weak :=
  ⟨hc.trackingMode, hc.length, hc.selected, fun n item hit => (hc.flags n item hit).mp⟩

variable {n : ℕ}

theorem toNat_index (hn : n < 2 ^ 63) : ((n : Int) % 2 ^ 64).toNat = n := by
  omega

theorem objectAtIndex_natCast (hl : cell.items.length < 2 ^ 63) (hn : n < cell.items.length) :
    cell.objectAtIndex n = cell.items[n]? := by
  rw [objectAtIndex, toNat_index (Nat.lt_trans hn hl)]

/-- The items with the flag at this index alone. -/
def flagging (items : List NSSegmentItem) (chosen : Int) : List NSSegmentItem :=
  items.mapIdx fun n item => { item with selected := decide (chosen = n) }

theorem getElem?_flagging (items : List NSSegmentItem) (chosen : Int) (n : ℕ) :
    (flagging items chosen)[n]? = items[n]?.map fun item => { item with selected := decide (chosen = n) } := by
  rw [flagging, List.getElem?_mapIdx]

theorem flagging_eq_self {chosen : Int} {items : List NSSegmentItem} (h : ∀ (n : ℕ) (item : NSSegmentItem),
    items[n]? = some item → (item.selected = true ↔ chosen = n)) : flagging items chosen = items := by
  refine List.ext_getElem? fun n => ?_
  rw [getElem?_flagging]
  cases hit : items[n]? with
  | none => rfl
  | some item =>
    have hs : decide (chosen = n) = item.selected := by rw [Bool.eq_iff_iff, decide_eq_true_eq, h n item hit]
    rw [Option.map_some, hs]

theorem clear_eq_flagging (hc : cell.Weak) {k : ℕ} (hk : cell.selectedSegment = k) :
    (cell.items.modify k fun item => { item with selected := false }) = flagging cell.items (-1) := by
  refine List.ext_getElem? fun n => ?_
  rw [List.getElem?_modify, getElem?_flagging]
  cases hit : cell.items[n]? with
  | none => rfl
  | some item =>
    by_cases hkn : k = n
    · simp [hkn]
    · have hs : item.selected = false := by
        rw [Bool.eq_false_iff]
        intro hs
        have := hc.flags n item hit hs
        omega
      simp [hkn, ← hs]

theorem flagging_modify (items : List NSSegmentItem) (n : ℕ) (flag : Bool) :
    ((flagging items (-1)).modify n fun item => { item with selected := flag }) =
      flagging items (if flag then n else -1) := by
  refine List.ext_getElem? fun m => ?_
  rw [List.getElem?_modify, getElem?_flagging, getElem?_flagging]
  cases items[m]? with
  | none => rfl
  | some item =>
    cases flag with
    | false => by_cases hn : n = m <;> simp [hn]
    | true =>
      by_cases hn : n = m
      · simp [hn]
      · simp [hn, Int.ofNat_inj.not.mpr hn]

theorem clearPrevious_eq (hc : cell.Weak) :
    cell.clearPrevious = some { cell with items := flagging cell.items (-1) } := by
  unfold clearPrevious
  by_cases hn : cell.selectedSegment = -1
  · rw [if_neg (not_not.mpr hn), flagging_eq_self]
    intro n item hit
    refine iff_of_false (fun hs => ?_) (by omega)
    have := hc.flags n item hit hs
    omega
  · obtain ⟨hz, hlt⟩ := hc.selected.resolve_left hn
    obtain ⟨k, hk⟩ := Int.eq_ofNat_of_zero_le hz
    have hklt : k < cell.items.length := by omega
    rw [if_pos hn, hk, objectAtIndex_natCast hc.length hklt, List.getElem?_eq_getElem hklt, Option.map_some,
      if_pos hc.trackingMode, setItemSelected, toNat_index (Nat.lt_trans hklt hc.length), clear_eq_flagging hc hk, hk]

variable {segment : NSSegmentItem}

/-- The previous segment loses its flag in any case. -/
theorem setSelected_eq (hc : cell.Weak) (hs : cell.items[n]? = some segment)
    (flag : Bool) :
    cell.setSelected flag n = some { cell with
      items := flagging cell.items (if segment.enabled && flag then n else -1)
      selectedSegment :=
        if segment.enabled then (if flag then n else if (n : Int) = cell.selectedSegment then -1 else cell.selectedSegment)
        else cell.selectedSegment } := by
  have hn : n < cell.items.length := (List.getElem?_eq_some_iff.mp hs).1
  have hi := toNat_index (Nat.lt_trans hn hc.length)
  have ho := (objectAtIndex_natCast hc.length hn).trans hs
  rw [setSelected, ho, clearPrevious_eq hc]
  simp only [Option.bind_eq_bind, Option.bind_some, setItemSelected, hi, flagging_modify]
  cases segment.enabled with
  | false => simp
  | true =>
    cases flag with
    | false =>
      by_cases hsm : (n : Int) = cell.selectedSegment <;> simp [hsm]
    | true => simp

theorem objectAtIndex_eq_none (hl : cell.items.length < 2 ^ 63) {index : Int}
    (hi : index = -1 ∨ (cell.items.length : Int) = index) : cell.objectAtIndex index = none := by
  rw [objectAtIndex, List.getElem?_eq_none_iff]
  omega

theorem consistent_flagging_iff (hc : cell.Weak) {chosen sel : Int}
    (hch : chosen = -1 ∨ 0 ≤ chosen ∧ chosen < cell.items.length)
    (hs : sel = -1 ∨ 0 ≤ sel ∧ sel < cell.items.length) :
    ({ cell with items := flagging cell.items chosen, selectedSegment := sel } : Cell).Consistent ↔ chosen = sel := by
  constructor
  · intro hcn
    have hf (n : ℕ) (hn : n < cell.items.length) : chosen = n ↔ sel = n := by
      have hit := getElem?_flagging cell.items chosen n
      rw [List.getElem?_eq_getElem hn, Option.map_some] at hit
      rw [← hcn.flags n _ hit, decide_eq_true_eq]
    rcases hch with hnn | ⟨hz, hlt⟩
    · rcases hs with hnn' | ⟨hz', hlt'⟩
      · rw [hnn, hnn']
      · obtain ⟨n, rfl⟩ := Int.eq_ofNat_of_zero_le hz'
        exact (hf n (by omega)).mpr rfl
    · obtain ⟨n, rfl⟩ := Int.eq_ofNat_of_zero_le hz
      exact ((hf n (by omega)).mp rfl).symm
  · rintro rfl
    have hl : (flagging cell.items chosen).length = cell.items.length := List.length_mapIdx
    refine ⟨hc.trackingMode, by rw [hl]; exact hc.length, by rw [hl]; exact hch, ?_⟩
    intro n item hit
    rw [getElem?_flagging, Option.map_eq_some_iff] at hit
    obtain ⟨_, -, rfl⟩ := hit
    exact decide_eq_true_iff

theorem isEnabled_iff (hl : cell.items.length < 2 ^ 63)
    (hs : cell.items[n]? = some segment) : cell.IsEnabled n ↔ segment.enabled = true := by
  have hn : n < cell.items.length := (List.getElem?_eq_some_iff.mp hs).1
  rw [IsEnabled, objectAtIndex_natCast hl hn, hs]
  exact ⟨fun ⟨_, hsm, he⟩ => Option.some.inj hsm ▸ he, fun he => ⟨_, rfl, he⟩⟩

theorem setSelected_consistent_iff (hc : cell.Weak) (hn : n < cell.items.length) (flag : Bool) :
    (∃ cell', cell.setSelected flag n = some cell' ∧ cell'.Consistent) ↔ cell.FitsSelected flag n := by
  have hs := List.getElem?_eq_getElem hn
  rw [setSelected_eq hc hs]
  simp only [Option.some.injEq, exists_eq_left']
  rw [FitsSelected, isEnabled_iff hc.length hs]
  have hsl := hc.selected
  rw [consistent_flagging_iff hc]
  · cases cell.items[n].enabled with
    | false => simp [eq_comm]
    | true =>
      cases flag with
      | true => simp
      | false =>
        by_cases hsm : (n : Int) = cell.selectedSegment
        · simp [hsm]
        · simp [hsm, eq_comm]
  · split
    · exact .inr ⟨by omega, by omega⟩
    · exact .inl rfl
  · split
    · split
      · exact .inr ⟨by omega, by omega⟩
      · split
        · exact .inl rfl
        · exact hsl
    · exact hsl

theorem setSelected_eq_self (hc : cell.Consistent) (hn : cell.selectedSegment = -1)
    (hs : cell.items[n]? = some segment) (flag : Bool)
    (hr : segment.enabled = false ∨ flag = false) : cell.setSelected flag n = some cell := by
  rw [setSelected_eq hc.weak hs]
  have hits : flagging cell.items (-1) = cell.items := by
    rw [← hn]
    exact flagging_eq_self hc.flags
  rcases hr with hd | hf
  · simp [hd, hits]
  · simp only [hf, hits, Bool.and_false, Bool.false_eq_true, if_false, hn, ite_self]
    rw [← hn]

theorem right_setSelected_iff (hc : cell.Consistent) (hn : n < cell.items.length) (flag : Bool) :
    cell.Right (.setSelected flag n) ↔ cell.FitsSelected flag n := by
  rw [← setSelected_consistent_iff hc.weak hn]
  refine ⟨fun ⟨cell', hc', hcn, _⟩ => ⟨cell', hc', hcn⟩, ?_⟩
  rintro ⟨cell', hc', hcn⟩
  refine ⟨cell', hc', hcn, ?_⟩
  rintro ⟨segment, ho, hr⟩
  have hs := (objectAtIndex_natCast hc.length hn).symm.trans ho
  have hft := (setSelected_consistent_iff hc.weak hn flag).mp ⟨cell', hc', hcn⟩
  rw [FitsSelected, isEnabled_iff hc.length hs] at hft
  have hnn : cell.selectedSegment = -1 := by
    refine hft.resolve_right fun ⟨he, hfl⟩ => ?_
    rcases hr with hd | ⟨hf, hsl⟩
    · exact absurd (he.symm.trans hd) nofun
    · have hsm := hfl.resolve_left (fun h => absurd (h.symm.trans hf) nofun)
      exact absurd (((hc.flags n segment hs).mpr hsm.symm).symm.trans hsl) nofun
  have hsf := setSelected_eq_self hc hnn hs flag (hr.imp_right And.left)
  exact Option.some.inj (hc'.symm.trans hsf)

theorem move_consistent_iff (hc : cell.Consistent) {target : ℕ} (ht : target ≤ cell.items.length) :
    (∃ cell', (cell.setSelected false cell.selectedSegment).bind (·.setSelected true target) = some cell' ∧
      cell'.Consistent) ↔ cell.FitsMove target := by
  unfold FitsMove
  rcases hc.selected with hnn | ⟨hz, hlt⟩
  · refine iff_of_false ?_ fun h => h.1 hnn
    rintro ⟨cell', hc', -⟩
    rw [setSelected, objectAtIndex_eq_none hc.length (.inl hnn)] at hc'
    exact absurd hc' nofun
  · obtain ⟨k, hk⟩ := Int.eq_ofNat_of_zero_le hz
    have hklt : k < cell.items.length := by omega
    have hp := List.getElem?_eq_getElem hklt
    rw [hk, setSelected_eq hc.weak hp, isEnabled_iff hc.length hp, hk]
    simp only [Option.bind_some, Bool.and_false, Bool.false_eq_true, if_false, if_true]
    have hw : ({ cell with
        items := flagging cell.items (-1)
        selectedSegment := if cell.items[k].enabled = true then -1 else k } : Cell).Weak := by
      have hl : (flagging cell.items (-1)).length = cell.items.length := List.length_mapIdx
      refine ⟨hc.trackingMode, by rw [hl]; exact hc.length, ?_, fun n item hit hs => ?_⟩
      · rw [hl]
        dsimp only
        split
        · exact .inl rfl
        · exact .inr ⟨by omega, by omega⟩
      · rw [getElem?_flagging, Option.map_eq_some_iff] at hit
        obtain ⟨_, -, rfl⟩ := hit
        have : (-1 : Int) = n := of_decide_eq_true hs
        omega
    rcases Nat.eq_or_lt_of_le ht with he | ht
    · refine iff_of_false ?_ fun h => by omega
      rintro ⟨cell', hc', -⟩
      rw [setSelected, objectAtIndex_eq_none hw.length (.inr (by rw [flagging, List.length_mapIdx, he]))] at hc'
      exact absurd hc' nofun
    · have hn := List.getElem?_eq_getElem ht
      have hn' : (flagging cell.items (-1))[target]? = some { cell.items[target] with selected := false } := by
        rw [getElem?_flagging, hn, Option.map_some, decide_eq_false (by omega)]
      rw [setSelected_consistent_iff hw (by rw [flagging, List.length_mapIdx]; exact ht), FitsSelected,
        isEnabled_iff hw.length hn', isEnabled_iff hc.length hn]
      cases cell.items[k].enabled with
      | true => simp [ht]
      | false =>
        simp [ht]

theorem right_setSelectedSegment_iff (hc : cell.Consistent) (hn : n < cell.items.length) :
    cell.Right (.setSelectedSegment n) ↔ cell.FitsSelected true n := by
  rw [← right_setSelected_iff hc hn]
  have hr : cell.Refuses (.setSelectedSegment n) ↔ cell.Refuses (.setSelected true n) := by simp [Refuses]
  unfold Right
  rw [hr]
  rfl

theorem right_setEnabled (hc : cell.Consistent) (hn : n < cell.items.length) (flag : Bool) :
    cell.Right (.setEnabled flag n) := by
  have hp : (Call.setEnabled flag n).perform cell =
      some { cell with items := cell.items.modify n fun item => { item with enabled := flag } } := by
    rw [Call.perform, setEnabled, objectAtIndex_natCast hc.length hn, List.getElem?_eq_getElem hn,
      toNat_index (Nat.lt_trans hn hc.length)]
    rfl
  have hl : (cell.items.modify n fun item => { item with enabled := flag }).length = cell.items.length :=
    List.length_modify _ _ _
  refine ⟨_, hp, ⟨hc.trackingMode, by rw [hl]; exact hc.length, by rw [hl]; exact hc.selected,
    fun m item hit => ?_⟩, nofun⟩
  rw [List.getElem?_modify, Option.map_eq_map, Option.map_eq_some_iff] at hit
  obtain ⟨item', hit', rfl⟩ := hit
  rw [← hc.flags m item' hit']
  split <;> rfl

theorem right_setSegmentCount_iff (hcl : cell.Consistent) {count : ℕ} (hc : count ≤ 2048) :
    cell.Right (.setSegmentCount count) ↔ cell.selectedSegment < count := by
  have hp : (Call.setSegmentCount count).perform cell = some { cell with
      items := cell.items.take count ++ List.replicate (count - cell.items.length) NSSegmentItem.init } := by
    rw [Call.perform, setSegmentCount, if_neg (by omega)]
    rfl
  have hl : (cell.items.take count ++
      List.replicate (count - cell.items.length) NSSegmentItem.init).length = count := by
    rw [List.length_append, List.length_take, List.length_replicate]
    omega
  constructor
  · rintro ⟨cell', hcl', hcn, -⟩
    obtain rfl := Option.some.inj (hp.symm.trans hcl')
    have hs := hcn.selected
    rw [hl] at hs
    dsimp only at hs
    omega
  · intro hs
    refine ⟨_, hp, ⟨hcl.trackingMode, by rw [hl]; omega, ?_, fun n item hit => ?_⟩, nofun⟩
    · rw [hl]
      have := hcl.selected
      dsimp only
      omega
    · have hn := (List.getElem?_eq_some_iff.mp hit).1
      rw [hl] at hn
      by_cases ho : n < cell.items.length
      · rw [List.getElem?_append_left (by rw [List.length_take]; omega), List.getElem?_take_of_lt hn] at hit
        exact hcl.flags n item hit
      · rw [List.getElem?_append_right (by rw [List.length_take]; omega), List.getElem?_replicate] at hit
        split at hit
        · obtain rfl := Option.some.inj hit
          have := hcl.selected
          exact iff_of_false nofun (by dsimp only; omega)
        · exact absurd hit nofun

theorem right_move_iff (hc : cell.Consistent) {call : Call} {target : ℕ} (ht : target ≤ cell.items.length)
    (hp : call.perform cell = (cell.setSelected false cell.selectedSegment).bind (·.setSelected true target))
    (hr : ¬ cell.Refuses call) : cell.Right call ↔ cell.FitsMove target := by
  rw [← move_consistent_iff hc ht, Right, hp]
  refine exists_congr fun cell' => and_congr_right' ?_
  exact and_iff_left fun h => absurd h hr

theorem right_iff_fits (cell : Cell) (call : Call) (hc : cell.Consistent) (hv : call.Valid cell) :
    cell.Right call ↔ cell.Fits call := by
  have hs := hc.selected
  have hl := hc.length
  cases call with
  | setSegmentCount count =>
    obtain ⟨n, rfl⟩ := Int.eq_ofNat_of_zero_le hv.1
    exact right_setSegmentCount_iff hc (by have := hv.2; omega)
  | setSelected flag seg =>
    obtain ⟨n, rfl⟩ := Int.eq_ofNat_of_zero_le hv.1
    exact right_setSelected_iff hc (by have := hv.2; omega) flag
  | setSelectedSegment segment =>
    obtain ⟨n, rfl⟩ := Int.eq_ofNat_of_zero_le hv.1
    exact right_setSelectedSegment_iff hc (by have := hv.2; omega)
  | setEnabled flag seg =>
    obtain ⟨n, rfl⟩ := Int.eq_ofNat_of_zero_le hv.1
    exact iff_of_true (right_setEnabled hc (by have := hv.2; omega) flag) trivial
  | makeNextSegmentKey =>
    obtain ⟨target, ht⟩ : ∃ target : ℕ, (target : Int) = cell.selectedSegment + 1 :=
      ⟨(cell.selectedSegment + 1).toNat, by omega⟩
    have hn : (if cell.selectedSegment % 2 ^ 64 < cell.items.length then cell.selectedSegment + 1 else 0) =
        (target : Int) := by
      split
      · exact ht.symm
      · omega
    rw [Fits, ← ht]
    refine right_move_iff hc (by omega) ?_ nofun
    rw [Call.perform, makeNextSegmentKey, hn]
    rfl
  | makePreviousSegmentKey =>
    obtain ⟨target, ht⟩ : ∃ target : ℕ, (target : Int) = max 0 (cell.selectedSegment - 1) :=
      ⟨(cell.selectedSegment - 1).toNat, by omega⟩
    have hp : (if cell.selectedSegment > 0 then cell.selectedSegment - 1 else 0) = (target : Int) := by
      split <;> omega
    rw [Fits, ← ht]
    refine right_move_iff hc (by omega) ?_ nofun
    rw [Call.perform, makePreviousSegmentKey, hp]
    rfl

end Cell

/-! ## Runs -/

open CallRuns

/-- A run does what is claimed in each of its calls if, and only if, each suits the cell that it is made on. -/
theorem selection_kept_iff (cell : Cell) (calls : List Call) (hcell : cell.Consistent)
    (hvalid : Each (fun cell call => Call.perform cell call) (fun cell call => call.Valid cell) cell calls) :
    Each (fun cell call => Call.perform cell call) Cell.Right cell calls ↔
      Each (fun cell call => Call.perform cell call) Cell.Fits cell calls := by
  refine each_iff Cell.right_iff_fits (fun cell call hr cell' hcell' => ?_) hcell hvalid
  obtain ⟨cell'', hp, hc, -⟩ := hr
  rwa [Option.some.inj (hp.symm.trans hcell')] at hc

/-- Two segments, none of them selected. -/
def twoSegments : Cell :=
  ⟨.selectOne, [.init, .init], -1⟩

theorem twoSegments_consistent : twoSegments.Consistent where
  trackingMode := rfl
  length := by decide
  selected := .inl rfl
  flags n item hit := by
    have hm := List.mem_of_getElem? hit
    simp only [twoSegments, List.mem_cons, List.not_mem_nil, or_false, or_self] at hm
    rw [hm]
    exact iff_of_false nofun (by simp only [twoSegments]; omega)

theorem selection_kept_first : Each (fun cell call => Call.perform cell call) Cell.Right twoSegments
    [.setSelected true 0] := by
  refine (selection_kept_iff twoSegments [.setSelected true 0] twoSegments_consistent
    ⟨⟨by decide, by decide⟩, fun _ _ => trivial⟩).mpr ⟨.inl rfl, fun _ _ => trivial⟩

/-- The key for the next segment raises where none is selected. -/
theorem segments_not_kept : ¬ ∀ (cell : Cell) (calls : List Call), cell.Consistent → cell.items ≠ [] →
    Each (fun cell call => Call.perform cell call) (fun cell call => call.Valid cell) cell calls →
      Each (fun cell call => Call.perform cell call) Cell.Right cell calls := by
  intro h
  obtain ⟨⟨cell', hp, -⟩, -⟩ :=
    h twoSegments [.makeNextSegmentKey] twoSegments_consistent nofun ⟨trivial, fun _ _ => trivial⟩
  have hn : Call.makeNextSegmentKey.perform twoSegments = none := by decide +kernel
  exact absurd (hn.symm.trans hp) nofun

end GnustepGui.NSSegmentedCell
