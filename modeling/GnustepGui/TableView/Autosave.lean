import GnustepGui.TableView.ColumnBookkeeping

/-!
# Loading a saved column layout

`_autoloadTableColumns` moves one column after the other to its saved index, in the order in which
the dictionary enumerates its keys. A later move shifts columns that have already been placed, so the
saved order comes back in every case only for three columns or fewer (`restores_iff`).
-/

namespace GnustepGui.TableView

open Positions

/-! ## One move for each index -/

/-- Takes an index out of a list of indexes and puts it back at its own place. -/
def place (order : List Nat) (k : Nat) : List Nat := (order.erase k).insertIdx k k

theorem place_at {pre post : List Nat} {k : Nat} (hk : k ∉ pre) :
    place (pre ++ k :: post) k = (pre ++ post).insertIdx k k := by
  rw [place, List.erase_append_right _ hk, List.erase_cons_head]

/-- An index that stands at its own place stays there. -/
theorem place_fixed {order : List Nat} {k : Nat} (hnd : order.Nodup) (hk : order[k]? = some k) :
    place order k = order := by
  obtain ⟨hlt, ha⟩ := List.getElem?_eq_some_iff.1 hk
  have hs : order.take k ++ k :: order.drop (k + 1) = order := by
    calc order.take k ++ k :: order.drop (k + 1)
        = order.take k ++ order[k] :: order.drop (k + 1) := by rw [ha]
      _ = order.take k ++ order.drop k := by rw [List.drop_eq_getElem_cons hlt]
      _ = order := List.take_append_drop k order
  have hn : k ∉ order.take k := by
    intro hm
    rw [← hs, List.nodup_append] at hnd
    exact hnd.2.2 k hm k List.mem_cons_self rfl
  have hl : (order.take k).length = k := List.length_take_of_le hlt.le
  have hin := insertIdx_at (order.take k) (order.drop (k + 1)) k
  rw [hl] at hin
  calc place order k = place (order.take k ++ k :: order.drop (k + 1)) k := by rw [hs]
    _ = (order.take k ++ order.drop (k + 1)).insertIdx k k := place_at hn
    _ = order.take k ++ k :: order.drop (k + 1) := hin
    _ = order := hs

theorem foldl_place_fixed {order keys : List Nat} (hnd : order.Nodup)
    (hky : ∀ k ∈ keys, order[k]? = some k) : keys.foldl place order = order := by
  induction keys with
  | nil => rfl
  | cons k keys ih =>
    rw [List.foldl_cons, place_fixed hnd (hky k List.mem_cons_self)]
    exact ih fun k' hk' => hky k' (List.mem_cons_of_mem k hk')

theorem foldl_place_three : ∀ n ∈ [0, 1, 2, 3], ∀ order ∈ (List.range n).permutations',
    ∀ keys ∈ (List.range n).permutations', keys.foldl place order = List.range n := by
  decide

theorem foldl_place_of_le_three {n : Nat} (hn : n ≤ 3) {order keys : List Nat}
    (ho : order.Perm (List.range n)) (hk : keys.Perm (List.range n)) : keys.foldl place order = List.range n := by
  have hm : n ∈ [0, 1, 2, 3] := by
    simp only [List.mem_cons, List.not_mem_nil, or_false]
    omega
  exact foldl_place_three n hm order (List.mem_permutations'.2 ho) keys (List.mem_permutations'.2 hk)

/-- The first of the indexes moved behind the next three. -/
def rotated (m : Nat) : List Nat := [1, 2, 3, 0] ++ List.range' 4 m

/-- Keys that leave the others at their places and then move the first four. -/
def rotatedKeys (m : Nat) : List Nat := List.range' 4 m ++ [2, 3, 1, 0]

theorem range_eq (m : Nat) : List.range (m + 4) = [0, 1, 2, 3] ++ List.range' 4 m := by
  rw [List.range_eq_range', Nat.add_comm, ← List.range'_append_1]
  rfl

theorem rotated_perm (m : Nat) : (rotated m).Perm (List.range (m + 4)) := by
  have hf : [1, 2, 3, 0].Perm [0, 1, 2, 3] := by decide
  rw [range_eq]
  exact hf.append_right _

theorem rotatedKeys_perm (m : Nat) : (rotatedKeys m).Perm (List.range (m + 4)) := by
  have hf : [2, 3, 1, 0].Perm [0, 1, 2, 3] := by decide
  rw [range_eq]
  exact List.perm_append_comm.trans (hf.append_right _)

theorem foldl_place_rotated (m : Nat) : (rotatedKeys m).foldl place (rotated m) = [0, 2, 1, 3] ++ List.range' 4 m := by
  have hnd : (rotated m).Nodup := (rotated_perm m).nodup_iff.2 List.nodup_range
  have hf : ∀ k ∈ List.range' 4 m, (rotated m)[k]? = some k := by
    intro k hk
    obtain ⟨hle, hlt⟩ := List.mem_range'_1.1 hk
    rw [rotated, List.getElem?_append_right hle, List.getElem?_range' (by simp only [List.length]; omega)]
    simp only [List.length]
    congr 1
    omega
  rw [rotatedKeys, List.foldl_append, foldl_place_fixed hnd hf]
  rfl

/-! ## The saved layout -/

variable {I : Type}

/-- What a column keeps when its width changes. -/
def NSTableColumn.withoutWidth (c : NSTableColumn I) : NSTableColumn I := { c with width := 0 }

/-- The same columns, in any order and of any widths. -/
def SameColumns (saved columns : List (NSTableColumn I)) : Prop :=
  (columns.map (·.withoutWidth)).Perm (saved.map (·.withoutWidth))

def DistinctIdentifiers (columns : List (NSTableColumn I)) : Prop :=
  (columns.map (·.identifier)).Nodup

instance [DecidableEq I] (saved columns : List (NSTableColumn I)) : Decidable (SameColumns saved columns) :=
  inferInstanceAs (Decidable (List.Perm _ _))

instance [DecidableEq I] (columns : List (NSTableColumn I)) : Decidable (DistinctIdentifiers columns) :=
  inferInstanceAs (Decidable (List.Nodup _))

theorem setWidth_eq_of_withoutWidth {c d : NSTableColumn I} (h : c.withoutWidth = d.withoutWidth)
    (width : Int) : c.setWidth width = d.setWidth width := by
  simp only [NSTableColumn.withoutWidth, NSTableColumn.mk.injEq] at h
  obtain ⟨ha, hi, -, hm, hmax⟩ := h
  simp only [NSTableColumn.setWidth, NSTableColumn.mk.injEq]
  rw [hm, hmax]
  exact ⟨ha, hi, rfl, rfl, rfl⟩

theorem SameColumns.identifiers {saved columns : List (NSTableColumn I)} (h : SameColumns saved columns) :
    (columns.map (·.identifier)).Perm (saved.map (·.identifier)) := by
  have hm := h.map (·.identifier)
  rw [List.map_map, List.map_map] at hm
  exact hm

theorem SameColumns.distinct {saved columns : List (NSTableColumn I)} (h : SameColumns saved columns)
    (hd : DistinctIdentifiers saved) : DistinctIdentifiers columns := h.identifiers.nodup_iff.2 hd

theorem SameColumns.length_eq {saved columns : List (NSTableColumn I)} (h : SameColumns saved columns) :
    columns.length = saved.length := by
  have hl := List.Perm.length_eq h
  rwa [List.length_map, List.length_map] at hl

theorem eq_of_identifier_eq {columns : List (NSTableColumn I)} (hds : DistinctIdentifiers columns)
    {c d : NSTableColumn I} (hc : c ∈ columns) (hd : d ∈ columns) (h : c.identifier = d.identifier) : c = d :=
  List.inj_on_of_nodup_map hds hc hd h

theorem exists_sides {columns : List (NSTableColumn I)} (hds : DistinctIdentifiers columns)
    {c : NSTableColumn I} (hc : c ∈ columns) :
    ∃ pre post, columns = pre ++ c :: post ∧ ∀ d ∈ pre ++ post, d.identifier ≠ c.identifier := by
  obtain ⟨pre, post, rfl⟩ := List.append_of_mem hc
  refine ⟨pre, post, rfl, fun d hd heq => ?_⟩
  have hnd : (c :: (pre ++ post)).map (·.identifier) |>.Nodup := ((List.perm_middle.map _).nodup_iff).1 hds
  rw [List.map_cons, List.nodup_cons] at hnd
  exact hnd.1 (heq ▸ List.mem_map_of_mem hd)

section Layout

variable [DecidableEq I] {saved : List (NSTableColumn I)} {tv : NSTableView I}

/-- The index at which a column was saved. -/
def savedIndex (saved : List (NSTableColumn I)) (identifier : I) : Nat :=
  (saved.map (·.identifier)).idxOf identifier

theorem savedIndex_at {pre post : List (NSTableColumn I)} {c : NSTableColumn I}
    (hother : ∀ d ∈ pre ++ post, d.identifier ≠ c.identifier) :
    savedIndex (pre ++ c :: post) c.identifier = pre.length := by
  have hp : c.identifier ∉ pre.map (·.identifier) := by
    rw [List.mem_map]
    rintro ⟨d, hd, heq⟩
    exact hother d (List.mem_append_left _ hd) heq
  rw [savedIndex, List.map_append, List.map_cons, List.idxOf_append_of_notMem hp,
    List.idxOf_cons_self, List.length_map, Nat.add_zero]

theorem savedIndex_lt {c : NSTableColumn I} (hc : c ∈ saved) : savedIndex saved c.identifier < saved.length := by
  have hlt := List.idxOf_lt_length_of_mem (List.mem_map_of_mem (f := (·.identifier)) hc)
  rwa [List.length_map] at hlt

theorem getElem?_savedIndex (hd : DistinctIdentifiers saved) {c : NSTableColumn I} (hc : c ∈ saved) :
    saved[savedIndex saved c.identifier]? = some c := by
  obtain ⟨pre, post, rfl, hother⟩ := exists_sides hd hc
  rw [savedIndex_at hother, getElem?_at]

theorem savedIndex_getElem (hd : DistinctIdentifiers saved) {i : Nat} (hi : i < saved.length) :
    savedIndex saved saved[i].identifier = i := by
  have ha := getElem?_savedIndex hd (List.getElem_mem hi)
  obtain ⟨hlt, ha⟩ := List.getElem?_eq_some_iff.1 ha
  exact (List.Nodup.getElem_inj_iff hd.of_map).1 ha

theorem map_savedIndex (hd : DistinctIdentifiers saved) :
    saved.map (fun c => savedIndex saved c.identifier) = List.range saved.length := by
  apply List.ext_getElem
  · rw [List.length_map, List.length_range]
  · intro i hi _
    rw [List.length_map] at hi
    rw [List.getElem_map, List.getElem_range, savedIndex_getElem hd hi]

theorem columnWithIdentifier_eq (hd : DistinctIdentifiers tv.tableColumns) {c : NSTableColumn I}
    (hc : c ∈ tv.tableColumns) : tv.columnWithIdentifier c.identifier = savedIndex tv.tableColumns c.identifier := by
  obtain ⟨pre, post, hcl, hother⟩ := exists_sides hd hc
  rw [columnWithIdentifier_at hcl hother, hcl, savedIndex_at hother]

theorem foldl_setObject (entry : NSTableColumn I → Int × Int) (columns : List (NSTableColumn I))
    (config : Layout I) (hnd : (config.map (·.1) ++ columns.map (·.identifier)).Nodup) :
    columns.foldl (fun config c => NSTableView.setObject config c.identifier (entry c)) config =
      config ++ columns.map (fun c => (c.identifier, entry c)) := by
  induction columns generalizing config with
  | nil => simp
  | cons c columns ih =>
    have hf : NSTableView.setObject config c.identifier (entry c) = config ++ [(c.identifier, entry c)] := by
      rw [NSTableView.setObject, List.filter_eq_self.2]
      intro e he
      have hd := (List.nodup_append.1 hnd).2.2 e.1 (List.mem_map_of_mem he) c.identifier
        (by simp)
      simpa using hd
    have hnd' : ((config ++ [(c.identifier, entry c)]).map (·.1) ++ columns.map (·.identifier)).Nodup := by
      simpa using hnd
    rw [List.foldl_cons, hf, ih _ hnd', List.map_cons, List.append_assoc, List.singleton_append]

/-- What is saved of a column. -/
def saving (saved : List (NSTableColumn I)) (c : NSTableColumn I) : I × Int × Int :=
  (c.identifier, NSTableView.intValue c.width, savedIndex saved c.identifier)

theorem layout_eq (hd : DistinctIdentifiers tv.tableColumns) :
    tv.layout = tv.tableColumns.map (saving tv.tableColumns) := by
  have hnd : (([] : Layout I).map (·.1) ++ tv.tableColumns.map (·.identifier)).Nodup := hd
  rw [NSTableView.layout, foldl_setObject _ _ _ hnd, List.nil_append]
  refine List.map_congr_left fun c hc => ?_
  rw [saving, columnWithIdentifier_eq hd hc]

theorem find?_saving (hds : DistinctIdentifiers saved) {c : NSTableColumn I} (hc : c ∈ saved) :
    (saved.map (saving saved)).find? (·.1 = c.identifier) = some (saving saved c) := by
  obtain ⟨pre, post, hcl, hother⟩ := exists_sides hds hc
  have hp : (pre.map (saving saved)).find? (·.1 = c.identifier) = none := by
    rw [List.find?_eq_none]
    intro e he
    obtain ⟨d, hd, rfl⟩ := List.mem_map.1 he
    rw [decide_eq_true_iff]
    exact hother d (List.mem_append_left _ hd)
  have hm : saved.map (saving saved) = pre.map (saving saved) ++ saving saved c :: post.map (saving saved) := by
    conv_lhs => rw [hcl]
    rw [List.map_append, List.map_cons, ← hcl]
  rw [hm, List.find?_append, hp]
  simp [saving]

end Layout

/-! ## Loading it -/

section Loading

variable [DecidableEq I] {saved : List (NSTableColumn I)} {tv : NSTableView I} {c : NSTableColumn I}

theorem autosave_columns (tv : NSTableView I) : tv.autosaveTableColumnsNow.tableColumns = tv.tableColumns ∧
      tv.autosaveTableColumnsNow.numberOfColumns = tv.numberOfColumns := by
  obtain ⟨defaults, hs⟩ := autosave_eq tv
  rw [hs]
  exact ⟨rfl, rfl⟩

theorem moveColumn_columns {pre post : List (NSTableColumn I)} {k : Nat}
    (hcl : tv.tableColumns = pre ++ c :: post) (hcn : tv.numberOfColumns = tv.tableColumns.length)
    (hk : k < tv.tableColumns.length) : (tv.moveColumn pre.length k).tableColumns = (pre ++ post).insertIdx k c ∧
      (tv.moveColumn pre.length k).numberOfColumns = tv.numberOfColumns := by
  have hl : tv.tableColumns.length = pre.length + 1 + post.length := by
    rw [hcl, List.length_append, List.length_cons]
    omega
  have hc : ¬ ((pre.length : Int) < 0 ∨ (pre.length : Int) > tv.numberOfColumns - 1) := by omega
  have hn : ¬ ((k : Int) < 0 ∨ (k : Int) > tv.numberOfColumns - 1) := by omega
  unfold NSTableView.moveColumn
  rw [if_neg hc, if_neg hn]
  split
  · rename_i hs
    have hs : pre.length = k := by omega
    rw [← hs, insertIdx_at]
    exact ⟨hcl, rfl⟩
  · have ha : tv.tableColumns[pre.length]? = some c := by rw [hcl, getElem?_at]
    obtain ⟨hlf, hnum⟩ := autosave_columns
      { tv with
        selectedColumn := NSTableView.renumber pre.length k tv.selectedColumn
        selectedColumns := NSTableView.renumberSelected tv.selectedColumns pre.length k
        editedColumn := NSTableView.renumber pre.length k tv.editedColumn
        tableColumns := NSTableView.reorder tv.tableColumns pre.length k }
    refine ⟨hlf.trans ?_, hnum⟩
    show NSTableView.reorder tv.tableColumns pre.length k = _
    rw [reorder_eq ha, hcl, eraseIdx_at]

/-- One key of the dictionary takes the width and the index of its column. -/
theorem loadColumn_columns {config : Layout I} {pre post : List (NSTableColumn I)} {width : Int} {k : Nat}
    (hcl : tv.tableColumns = pre ++ c :: post) (hother : ∀ d ∈ pre ++ post, d.identifier ≠ c.identifier)
    (hc : tv.numberOfColumns = tv.tableColumns.length) (hk : k < tv.tableColumns.length)
    (he : config.find? (·.1 = c.identifier) = some (c.identifier, width, (k : Int))) :
    (NSTableView.loadColumn config tv c.identifier).tableColumns = (pre ++ post).insertIdx k (c.setWidth width) ∧
      (NSTableView.loadColumn config tv c.identifier).numberOfColumns = tv.numberOfColumns := by
  have hidx : tv.tableColumns.findIdx? (·.identifier = c.identifier) = some pre.length := by
    have ha := columnWithIdentifier_at hcl hother
    unfold NSTableView.columnWithIdentifier at ha
    split at ha
    · omega
    · rename_i i hi
      rw [hi]
      congr 1
      omega
  have hm : tv.tableColumns.modify pre.length (·.setWidth width) = pre ++ c.setWidth width :: post := by
    rw [hcl, modify_at]
  let widened : NSTableView I := { tv with tableColumns := tv.tableColumns.modify pre.length (·.setWidth width) }
  have hw : widened.columnWithIdentifier (c.setWidth width).identifier = pre.length := columnWithIdentifier_at hm hother
  have hl : NSTableView.loadColumn config tv c.identifier = widened.moveColumn pre.length k := by
    unfold NSTableView.loadColumn
    rw [hidx, he]
    exact congrArg (fun i => widened.moveColumn i k) hw
  have hc : widened.numberOfColumns = widened.tableColumns.length := by
    rw [List.length_modify]
    exact hc
  have hk : k < widened.tableColumns.length := by
    rw [List.length_modify]
    exact hk
  rw [hl]
  exact moveColumn_columns hm hc hk

/-- The column as the saved width makes it. -/
def loaded (c : NSTableColumn I) : NSTableColumn I := c.setWidth (NSTableView.intValue c.width)

/-- The state of the loop after the columns of `done`. -/
structure Loading (saved : List (NSTableColumn I)) (done : List I) (tv : NSTableView I) : Prop where
  counted : tv.numberOfColumns = tv.tableColumns.length
  same : SameColumns saved tv.tableColumns
  placed : ∀ c ∈ tv.tableColumns, c.identifier ∈ done → ∃ d ∈ saved, c = loaded d

/-- The saved indexes of the columns, in the order in which they stand. -/
def savedOrder (saved columns : List (NSTableColumn I)) : List Nat :=
  columns.map (fun c => savedIndex saved c.identifier)

theorem Loading.step {done : List I} (h : Loading saved done tv) (hds : DistinctIdentifiers saved) (hc : c ∈ saved) :
    Loading saved (c.identifier :: done) (NSTableView.loadColumn (saved.map (saving saved)) tv c.identifier) ∧
      savedOrder saved (NSTableView.loadColumn (saved.map (saving saved)) tv c.identifier).tableColumns =
        place (savedOrder saved tv.tableColumns) (savedIndex saved c.identifier) := by
  have hb : c.withoutWidth ∈ tv.tableColumns.map (·.withoutWidth) := h.same.mem_iff.2 (List.mem_map_of_mem hc)
  obtain ⟨d, hd, hdc⟩ := List.mem_map.1 hb
  have hi : d.identifier = c.identifier := congrArg (·.identifier) hdc
  obtain ⟨pre, post, hcl, hother⟩ := exists_sides (h.same.distinct hds) hd
  have hk : savedIndex saved c.identifier < tv.tableColumns.length := by
    rw [h.same.length_eq]
    exact savedIndex_lt hc
  have hent : (saved.map (saving saved)).find? (·.1 = d.identifier) =
      some (d.identifier, NSTableView.intValue c.width, (savedIndex saved c.identifier : Int)) := by
    rw [hi]
    exact find?_saving hds hc
  obtain ⟨hl, hn⟩ := loadColumn_columns hcl hother h.counted hk hent
  rw [hi] at hl hn
  have hw : d.setWidth (NSTableView.intValue c.width) = loaded c := setWidth_eq_of_withoutWidth hdc _
  have hle : savedIndex saved c.identifier ≤ (pre ++ post).length := by
    rw [hcl, List.length_append, List.length_cons] at hk
    rw [List.length_append]
    omega
  rw [hw] at hl
  refine ⟨⟨?_, ?_, ?_⟩, ?_⟩
  · rw [hn, hl, h.counted, hcl, List.length_insertIdx_of_le_length hle,
      List.length_append, List.length_append, List.length_cons, Nat.add_assoc]
  · have hp : ((pre ++ post).insertIdx (savedIndex saved c.identifier) (loaded c)).Perm
        (loaded c :: (pre ++ post)) := List.perm_insertIdx _ _ hle
    have hs := h.same
    rw [SameColumns, hcl] at hs
    have hbc : ((loaded c :: (pre ++ post)).map (·.withoutWidth)).Perm ((pre ++ d :: post).map (·.withoutWidth)) := by
      have hld : (loaded c).withoutWidth = d.withoutWidth := hdc.symm
      rw [List.map_cons, hld, ← List.map_cons]
      exact (List.perm_middle.map _).symm
    rw [SameColumns, hl]
    exact ((hp.map _).trans hbc).trans hs
  · intro e he hdn
    rw [hl, List.mem_insertIdx hle] at he
    rcases he with rfl | he
    · exact ⟨c, hc, rfl⟩
    · have hm : e ∈ tv.tableColumns := by
        rw [hcl]
        exact List.perm_middle.mem_iff.2 (List.mem_cons_of_mem _ he)
      rcases List.mem_cons.1 hdn with hs | hdn
      · exact absurd (hs.trans hi.symm) (hother e he)
      · exact h.placed e hm hdn
  · have hnot : savedIndex saved c.identifier ∉ savedOrder saved pre := by
      intro hm
      obtain ⟨e, he, heq⟩ := List.mem_map.1 hm
      have hm : e.identifier ∈ saved.map (·.identifier) := by
        refine h.same.identifiers.mem_iff.1 (List.mem_map_of_mem ?_)
        rw [hcl]
        exact List.mem_append_left _ he
      refine hother e (List.mem_append_left _ he) ?_
      rw [hi]
      exact (List.idxOf_inj hm).1 heq
    have ho : savedOrder saved tv.tableColumns =
        savedOrder saved pre ++ savedIndex saved c.identifier :: savedOrder saved post := by
      rw [hcl, savedOrder, List.map_append, List.map_cons, hi]
      rfl
    rw [ho, place_at hnot, hl, savedOrder, List.map_insertIdx, List.map_append]
    rfl

theorem Loading.fold {done : List I} (h : Loading saved done tv) (hd : DistinctIdentifiers saved)
    {keys : List I} (hky : ∀ key ∈ keys, key ∈ saved.map (·.identifier)) : Loading saved (keys.reverse ++ done)
        (keys.foldl (NSTableView.loadColumn (saved.map (saving saved))) tv) ∧
      savedOrder saved (keys.foldl (NSTableView.loadColumn (saved.map (saving saved))) tv).tableColumns =
        (keys.map (savedIndex saved)).foldl place (savedOrder saved tv.tableColumns) := by
  induction keys generalizing tv done with
  | nil => exact ⟨h, rfl⟩
  | cons key keys ih =>
    obtain ⟨c, hc, rfl⟩ := List.mem_map.1 (hky key List.mem_cons_self)
    obtain ⟨hs, ho⟩ := h.step hd hc
    obtain ⟨hr, hf⟩ := ih hs fun key' hk' => hky key' (List.mem_cons_of_mem _ hk')
    rw [List.foldl_cons, List.reverse_cons, List.append_assoc]
    refine ⟨hr, ?_⟩
    rw [hf, ho]
    rfl

theorem savedOrder_perm (hd : DistinctIdentifiers saved) {columns : List (NSTableColumn I)}
    (h : SameColumns saved columns) : (savedOrder saved columns).Perm (List.range saved.length) := by
  have hp := h.identifiers.map (savedIndex saved)
  rw [List.map_map, List.map_map] at hp
  rw [← map_savedIndex hd]
  exact hp

/-- The columns once every key has been replayed. -/
structure Replayed (saved columns others : List (NSTableColumn I)) (keys : List I) : Prop where
  placed : ∀ c ∈ columns, ∃ d ∈ saved, c = loaded d
  order : savedOrder saved columns = (keys.map (savedIndex saved)).foldl place (savedOrder saved others)

theorem replay (hd : DistinctIdentifiers saved) (hcn : tv.numberOfColumns = tv.tableColumns.length)
    (hs : SameColumns saved tv.tableColumns) {keys : List I} (hky : keys.Perm (saved.map (·.identifier))) :
    Replayed saved (keys.foldl (NSTableView.loadColumn (saved.map (saving saved))) tv).tableColumns
      tv.tableColumns keys := by
  have hst : Loading saved [] tv := ⟨hcn, hs, fun c _ hdn => absurd hdn List.not_mem_nil⟩
  obtain ⟨he, ho⟩ := hst.fold hd fun key hk => hky.mem_iff.1 hk
  refine ⟨fun c hc => he.placed c hc ?_, ho⟩
  have hm := he.same.identifiers.mem_iff.1 (List.mem_map_of_mem hc)
  rw [List.append_nil, List.mem_reverse]
  exact hky.mem_iff.2 hm

/-- Columns in their saved order are the saved ones, with the widths that the load gives them. -/
theorem Replayed.eq_map {columns others : List (NSTableColumn I)} {keys : List I}
    (h : Replayed saved columns others keys) (hds : DistinctIdentifiers saved)
    (hp : savedOrder saved columns = List.range saved.length) : columns = saved.map loaded := by
  have hl : columns.length = saved.length := by
    have hl := congrArg List.length hp
    rwa [savedOrder, List.length_map, List.length_range] at hl
  apply List.ext_getElem
  · rw [hl, List.length_map]
  · intro i hi hi'
    rw [List.length_map] at hi'
    obtain ⟨d, hd, heq⟩ := h.placed columns[i] (List.getElem_mem hi)
    have hidx : (savedOrder saved columns)[i]? = some i := by rw [hp, List.getElem?_range hi']
    rw [savedOrder, List.getElem?_map, List.getElem?_eq_getElem hi, Option.map_some, Option.some.injEq, heq] at hidx
    have ha := getElem?_savedIndex hds hd
    have hid : savedIndex saved d.identifier = i := hidx
    rw [hid, List.getElem?_eq_getElem hi', Option.some.injEq] at ha
    rw [List.getElem_map, heq, ha]

end Loading

/-! ## The round trip -/

section RoundTrip

variable [DecidableEq I] {tv : NSTableView I} {name : String}

/-- Loading the layout that the table has saved gives back its columns, in every table that holds
them in any order and widths, and for every order of the keys. -/
def Restores (tv : NSTableView I) (name : String) : Prop :=
  ∀ (other : NSTableView I) (allKeys : Layout I → List I),
    other.autosaveTableColumns = true → other.autosaveName = some name →
    other.numberOfColumns = other.tableColumns.length →
    other.defaults ("NSTableView Columns " ++ name) =
      tv.autosaveTableColumnsNow.defaults ("NSTableView Columns " ++ name) →
    SameColumns tv.tableColumns other.tableColumns →
    (allKeys tv.layout).Perm (tv.layout.map (·.1)) →
    (other.autoloadTableColumns allKeys).tableColumns = tv.tableColumns

theorem saved_defaults (hs : tv.autosaveTableColumns = true) (hn : tv.autosaveName = some name) :
    tv.autosaveTableColumnsNow.defaults ("NSTableView Columns " ++ name) = some tv.layout := by
  simp [NSTableView.autosaveTableColumnsNow, hs, hn]

/-- What the load leaves, when the keys are enumerated in the order of `allKeys`. -/
theorem autoload_replays (hs : tv.autosaveTableColumns = true) (hn : tv.autosaveName = some name)
    (hds : DistinctIdentifiers tv.tableColumns) (other : NSTableView I) (allKeys : Layout I → List I)
    (hl : other.autosaveTableColumns = true) (hother : other.autosaveName = some name)
    (hc : other.numberOfColumns = other.tableColumns.length) (hd : other.defaults ("NSTableView Columns " ++ name) =
      tv.autosaveTableColumnsNow.defaults ("NSTableView Columns " ++ name))
    (hsm : SameColumns tv.tableColumns other.tableColumns) (hk : (allKeys tv.layout).Perm (tv.layout.map (·.1))) :
    Replayed tv.tableColumns (other.autoloadTableColumns allKeys).tableColumns other.tableColumns (allKeys tv.layout) ∧
      (allKeys tv.layout).Perm (tv.tableColumns.map (·.identifier)) := by
  rw [saved_defaults hs hn] at hd
  have hlo : other.autoloadTableColumns allKeys =
      (allKeys tv.layout).foldl (NSTableView.loadColumn (tv.tableColumns.map (saving tv.tableColumns))) other := by
    simp only [NSTableView.autoloadTableColumns, hl, hother, hd, layout_eq hds]
  have hi : (allKeys tv.layout).Perm (tv.tableColumns.map (·.identifier)) := by
    refine hk.trans (List.Perm.of_eq ?_)
    rw [layout_eq hds, List.map_map]
    rfl
  rw [hlo]
  exact ⟨replay hds hc hsm hi, hi⟩

theorem restores_of_le_three (hsv : tv.autosaveTableColumns = true) (hn : tv.autosaveName = some name)
    (hds : DistinctIdentifiers tv.tableColumns) (ht : tv.tableColumns.length ≤ 3)
    (hw : ∀ c ∈ tv.tableColumns, c.setWidth (NSTableView.intValue c.width) = c) : Restores tv name := by
  intro other allKeys hl hother hc hd hs hk
  obtain ⟨hr, hin⟩ := autoload_replays hsv hn hds other allKeys hl hother hc
    hd hs hk
  have hi : ((allKeys tv.layout).map (savedIndex tv.tableColumns)).Perm (List.range tv.tableColumns.length) := by
    have hi := hin.map (savedIndex tv.tableColumns)
    rw [List.map_map] at hi
    rw [← map_savedIndex hds]
    exact hi
  have hp := hr.order.trans
    (foldl_place_of_le_three ht (savedOrder_perm hds hs) hi)
  rw [hr.eq_map hds hp]
  exact (List.map_congr_left hw).trans (List.map_id' _)

/-- The columns that stand in a given order of their saved indexes. -/
def inOrder (saved : List (NSTableColumn I)) (order : List Nat) : List (NSTableColumn I) :=
  order.filterMap (saved[·]?)

omit [DecidableEq I] in
theorem inOrder_range (saved : List (NSTableColumn I)) : inOrder saved (List.range saved.length) = saved := by
  induction saved using List.reverseRecOn with
  | nil => rfl
  | append_singleton saved c ih =>
    have hf : inOrder (saved ++ [c]) (List.range saved.length) = inOrder saved (List.range saved.length) :=
      List.filterMap_congr fun i hi => List.getElem?_append_left (List.mem_range.1 hi)
    rw [List.length_append, List.length_singleton, List.range_succ, inOrder, List.filterMap_append]
    rw [inOrder] at hf ih
    rw [hf, inOrder, ih]
    simp

omit [DecidableEq I] in
theorem inOrder_perm {saved : List (NSTableColumn I)} {order : List Nat}
    (ho : order.Perm (List.range saved.length)) : (inOrder saved order).Perm saved := by
  have hp := ho.filterMap (saved[·]?)
  exact hp.trans (List.Perm.of_eq (inOrder_range saved))

theorem savedOrder_inOrder {saved : List (NSTableColumn I)} (hd : DistinctIdentifiers saved)
    {order : List Nat} (ho : ∀ k ∈ order, k < saved.length) : savedOrder saved (inOrder saved order) = order := by
  induction order with
  | nil => rfl
  | cons k order ih =>
    have hk := ho k List.mem_cons_self
    have hc : inOrder saved (k :: order) = saved[k] :: inOrder saved order := by
      rw [inOrder, List.filterMap_cons, List.getElem?_eq_getElem hk]
      rfl
    have hr := ih fun k' hk' => ho k' (List.mem_cons_of_mem k hk')
    rw [savedOrder] at hr
    rw [hc, savedOrder, List.map_cons, savedIndex_getElem hd hk, hr]

theorem loaded_of_restores (hs : tv.autosaveTableColumns = true) (hn : tv.autosaveName = some name)
    (hds : DistinctIdentifiers tv.tableColumns) (hr : Restores tv name) :
    ∀ c ∈ tv.tableColumns, c.setWidth (NSTableView.intValue c.width) = c := by
  let other : NSTableView I :=
    { tv with
      numberOfColumns := tv.tableColumns.length
      defaults := tv.autosaveTableColumnsNow.defaults }
  let allKeys : Layout I → List I := fun config => config.map (·.1)
  have hrst := hr other allKeys hs hn rfl rfl (List.Perm.refl _) (List.Perm.refl _)
  obtain ⟨hrep, -⟩ := autoload_replays hs hn hds other allKeys
    hs hn rfl rfl (List.Perm.refl _) (List.Perm.refl _)
  intro c hc
  obtain ⟨d, hd, heq⟩ := hrep.placed c (by rw [hrst]; exact hc)
  have hi : c.identifier = d.identifier := congrArg (·.identifier) heq
  have hsm := eq_of_identifier_eq hds hc hd hi
  rw [← hsm] at heq
  exact heq.symm

theorem le_three_of_restores (hs : tv.autosaveTableColumns = true) (hn : tv.autosaveName = some name)
    (hd : DistinctIdentifiers tv.tableColumns) (hres : Restores tv name) : tv.tableColumns.length ≤ 3 := by
  by_contra hmr
  obtain ⟨m, hm⟩ : ∃ m, tv.tableColumns.length = m + 4 := ⟨tv.tableColumns.length - 4, by omega⟩
  have hrt : (rotated m).Perm (List.range tv.tableColumns.length) := hm ▸ rotated_perm m
  have hr : (rotatedKeys m).Perm (List.range tv.tableColumns.length) := hm ▸ rotatedKeys_perm m
  let other : NSTableView I :=
    { tv with
      tableColumns := inOrder tv.tableColumns (rotated m)
      numberOfColumns := (inOrder tv.tableColumns (rotated m)).length
      defaults := tv.autosaveTableColumnsNow.defaults }
  let allKeys : Layout I → List I :=
    fun _ => (inOrder tv.tableColumns (rotatedKeys m)).map (·.identifier)
  have hsm : SameColumns tv.tableColumns other.tableColumns := (inOrder_perm hrt).map _
  have hky : (allKeys tv.layout).Perm (tv.layout.map (·.1)) := by
    rw [layout_eq hd, List.map_map]
    exact (inOrder_perm hr).map _
  have hrst := hres other allKeys hs hn rfl rfl hsm hky
  obtain ⟨hrep, -⟩ := autoload_replays hs hn hd other allKeys
    hs hn rfl rfl hsm hky
  have ho : savedOrder tv.tableColumns other.tableColumns = rotated m :=
    savedOrder_inOrder hd fun k hk => List.mem_range.1 (hrt.mem_iff.1 hk)
  have hi : (allKeys tv.layout).map (savedIndex tv.tableColumns) = rotatedKeys m := by
    rw [List.map_map]
    exact savedOrder_inOrder hd fun k hk => List.mem_range.1 (hr.mem_iff.1 hk)
  have hf := hrep.order
  rw [hrst, hi, ho, foldl_place_rotated, savedOrder, map_savedIndex hd, hm, range_eq] at hf
  exact absurd (List.append_cancel_right hf) (by decide)

/-- A saved layout comes back in every case if there are at most three columns and every width is one
that survives: an `int` within the bounds of its column. -/
theorem restores_iff (hsaves : tv.autosaveTableColumns = true) (hname : tv.autosaveName = some name)
    (hdistinct : DistinctIdentifiers tv.tableColumns) :
    Restores tv name ↔
      tv.tableColumns.length ≤ 3 ∧
        ∀ c ∈ tv.tableColumns, c.setWidth (NSTableView.intValue c.width) = c :=
  ⟨fun h => ⟨le_three_of_restores hsaves hname hdistinct h, loaded_of_restores hsaves hname hdistinct h⟩,
    fun ⟨ht, hw⟩ => restores_of_le_three hsaves hname hdistinct ht hw⟩

end RoundTrip

/-! ## Four columns -/

/-- A table that saves its columns. -/
def savingTable (identifiers : List Nat) : NSTableView Nat :=
  identifiers.foldl (fun tv identifier => tv.addTableColumn (plainColumn identifier))
    (emptyTable true true (some "main") fun _ => none)

theorem restores_three : Restores (savingTable [0, 1, 2]) "main" :=
  (restores_iff rfl rfl (by decide)).2 ⟨by decide, by decide⟩

/-- The four columns of the table, found in another order and moved in the order 2, 3, 1, 0, come back
with the middle two exchanged. -/
theorem not_restores_four :
    DistinctIdentifiers (savingTable [0, 1, 2, 3]).tableColumns ∧
      ¬ Restores (savingTable [0, 1, 2, 3]) "main" := by
  refine ⟨by decide, fun hr => ?_⟩
  have hrst := hr
    { savingTable [1, 2, 3, 0] with defaults := (savingTable [0, 1, 2, 3]).autosaveTableColumnsNow.defaults }
    (fun _ => [2, 3, 1, 0]) rfl rfl rfl rfl (by decide) (by decide)
  exact absurd hrst (by decide)

end GnustepGui.TableView
