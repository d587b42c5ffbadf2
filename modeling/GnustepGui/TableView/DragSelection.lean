import GnustepGui.TableView.RowSelection

/-!
# Dragging over rows

While the pointer stays on rows, the selection is that of the rows between the press and the pointer.
When it leaves the rows and comes back, the rows that were tracked on the way out are not undone: with
shift they stay as they are unless a later visit covers them (`drag_iff`). Without shift the first pass
clears the selection, so nothing is left.
-/

namespace GnustepGui.TableView

/-! ## Loops over rows -/

abbrev Between (o r i : Int) : Prop := (o ≤ i ∧ i ≤ r) ∨ (r ≤ i ∧ i ≤ o)

theorem mem_upTo {a b i : Int} : i ∈ upTo a b ↔ a ≤ i ∧ i ≤ b := by
  simp only [upTo, List.mem_map, List.mem_range]
  constructor
  · rintro ⟨k, hk, rfl⟩
    omega
  · rintro ⟨ha, hb⟩
    exact ⟨(i - a).toNat, by omega, by omega⟩

theorem mem_downTo {a b i : Int} : i ∈ downTo a b ↔ b ≤ i ∧ i ≤ a := by
  simp only [downTo, List.mem_map, List.mem_range]
  constructor
  · rintro ⟨k, hk, rfl⟩
    omega
  · rintro ⟨hb, ha⟩
    exact ⟨(a - i).toNat, by omega, by omega⟩

/-- A turn of a loop changes only whether its own row is selected, and doing it twice changes nothing
more. -/
structure Touches (turn : RowSelection → Int → RowSelection) (rule : Int → Prop → Prop) : Prop where
  own : ∀ s i, i ∈ (turn s i).selectedRows ↔ rule i (i ∈ s.selectedRows)
  other : ∀ s i j, j ≠ i → (j ∈ (turn s i).selectedRows ↔ j ∈ s.selectedRows)
  twice : ∀ i p, rule i (rule i p) ↔ rule i p

section Loops

variable {turn : RowSelection → Int → RowSelection} {rule : Int → Prop → Prop} {s : RowSelection} {i : Int}

theorem Touches.mem_foldl_of_notMem (h : Touches turn rule) {rows : List Int} (hi : i ∉ rows) :
    i ∈ (rows.foldl turn s).selectedRows ↔ i ∈ s.selectedRows := by
  induction rows generalizing s with
  | nil => rfl
  | cons j rows ih =>
    obtain ⟨hij, hi⟩ := not_or.1 (List.mem_cons.not.1 hi)
    rw [List.foldl_cons, ih hi, h.other s j i hij]

theorem Touches.mem_foldl_of_mem (h : Touches turn rule) {rows : List Int} (hi : i ∈ rows) :
    i ∈ (rows.foldl turn s).selectedRows ↔ rule i (i ∈ s.selectedRows) := by
  induction rows generalizing s with
  | nil => exact absurd hi List.not_mem_nil
  | cons j rows ih =>
    rw [List.foldl_cons]
    by_cases hij : i = j
    · subst hij
      by_cases hm : i ∈ rows
      · rw [ih hm, propext (h.own s i), h.twice]
      · rw [h.mem_foldl_of_notMem hm, h.own]
    · rw [ih (List.mem_of_ne_of_mem hij hi), propext (h.other s j i hij)]

theorem Touches.mem_foldl (h : Touches turn rule) (rows : List Int) :
    i ∈ (rows.foldl turn s).selectedRows ↔
      if i ∈ rows then rule i (i ∈ s.selectedRows) else i ∈ s.selectedRows := by
  split
  · rename_i hi
    exact h.mem_foldl_of_mem hi
  · rename_i hi
    exact h.mem_foldl_of_notMem hi

theorem Touches.mem_firstPass (h : Touches turn rule) {o r : Int} :
    i ∈ (firstPass turn s o r).selectedRows ↔
      if Between o r i then rule i (i ∈ s.selectedRows) else i ∈ s.selectedRows := by
  unfold firstPass Between
  split
  · rw [h.mem_foldl]
    simp only [mem_upTo]
    split_ifs <;> first | exact Iff.rfl | (exfalso; omega)
  · rw [h.mem_foldl]
    simp only [mem_downTo]
    split_ifs <;> first | exact Iff.rfl | (exfalso; omega)

end Loops

@[simp] theorem orFirst_selectedRows (s : RowSelection) : s.orFirst.selectedRows = s.selectedRows := by
  unfold RowSelection.orFirst
  split
  · split <;> rfl
  · rfl

@[simp] theorem orLast_selectedRows (s : RowSelection) : s.orLast.selectedRows = s.selectedRows := by
  unfold RowSelection.orLast
  split
  · split <;> rfl
  · rfl

/-- The ends of the branches do not change which rows are selected. -/
structure Passes.Ends (p : Passes) : Prop where
  extended : ∀ s, (p.extended s).selectedRows = s.selectedRows
  reducedDown : ∀ s, (p.reducedDown s).selectedRows = s.selectedRows
  reducedUp : ∀ s, (p.reducedUp s).selectedRows = s.selectedRows
  crossedUp : ∀ s, (p.crossedUp s).selectedRows = s.selectedRows
  crossedDown : ∀ s, (p.crossedDown s).selectedRows = s.selectedRows

/-- After the first pass, the rows newly between the press and the pointer are extended over, and the
rows no longer between them are reduced. -/
theorem Passes.mem_later {p : Passes} {extending reducing : Int → Prop → Prop}
    (hextend : Touches p.extend extending) (hr : Touches p.reduce reducing) (he : p.Ends)
    {s : RowSelection} {o a r i : Int} :
    i ∈ (p.later s o a r).selectedRows ↔
      if Between o r i then
        if Between o a i then i ∈ s.selectedRows else extending i (i ∈ s.selectedRows)
      else if Between o a i then reducing i (i ∈ s.selectedRows)
      else i ∈ s.selectedRows := by
  unfold Passes.later Between
  simp only
  split
  · split
    · rw [he.extended, hextend.mem_foldl]
      simp only [mem_upTo]
      split_ifs <;> first | exact Iff.rfl | (exfalso; omega)
    · rw [he.reducedDown, hr.mem_foldl]
      simp only [mem_downTo]
      split_ifs <;> first | exact Iff.rfl | (exfalso; omega)
  · split
    · split
      · rw [he.extended, hextend.mem_foldl]
        simp only [mem_downTo]
        split_ifs <;> first | exact Iff.rfl | (exfalso; omega)
      · rw [he.reducedUp, hr.mem_foldl]
        simp only [mem_upTo]
        split_ifs <;> first | exact Iff.rfl | (exfalso; omega)
    · split
      · rw [he.crossedUp, hextend.mem_foldl, propext (hr.mem_foldl _)]
        simp only [mem_upTo]
        split_ifs <;> first | exact Iff.rfl | (exfalso; omega)
      · split
        · rw [he.crossedDown, hextend.mem_foldl, propext (hr.mem_foldl _)]
          simp only [mem_downTo]
          split_ifs <;> first | exact Iff.rfl | (exfalso; omega)
        · exfalso
          omega

/-! ## The turns of the modes -/

section Modes

variable (can : Int → Bool) (old : Finset Int)

theorem touches_selectRow :
    Touches (fun s i => (RowSelection.selectRow can s i).1) fun i p => p ∨ can i = true where
  own s i := by
    unfold RowSelection.selectRow
    split <;> simp_all
  other s i j hi := by
    unfold RowSelection.selectRow
    split <;> simp [hi]
  twice i p := by tauto

theorem touches_addRow : Touches (addRow can) fun i p => p ∨ can i = true where
  own s i := by
    unfold addRow
    split
    · rename_i hi
      exact ⟨fun _ => .inl hi, fun _ => hi⟩
    · exact (touches_selectRow can).own s i
  other s i j hij := by
    unfold addRow
    split
    · rfl
    · exact (touches_selectRow can).other s i j hij
  twice i p := by tauto

theorem touches_unselectRow : Touches RowSelection.unselectRow fun _ _ => False where
  own s i := by
    unfold RowSelection.unselectRow
    split <;> simp_all
  other s i j hi := by
    unfold RowSelection.unselectRow
    split <;> simp [hi]
  twice _ _ := Iff.rfl

theorem touches_dropRow : Touches (dropRow old) fun i p => p ∧ i ∈ old where
  own s i := by
    unfold dropRow
    split
    · rename_i hi
      exact ⟨fun hs => ⟨hs, hi⟩, fun hs => hs.1⟩
    · rename_i hi
      rw [touches_unselectRow.own]
      exact ⟨False.elim, fun hs => hi hs.2⟩
  other s i j hij := by
    unfold dropRow
    split
    · rfl
    · exact touches_unselectRow.other s i j hij
  twice i p := by tauto

theorem touches_restoreRow : Touches (restoreRow old) fun i p => p ∨ i ∈ old where
  own s i := by
    unfold restoreRow
    split <;> simp_all
  other s i j hi := by
    unfold restoreRow
    split <;> simp [hi]
  twice i p := by tauto

theorem addingPasses_ends : (addingPasses can old).Ends :=
  ⟨fun _ => rfl, orLast_selectedRows, orFirst_selectedRows, orFirst_selectedRows, orLast_selectedRows⟩

theorem newPasses_ends : (newPasses can).Ends :=
  ⟨fun _ => rfl, orLast_selectedRows, orFirst_selectedRows, orFirst_selectedRows, orLast_selectedRows⟩

theorem antiPasses_ends : (antiPasses old).Ends :=
  ⟨orFirst_selectedRows, fun _ => rfl, fun _ => rfl, orFirst_selectedRows, orFirst_selectedRows⟩

end Modes

/-! ## What a visit leaves behind -/

/-- The pointer is on a row such that `i` lies between it and the press. -/
def Covers (o i r : Int) : Prop := r ≠ -1 ∧ Between o r i

/-- The pointer left the rows from one that covers `i`, and no later one covers it. -/
def LeftBehind (o i : Int) (rows : List Int) : Prop :=
  ∃ before r after, rows = before ++ r :: -1 :: after ∧ Covers o i r ∧ ∀ r' ∈ after, ¬ Covers o i r'

/-- The row `i` is tracked: the pointer covers it, or has left it behind. -/
def Tracked (o i : Int) (rows : List Int) : Prop :=
  (∃ before r, rows = before ++ [r] ∧ Covers o i r) ∨ LeftBehind o i rows

section Visits

variable {o i r a : Int} {rows : List Int}

theorem not_tracked_nil : ¬ Tracked o i [] := by
  rintro (⟨before, r, h, -⟩ | ⟨before, r, after, h, -⟩)
  · exact absurd h (by simp)
  · exact absurd h (by simp)

theorem leftBehind_concat (hr : r ≠ -1) : LeftBehind o i (rows ++ [r]) ↔ LeftBehind o i rows ∧ ¬ Covers o i r := by
  constructor
  · rintro ⟨before, r', after, h, hc, hl⟩
    rcases List.eq_nil_or_concat after with rfl | ⟨after, x, rfl⟩
    · have hls : rows ++ [r] = (before ++ [r']) ++ [-1] := by rw [h]; simp
      exact absurd (List.append_inj_right' hls rfl) (by simpa using hr)
    · rw [List.concat_eq_append] at h hl
      have hls : rows ++ [r] = (before ++ r' :: -1 :: after) ++ [x] := by rw [h]; simp
      obtain ⟨rfl, hx⟩ := List.append_inj' hls rfl
      obtain rfl := List.singleton_inj.1 hx
      exact ⟨⟨before, r', after, rfl, hc, fun y hy => hl y (List.mem_append_left _ hy)⟩,
        hl r (by simp)⟩
  · rintro ⟨⟨before, r', after, rfl, hc, hl⟩, hr'⟩
    refine ⟨before, r', after ++ [r], by simp, hc, fun y hy => ?_⟩
    rcases List.mem_append.1 hy with hy | hy
    · exact hl y hy
    · exact List.mem_singleton.1 hy ▸ hr'

theorem tracked_concat (hr : r ≠ -1) :
    Tracked o i (rows ++ [r]) ↔ Between o r i ∨ (LeftBehind o i rows ∧ ¬ Between o r i) := by
  have hc : Covers o i r ↔ Between o r i := ⟨And.right, fun h => ⟨hr, h⟩⟩
  rw [Tracked, leftBehind_concat hr, hc]
  constructor
  · rintro (⟨before, r', h, hr'⟩ | h)
    · obtain rfl := List.singleton_inj.1 (List.append_inj_right' h rfl)
      exact .inl hr'.2
    · exact .inr h
  · rintro (h | h)
    · exact .inl ⟨rows, r, rfl, hr, h⟩
    · exact .inr h

/-- Leaving the rows changes nothing. -/
theorem tracked_concat_none : Tracked o i (rows ++ [-1]) ↔ Tracked o i rows := by
  constructor
  · rintro (⟨before, r', h, hr'⟩ | ⟨before, r', after, h, hc, hl⟩)
    · obtain rfl := List.singleton_inj.1 (List.append_inj_right' h rfl)
      exact absurd rfl hr'.1
    · rcases List.eq_nil_or_concat after with rfl | ⟨after, x, rfl⟩
      · have hls : rows ++ [-1] = (before ++ [r']) ++ [-1] := by rw [h]; simp
        exact .inl ⟨before, r', List.append_cancel_right hls, hc⟩
      · rw [List.concat_eq_append] at h hl
        have hls : rows ++ [-1] = (before ++ r' :: -1 :: after) ++ [x] := by rw [h]; simp
        obtain ⟨rfl, -⟩ := List.append_inj' hls rfl
        exact .inr ⟨before, r', after, rfl, hc, fun y hy => hl y (List.mem_append_left _ hy)⟩
  · rintro (⟨before, r', rfl, hc⟩ | ⟨before, r', after, rfl, hc, hl⟩)
    · exact .inr ⟨before, r', [], by simp, hc, fun y hy => absurd hy List.not_mem_nil⟩
    · refine .inr ⟨before, r', after ++ [-1], by simp, hc, fun y hy => ?_⟩
      rcases List.mem_append.1 hy with hy | hy
      · exact hl y hy
      · rw [List.mem_singleton.1 hy]
        exact fun h => h.1 rfl

theorem tracked_of_covers (h : Between o a i) (ha : a ≠ -1) :
    Tracked o i (rows ++ [a]) ∧ ¬ LeftBehind o i (rows ++ [a]) :=
  ⟨(tracked_concat ha).2 (.inl h), fun hl => ((leftBehind_concat ha).1 hl).2 ⟨ha, h⟩⟩

theorem tracked_iff_leftBehind (h : ¬ Covers o i a) : Tracked o i (rows ++ [a]) ↔ LeftBehind o i (rows ++ [a]) := by
  refine ⟨?_, .inr⟩
  rintro (⟨before, r', heq, hr'⟩ | hl)
  · obtain rfl := List.singleton_inj.1 (List.append_inj_right' heq rfl)
    exact absurd hr' h
  · exact hl

end Visits

/-! ## The tracking loop -/

section Loop

variable {can : Int → Bool} {n o : Int} {shift : Bool} {s : RowSelection} {rows : List Int} {i r : Int}

/-- The row at which the pointer is, or -1. -/
def lastRow (rows : List Int) : Int := rows.getLast?.getD (-1)

/-- The mode in which the rows are tracked. -/
def modeOf (shift : Bool) (s : RowSelection) (o : Int) : SelectionMode :=
  { shiftDown := shift, addingRow := decide (o ∉ s.selectedRows) }

/-- What the loop does from one row to the next. -/
def compute (can : Int → Bool) (shift : Bool) (s : RowSelection) (o : Int) (now : RowSelection)
    (oldRow currentRow : Int) : RowSelection :=
  computeNewSelection can s.selectedRows now o oldRow currentRow (modeOf shift s o)

theorem trackRows_concat : trackRows can n shift s o (rows ++ [r]) =
      (trackRows can n shift s o rows).event can s.selectedRows n (modeOf shift s o) r := by
  rw [trackRows, List.foldl_append]
  rfl

theorem event_rows (t : Tracking) (ho : o ≠ -1) (hor : t.originalRow = o) :
    (t.event can s.selectedRows n (modeOf shift s o) r).originalRow = o ∧
      (t.event can s.selectedRows n (modeOf shift s o) r).currentRow = r := by
  unfold Tracking.event
  simp only [hor, ho, if_false]
  split
  · exact ⟨rfl, rfl⟩
  · split <;> exact ⟨rfl, rfl⟩

variable (can n shift s rows) in
theorem trackRows_rows (ho : o ≠ -1) : (trackRows can n shift s o rows).originalRow = o ∧
      (trackRows can n shift s o rows).currentRow = lastRow rows := by
  induction rows using List.reverseRecOn with
  | nil => exact ⟨rfl, rfl⟩
  | append_singleton rows r ih =>
    rw [trackRows_concat, lastRow, List.getLast?_concat]
    exact event_rows _ ho ih.1

theorem trackRows_selection_same (ho : o ≠ -1) (h : lastRow rows = r ∨ r = -1) :
    (trackRows can n shift s o (rows ++ [r])).selection = (trackRows can n shift s o rows).selection := by
  obtain ⟨hor, hc⟩ := trackRows_rows can n shift s rows ho
  rw [trackRows_concat]
  unfold Tracking.event
  simp only [hc]
  split
  · rfl
  · rename_i hm
    rw [if_neg]
    have hn := h.resolve_left hm
    omega

theorem trackRows_selection_moved (ho : o ≠ -1) (hm : lastRow rows ≠ r) (hr : 0 ≤ r ∧ r < n) :
    (trackRows can n shift s o (rows ++ [r])).selection =
      compute can shift s o (trackRows can n shift s o rows).selection (lastRow rows) r := by
  obtain ⟨hor, hc⟩ := trackRows_rows can n shift s rows ho
  rw [trackRows_concat]
  unfold Tracking.event
  simp only [hc, hor, ho, if_false, hm]
  rw [if_pos hr]
  rfl

/-- How a move changes whether a row is selected, on the first pass and after it. -/
structure Moves (move : RowSelection → Int → Int → RowSelection) (o : Int)
    (extending reducing : Int → Prop → Prop) : Prop where
  first : ∀ s r i, i ∈ (move s (-1) r).selectedRows ↔
    if Between o r i then extending i (i ∈ s.selectedRows) else i ∈ s.selectedRows
  later : ∀ s a r i, a ≠ -1 → (i ∈ (move s a r).selectedRows ↔
    if Between o r i then
      if Between o a i then i ∈ s.selectedRows else extending i (i ∈ s.selectedRows)
    else if Between o a i then reducing i (i ∈ s.selectedRows)
    else i ∈ s.selectedRows)

variable (o rows i) in
theorem tracked_last : (Covers o i (lastRow rows) → Tracked o i rows ∧ ¬ LeftBehind o i rows) ∧
      (¬ Covers o i (lastRow rows) → (Tracked o i rows ↔ LeftBehind o i rows)) := by
  rcases List.eq_nil_or_concat rows with rfl | ⟨rows, a, rfl⟩
  · refine ⟨fun h => absurd rfl h.1, fun _ => ⟨fun h => absurd h not_tracked_nil, .inr⟩⟩
  · rw [List.concat_eq_append]
    have hl : lastRow (rows ++ [a]) = a := by rw [lastRow, List.getLast?_concat]; rfl
    rw [hl]
    exact ⟨fun h => tracked_of_covers h.2 h.1, tracked_iff_leftBehind⟩

/-- With shift: a tracked row is what an extension makes of it, and any other row is as before. -/
theorem tracked_run {extending reducing : Int → Prop → Prop} (ho : o ≠ -1)
    (hmov : Moves (compute can shift s o) o extending reducing)
    (hextend : extending i (extending i (i ∈ s.selectedRows)) ↔ extending i (i ∈ s.selectedRows))
    (hred : reducing i (extending i (i ∈ s.selectedRows)) ↔ i ∈ s.selectedRows)
    (hrw : ∀ r ∈ rows, r = -1 ∨ (0 ≤ r ∧ r < n)) :
    (Tracked o i rows → (i ∈ (trackRows can n shift s o rows).selection.selectedRows ↔
        extending i (i ∈ s.selectedRows))) ∧
      (¬ Tracked o i rows → (i ∈ (trackRows can n shift s o rows).selection.selectedRows ↔ i ∈ s.selectedRows)) := by
  induction rows using List.reverseRecOn with
  | nil => exact ⟨fun h => absurd h not_tracked_nil, fun _ => Iff.rfl⟩
  | append_singleton rows r ih =>
    obtain ⟨hin, hout⟩ := ih fun r hr => hrw r (List.mem_append_left _ hr)
    rcases hrw r (by simp) with rfl | hr
    · rw [trackRows_selection_same ho (.inr rfl), tracked_concat_none]
      exact ⟨hin, hout⟩
    have hne : r ≠ -1 := by omega
    obtain ⟨hc, hu⟩ := tracked_last o rows i
    rw [tracked_concat hne]
    by_cases hm : lastRow rows = r
    · rw [trackRows_selection_same ho (.inl hm)]
      rw [hm] at hc hu
      by_cases hb : Between o r i
      · have htr := (hc ⟨hne, hb⟩).1
        exact ⟨fun _ => hin htr, fun h => absurd (.inl hb) h⟩
      · have hl := hu fun h => hb h.2
        refine ⟨fun h => hin (hl.2 (h.resolve_left hb).1), fun h => hout fun ht => ?_⟩
        exact h (.inr ⟨hl.1 ht, hb⟩)
    · rw [trackRows_selection_moved ho hm hr]
      by_cases hf : lastRow rows = -1
      · -- the first pass: what was left behind stays
        rw [hf] at hu ⊢
        have hl := hu fun h => h.1 rfl
        rw [hmov.first]
        by_cases hb : Between o r i
        · rw [if_pos hb]
          refine ⟨fun _ => ?_, fun h => absurd (.inl hb) h⟩
          by_cases ht : Tracked o i rows
          · rw [propext (hin ht), hextend]
          · rw [propext (hout ht)]
        · rw [if_neg hb]
          refine ⟨fun h => hin (hl.2 (h.resolve_left hb).1), fun h => hout fun ht => ?_⟩
          exact h (.inr ⟨hl.1 ht, hb⟩)
      · rw [hmov.later _ _ _ _ hf]
        by_cases hb : Between o r i
        · rw [if_pos hb]
          refine ⟨fun _ => ?_, fun h => absurd (.inl hb) h⟩
          split
          · rename_i hold
            exact hin (hc ⟨hf, hold⟩).1
          · by_cases ht : Tracked o i rows
            · rw [propext (hin ht), hextend]
            · rw [propext (hout ht)]
        · rw [if_neg hb]
          split
          · rename_i hold
            obtain ⟨htr, hn⟩ := hc ⟨hf, hold⟩
            refine ⟨fun h => absurd (h.resolve_left hb).1 hn, fun _ => ?_⟩
            rw [propext (hin htr), hred]
          · rename_i hold
            have hl := hu fun h => hold h.2
            refine ⟨fun h => hin (hl.2 (h.resolve_left hb).1), fun h => hout fun ht => ?_⟩
            exact h (.inr ⟨hl.1 ht, hb⟩)

variable (can) in
theorem adding_moves (hn : o ∉ s.selectedRows) :
    Moves (compute can true s o) o (fun i p => p ∨ can i = true) (fun i p => p ∧ i ∈ s.selectedRows) where
  first now r i := by
    simp only [compute, computeNewSelection, modeOf, hn, not_false_eq_true, decide_true, and_self, if_true]
    exact (touches_addRow can).mem_firstPass
  later now a r i ha := by
    simp only [compute, computeNewSelection, modeOf, hn, not_false_eq_true, decide_true, and_self, if_true,
      ha, if_false]
    exact Passes.mem_later (p := addingPasses can s.selectedRows) (touches_addRow can)
      (touches_dropRow s.selectedRows) (addingPasses_ends can s.selectedRows)

variable (can) in
theorem anti_moves (ho : o ∈ s.selectedRows) :
    Moves (compute can true s o) o (fun _ _ => False) (fun i p => p ∨ i ∈ s.selectedRows) where
  first now r i := by
    simp only [compute, computeNewSelection, modeOf, ho, not_true_eq_false, decide_false, Bool.false_eq_true,
      and_false, if_false, if_true]
    exact (orFirst_selectedRows (firstPass RowSelection.unselectRow now o r)).symm ▸ touches_unselectRow.mem_firstPass
  later now a r i ha := by
    simp only [compute, computeNewSelection, modeOf, ho, not_true_eq_false, decide_false, Bool.false_eq_true,
      and_false, if_false, ha]
    exact Passes.mem_later (p := antiPasses s.selectedRows) touches_unselectRow
      (touches_restoreRow s.selectedRows) (antiPasses_ends s.selectedRows)

theorem new_first {now : RowSelection} :
    i ∈ (compute can false s o now (-1) r).selectedRows ↔ Between o r i ∧ can i = true := by
  simp only [compute, computeNewSelection, modeOf, Bool.false_eq_true, false_and, if_false, if_true]
  refine (touches_selectRow can).mem_firstPass.trans ?_
  split <;> simp_all [RowSelection.unselectAllRows]

theorem new_later {now : RowSelection} {a : Int} (ha : a ≠ -1) :
    i ∈ (compute can false s o now a r).selectedRows ↔
      if Between o r i then
        if Between o a i then i ∈ now.selectedRows else i ∈ now.selectedRows ∨ can i = true
      else if Between o a i then False
      else i ∈ now.selectedRows := by
  simp only [compute, computeNewSelection, modeOf, Bool.false_eq_true, false_and, if_false, if_true, ha]
  exact Passes.mem_later (p := newPasses can) (touches_selectRow can) touches_unselectRow (newPasses_ends can)

/-- The last row that the pointer was on, if it was on one. -/
def lastVisited (rows : List Int) : Option Int := (rows.filter (· ≠ -1)).getLast?

theorem lastVisited_concat (hr : r ≠ -1) : lastVisited (rows ++ [r]) = some r := by
  rw [lastVisited, List.filter_append, List.filter_cons_of_pos (by simpa using hr), List.filter_nil,
    List.getLast?_concat]

theorem lastVisited_lastRow (h : lastRow rows ≠ -1) : lastVisited rows = some (lastRow rows) := by
  rcases List.eq_nil_or_concat rows with rfl | ⟨rows, a, rfl⟩
  · exact absurd rfl h
  · rw [List.concat_eq_append] at h ⊢
    have hl : lastRow (rows ++ [a]) = a := by rw [lastRow, List.getLast?_concat]; rfl
    rw [hl] at h ⊢
    exact lastVisited_concat h

theorem new_run (ho : o ≠ -1) (hrw : ∀ r ∈ rows, r = -1 ∨ (0 ≤ r ∧ r < n)) : ∀ c ∈ lastVisited rows, ∀ i,
      (i ∈ (trackRows can n false s o rows).selection.selectedRows ↔ Between o c i ∧ can i = true) := by
  induction rows using List.reverseRecOn with
  | nil => exact fun c hc => absurd hc (by simp [lastVisited])
  | append_singleton rows r ih =>
    have ih := ih fun r hr => hrw r (List.mem_append_left _ hr)
    intro c hc i
    rcases hrw r (by simp) with rfl | hr
    · have hs : lastVisited (rows ++ [-1]) = lastVisited rows := by
        rw [lastVisited, List.filter_append]
        simp [lastVisited]
      rw [trackRows_selection_same ho (.inr rfl)]
      exact ih c (hs ▸ hc) i
    have hne : r ≠ -1 := by omega
    rw [lastVisited_concat hne, Option.mem_some_iff] at hc
    subst hc
    by_cases hm : lastRow rows = r
    · rw [trackRows_selection_same ho (.inl hm)]
      exact ih r (by rw [lastVisited_lastRow (hm ▸ hne), hm]; rfl) i
    · rw [trackRows_selection_moved ho hm hr]
      by_cases hf : lastRow rows = -1
      · rw [hf]
        exact new_first
      · have hn := ih _ (lastVisited_lastRow hf) i
        rw [new_later hf]
        split
        · rename_i hb
          split
          · rename_i hold
            rw [hn]
            exact ⟨fun h => ⟨hb, h.2⟩, fun h => ⟨hold, h.2⟩⟩
          · exact ⟨fun h => ⟨hb, h.elim (fun hi => (hn.1 hi).2) id⟩, fun h => .inr h.2⟩
        · rename_i hb
          split
          · exact ⟨False.elim, fun h => hb h.1⟩
          · rename_i hold
            exact ⟨fun hi => absurd (hn.1 hi).1 hold, fun h => absurd h.1 hb⟩

/-! ## Where the path does not matter -/

/-- The selection that the press, the row of the pointer and the old selection determine. -/
def Expected (can : Int → Bool) (shift : Bool) (s : RowSelection) (o c i : Int) : Prop :=
  if shift = false then Between o c i ∧ can i = true
  else if o ∈ s.selectedRows then i ∈ s.selectedRows ∧ ¬ Between o c i
  else i ∈ s.selectedRows ∨ (Between o c i ∧ can i = true)

/-- Tracking the row changes whether it is selected. -/
def Changes (can : Int → Bool) (s : RowSelection) (o i : Int) : Prop :=
  if o ∈ s.selectedRows then i ∈ s.selectedRows else i ∉ s.selectedRows ∧ can i = true

/-- Whenever the pointer leaves the rows, each row between the press and the row that it leaves whose
selection tracking changes lies between the press and a row that the pointer visits later. -/
def NothingLeft (can : Int → Bool) (s : RowSelection) (o : Int) (rows : List Int) : Prop :=
  ∀ before r after, rows = before ++ r :: -1 :: after → r ≠ -1 → ∀ i, Between o r i → Changes can s o i →
    ∃ r' ∈ after, r' ≠ -1 ∧ Between o r' i

theorem nothingLeft_iff : NothingLeft can s o rows ↔ ∀ i, Changes can s o i → ¬ LeftBehind o i rows := by
  constructor
  · rintro h i hch ⟨before, r, after, hs, hc, hl⟩
    obtain ⟨r', hr', hc'⟩ := h before r after hs hc.1 i hc.2 hch
    exact hl r' hr' hc'
  · intro h before r after hs hr i hb hch
    by_contra hn
    exact h i hch ⟨before, r, after, hs, ⟨hr, hb⟩, fun r' hr' hc => hn ⟨r', hr', hc⟩⟩

/-- The selection at the end of a path of the pointer is the one that the press, its last row and the
old selection determine, for every path without shift, and with shift for those that leave nothing
behind. -/
theorem drag_iff {c : Int} (ho : 0 ≤ o) (hrows : ∀ r ∈ rows ++ [c], r = -1 ∨ (0 ≤ r ∧ r < n))
    (hc : c ≠ -1) :
    (∀ i, i ∈ (trackRows can n shift s o (rows ++ [c])).selection.selectedRows ↔ Expected can shift s o c i) ↔
      (shift = true → NothingLeft can s o (rows ++ [c])) := by
  have ho : o ≠ -1 := by omega
  cases shift with
  | false =>
    refine iff_of_true (fun i => ?_) nofun
    exact new_run ho hrows c (by rw [lastVisited_concat hc]; rfl) i
  | true =>
    simp only [true_implies, nothingLeft_iff]
    refine forall_congr' fun i => ?_
    have hls : Tracked o i (rows ++ [c]) ↔ Between o c i ∨ (LeftBehind o i rows ∧ ¬ Between o c i) :=
      tracked_concat hc
    have hlf : LeftBehind o i (rows ++ [c]) ↔ LeftBehind o i rows ∧ ¬ Covers o i c := leftBehind_concat hc
    have hcov : Covers o i c ↔ Between o c i := ⟨And.right, fun h => ⟨hc, h⟩⟩
    rw [hcov] at hlf
    have hnt (hb : Between o c i) : ¬ LeftBehind o i (rows ++ [c]) := fun h => (hlf.1 h).2 hb
    by_cases hold : o ∈ s.selectedRows
    · obtain ⟨hin, hout⟩ := tracked_run (i := i) ho (anti_moves can hold) Iff.rfl
        (by rw [false_or]) hrows
      simp only [Expected, Changes, hold, if_true, Bool.true_eq_false, if_false]
      by_cases ht : Tracked o i (rows ++ [c])
      · rw [hin ht]
        rcases hls.1 ht with hb | hl
        · exact iff_of_true ⟨False.elim, fun h => h.2 hb⟩ fun _ => hnt hb
        · exact ⟨fun h hs _ => h.2 ⟨hs, hl.2⟩, fun h => ⟨False.elim, fun hs => h hs.1 (hlf.2 hl)⟩⟩
      · rw [hout ht]
        have hb : ¬ Between o c i := fun hb => ht (hls.2 (.inl hb))
        exact iff_of_true ⟨fun h => ⟨h, hb⟩, And.left⟩ fun _ h => ht (.inr h)
    · obtain ⟨hin, hout⟩ := tracked_run (i := i) ho (adding_moves can hold) (by rw [or_assoc, or_self])
        ⟨And.right, fun h => ⟨.inl h, h⟩⟩ hrows
      simp only [Expected, Changes, hold, if_false, Bool.true_eq_false]
      by_cases ht : Tracked o i (rows ++ [c])
      · rw [hin ht]
        rcases hls.1 ht with hb | hl
        · exact iff_of_true ⟨fun h => h.imp_right fun hcan => ⟨hb, hcan⟩, fun h => h.imp_right And.right⟩
            fun _ => hnt hb
        · constructor
          · exact fun h hch _ => (h.1 (.inr hch.2)).elim hch.1 fun hcan => hl.2 hcan.1
          · refine fun h => ⟨fun hs => ?_, fun hs => hs.imp_right And.right⟩
            by_contra hnew
            obtain ⟨hn, -⟩ := not_or.1 hnew
            exact h ⟨hn, hs.resolve_left hn⟩ (hlf.2 hl)
      · rw [hout ht]
        have hb : ¬ Between o c i := fun hb => ht (hls.2 (.inl hb))
        exact iff_of_true ⟨.inl, fun h => h.elim id fun hcan => absurd hcan.1 hb⟩ fun _ h => ht (.inr h)

end Loop

/-! ## Leaving the rows and coming back -/

def noSelection : RowSelection := { selectedRows := ∅, selectedRow := -1 }

theorem drag_over_rows :
    let selected := (trackRows (fun _ => true) 10 true noSelection 2 ([2, 5, 0] ++ [3])).selection.selectedRows
    (3 ∈ selected ↔ Expected (fun _ => true) true noSelection 2 3 3) ∧
      (5 ∈ selected ↔ Expected (fun _ => true) true noSelection 2 3 5) := by
  have h : ∀ i, i ∈ (trackRows (fun _ => true) 10 true noSelection 2 ([2, 5, 0] ++ [3])).selection.selectedRows ↔
      Expected (fun _ => true) true noSelection 2 3 i := by
    refine (drag_iff (by decide) (by decide) (by decide)).2 fun _ before r after h => ?_
    have hm : (-1 : Int) ∈ [2, 5, 0] ++ [3] := by simp [h]
    exact absurd hm (by decide)
  exact ⟨h 3, h 5⟩

/-- With shift down the pointer goes from row 2 to row 4, leaves the rows and comes back at row 3: row
4 stays selected. -/
theorem not_expected_after_leaving :
    ¬ ∀ i, i ∈ (trackRows (fun _ => true) 10 true noSelection 2 [2, 4, -1, 3]).selection.selectedRows ↔
      Expected (fun _ => true) true noSelection 2 3 i := by
  intro h
  have hf : Expected (fun _ => true) true noSelection 2 3 4 := (h 4).1 (by decide)
  simp only [Expected, noSelection] at hf
  revert hf
  decide

end GnustepGui.TableView
