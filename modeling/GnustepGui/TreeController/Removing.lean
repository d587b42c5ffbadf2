import GnustepGui.TreeController.Inserting

/-!
# Removing by index path

Objects below the top are removed one path after the other, and each removal moves the later siblings: the objects of
a list of paths are removed exactly when no path displaces a later one (`removes_iff`). An object at the top comes
back with the proxy.
-/

namespace GnustepGui.TreeController

open Forests NSTreeController

variable {O : Type} [DecidableEq O]

namespace NSTreeController

/-- The objects at the paths. -/
def objectsAt (tc : NSTreeController O) (paths : List (List Nat)) : List O :=
  paths.filterMap fun path => (walk tc.arrays none path).join

/-- An object is at the path. -/
def Finds (tc : NSTreeController O) (path : List Nat) : Prop :=
  ∃ x, tc.objectAtIndexPath path = .ok (some x)

/-- Every array is what it was without the objects that were at the paths. -/
def Removes (tc : NSTreeController O) (paths : List (List Nat)) (tc' : NSTreeController O) : Prop :=
  tc' = tc.keeping (· ∉ tc.objectsAt paths)

/-- The paths are no longer selected, and nothing else has changed. -/
def RemovesSelection (tc : NSTreeController O) (paths : List (List Nat)) (tc' : NSTreeController O) : Prop :=
  tc' = { tc with selectionIndexPaths := tc.selectionIndexPaths.removeAll paths }

end NSTreeController

variable {tc tc' : NSTreeController O} {path : List Nat} {paths : List (List Nat)} {gone found : List O} {x : O}

/-! ## One path -/

omit [DecidableEq O] in
theorem isTree_keeping (h : tc.IsTree) (keep : O → Bool) : (tc.keeping keep).IsTree where
  toIsForest := by
    rw [arrays_keeping]
    exact h.toIsForest.keeping keep
  arranged := by simp only [NSTreeController.keeping, h.arranged, Option.map_some]

/-- Taking an object out of the array in which it stands takes it out of every array. -/
theorem erase_eq_keeping (ht : tc.IsTree) {node : O} {l : List O} {i : Nat}
    (hl : tc.children node = some l) (hx : l[i]? = some x) :
    { tc with children := Function.update tc.children node (some (l.eraseIdx i)) } =
      tc.keeping (· ≠ x) := by
  have hs : tc.arrays (some node) = some l := hl
  have hmem : x ∈ l := List.mem_of_getElem? hx
  have he : l.eraseIdx i = l.filter (· ≠ x) := by
    obtain ⟨hi, rfl⟩ := List.getElem?_eq_some_iff.1 hx
    have hnd := ht.nodup hs
    rw [← hnd.erase_getElem i hi, hnd.erase_eq_filter]
    refine List.filter_congr fun y _ => ?_
    rw [Bool.eq_iff_iff]
    simp
  have hother (s : Option O) (m : List O) (hm : tc.arrays s = some m) (hne : s ≠ some node) : m.filter (· ≠ x) = m := by
    rw [List.filter_eq_self]
    intro y hy
    refine decide_eq_true ?_
    rintro rfl
    exact hne (ht.parent hm hs hy hmem)
  have hc := hother none tc.content rfl (Option.some_ne_none node).symm
  refine NSTreeController.ext hc.symm ?_ ?_ rfl rfl rfl
  · simp only [NSTreeController.keeping, ht.arranged, Option.map_some, hc]
  · funext o
    simp only [NSTreeController.keeping]
    by_cases ho : o = node
    · subst ho
      rw [Function.update_self, hl, Option.map_some, he]
    · rw [Function.update_of_ne ho]
      cases hm : tc.children o with
      | none => rfl
      | some m =>
        have hne : some o ≠ some node := fun h => ho (Option.some.inj h)
        rw [Option.map_some, hother (some o) m hm hne]

theorem removeObject_cases (ht : tc.IsTree) (h : tc.removeObject path = .ok tc') :
    tc' = tc ∨ ∃ x, 2 ≤ path.length ∧ walk tc.arrays none path = some (some x) ∧ tc' = tc.keeping (· ≠ x) := by
  rcases List.eq_nil_or_concat path with rfl | ⟨q, i, rfl⟩
  · cases h
  rw [List.concat_eq_append] at h ⊢
  rw [NSTreeController.removeObject, lastIndex_concat, childrenAt_concat] at h
  have he := endsAt ht.arranged q
  generalize q.foldlM tc.descend .childNodes = r at he h
  cases he with
  | top hq =>
    left
    simp only [NSTreeController.array, ht.arranged, bind, Except.bind, pure, Except.pure] at h
    split at h
    · rw [← Except.ok.inj h]
      exact rearrange_setArray_childNodes ht.arranged _
    · cases h
  | node hq =>
    rename_i node
    cases hl : tc.children node with
    | none =>
      left
      simp only [NSTreeController.array, hl, bind, Except.bind, pure, Except.pure] at h
      rw [← Except.ok.inj h]
      exact rearrangeObjects_eq ht.arranged
    | some l =>
      simp only [NSTreeController.array, hl, bind, Except.bind, pure, Except.pure] at h
      split at h
      · rename_i hi
        right
        have hx : l[i]? = some l[i] := List.getElem?_eq_getElem hi
        refine ⟨l[i], ?_, walk_concat.2 ⟨some node, l, l[i], hq, hl, hx, rfl⟩, ?_⟩
        · have hne : q ≠ [] := by
            rintro rfl
            cases hq
          have hp := List.length_pos_iff.2 hne
          rw [List.length_append, List.length_singleton]
          omega
        · rw [← Except.ok.inj h, rearrange_setArray_ofNode ht.arranged]
          exact erase_eq_keeping ht hl hx
      · cases h
  | null hq =>
    left
    simp only [NSTreeController.array, bind, Except.bind, pure, Except.pure] at h
    rw [← Except.ok.inj h]
    exact rearrangeObjects_eq ht.arranged
  | raises hq => cases h

theorem removeObject_of_walk (ht : tc.IsTree) (hx : walk tc.arrays none path = some (some x)) :
    tc.removeObject path = .ok (if 2 ≤ path.length then tc.keeping (· ≠ x) else tc) := by
  rcases List.eq_nil_or_concat path with rfl | ⟨q, i, rfl⟩
  · cases hx
  rw [List.concat_eq_append] at hx ⊢
  obtain ⟨u, l, y, hu, hl, hy, heq⟩ := walk_concat.1 hx
  obtain rfl := Option.some.inj heq
  have hi := (List.getElem?_eq_some_iff.1 hy).1
  rw [NSTreeController.removeObject, lastIndex_concat, childrenAt_concat]
  have he := endsAt ht.arranged q
  generalize q.foldlM tc.descend .childNodes = r at he
  cases he with
  | top hq =>
    subst hq
    obtain rfl := Option.some.inj hu
    obtain rfl := Option.some.inj hl
    simp only [NSTreeController.array, ht.arranged, bind, Except.bind, pure, Except.pure, hi, if_true]
    rw [rearrange_setArray_childNodes ht.arranged]
    rfl
  | node hq =>
    rename_i node
    obtain rfl := Option.some.inj (hq.symm.trans hu)
    have hln : 2 ≤ (q ++ [i]).length := by
      have hne : q ≠ [] := by
        rintro rfl
        cases hq
      have hp := List.length_pos_iff.2 hne
      rw [List.length_append, List.length_singleton]
      omega
    have hk : tc.children node = some l := hl
    simp only [NSTreeController.array, hk, bind, Except.bind, pure, Except.pure, hi, if_true, hln]
    rw [rearrange_setArray_ofNode ht.arranged]
    exact congrArg Except.ok (erase_eq_keeping ht hk hy)
  | null hq =>
    rw [hq] at hu
    cases hu
  | raises hq =>
    rw [hq] at hu
    cases hu

/-! ## A run of removals -/

/-- Every removal of the run takes out an object, which is found at its path without the earlier ones. -/
def TakesOut (tc : NSTreeController O) : List O → List (List Nat) → List O → Prop
  | _, [], [] => True
  | gone, path :: paths, x :: found =>
    2 ≤ path.length ∧ walk (tc.keeping (· ∉ gone)).arrays none path = some (some x) ∧
      TakesOut tc (x :: gone) paths found
  | _, _, _ => False

theorem TakesOut.length_eq (h : TakesOut tc gone paths found) : found.length = paths.length := by
  induction paths generalizing gone found with
  | nil =>
    cases found with
    | nil => rfl
    | cons x found => exact absurd h not_false
  | cons path paths ih =>
    cases found with
    | nil => exact absurd h not_false
    | cons x found => exact congrArg (· + 1) (ih h.2.2)

theorem keeping_congr {l l' : List O} (h : ∀ x, x ∈ l ↔ x ∈ l') : tc.keeping (· ∉ l) = tc.keeping (· ∉ l') := by
  congr 1
  funext x
  rw [decide_eq_decide, h]

theorem keeping_notMem_cons : (tc.keeping (· ∉ gone)).keeping (· ≠ x) = tc.keeping (· ∉ x :: gone) := by
  rw [keeping_keeping]
  congr 1
  funext y
  simp [List.mem_cons, Bool.and_comm]

variable (gone) in
/-- A run takes out an object with every path, or fewer objects than there are paths. -/
theorem removeObjects_cases (ht : tc.IsTree) (h : (tc.keeping (· ∉ gone)).removeObjects paths = .ok tc') :
    ∃ found : List O, tc' = tc.keeping (· ∉ found ++ gone) ∧
      (TakesOut tc gone paths found ∨ found.length < paths.length) := by
  induction paths generalizing gone with
  | nil => exact ⟨[], (Except.ok.inj h).symm, .inl trivial⟩
  | cons path paths ih =>
    rw [NSTreeController.removeObjects, List.foldlM_cons] at h
    cases hf : (tc.keeping (· ∉ gone)).removeObject path with
    | error e =>
      rw [hf] at h
      exact nomatch h
    | ok mid =>
      rw [hf] at h
      rcases removeObject_cases (isTree_keeping ht _) hf with rfl | ⟨x, hln, hx, rfl⟩
      · obtain ⟨found, hlf, hr⟩ := ih gone h
        refine ⟨found, hlf, .inr ?_⟩
        rw [List.length_cons]
        rcases hr with hr | hr
        · have hl := hr.length_eq
          omega
        · omega
      · rw [keeping_notMem_cons] at h
        obtain ⟨found, hlf, hr⟩ := ih (x :: gone) h
        refine ⟨x :: found, ?_, ?_⟩
        · rw [hlf]
          refine keeping_congr fun y => ?_
          simp only [List.mem_append, List.mem_cons]
          tauto
        · rcases hr with hr | hr
          · exact .inl ⟨hln, hx, hr⟩
          · exact .inr (Nat.succ_lt_succ hr)

theorem TakesOut.long (h : TakesOut tc gone paths found) : ∀ path ∈ paths, 2 ≤ path.length := by
  induction paths generalizing gone found with
  | nil => exact fun path hpt => absurd hpt List.not_mem_nil
  | cons path paths ih =>
    cases found with
    | nil => exact absurd h not_false
    | cons x found =>
      intro p hp
      rcases List.mem_cons.1 hp with rfl | hp
      · exact h.1
      · exact ih h.2.2 p hp

theorem TakesOut.own_paths (h : TakesOut tc gone paths found) :
    ∃ others, List.Forall₂ (fun path x => walk tc.arrays none path = some (some x)) others found ∧
      List.Forall₂ (List.Forall₂ (· ≤ ·)) paths others := by
  induction paths generalizing gone found with
  | nil =>
    cases found with
    | nil => exact ⟨[], .nil, .nil⟩
    | cons x found => exact absurd h not_false
  | cons path paths ih =>
    cases found with
    | nil => exact absurd h not_false
    | cons x found =>
      obtain ⟨-, hx, hr⟩ := h
      rw [arrays_keeping] at hx
      obtain ⟨other, hle, hother⟩ := walk_keeping_le hx
      obtain ⟨others, hw, ha⟩ := ih hr
      exact ⟨other :: others, .cons hother hw, .cons hle ha⟩

theorem TakesOut.not_displaced (ht : tc.IsTree) (h : TakesOut tc gone paths found)
    (ho : List.Forall₂ (fun path x => walk tc.arrays none path = some (some x)) paths found) :
    (∀ path ∈ paths, ∀ r, ∀ y ∈ gone, walk tc.arrays none r = some (some y) → ¬ Displaces r path) ∧
      paths.Pairwise (fun p r => ¬ Displaces p r) := by
  induction ho generalizing gone with
  | nil => exact ⟨fun path hp => absurd hp List.not_mem_nil, .nil⟩
  | cons hw _ ih =>
    obtain ⟨-, hx, hrs⟩ := h
    obtain ⟨hl, hpr⟩ := ih hrs
    rw [arrays_keeping] at hx
    constructor
    · intro path hp r y hy hr
      rcases List.mem_cons.1 hp with rfl | hp
      · exact not_displaces_of_walk_keeping ht.toIsForest hw hx hr (by simp [hy])
      · exact hl path hp r y (List.mem_cons_of_mem _ hy) hr
    · refine List.pairwise_cons.2 ⟨fun path hp => ?_, hpr⟩
      exact hl path hp _ _ List.mem_cons_self hw

/-! ## Several paths -/

section

omit [DecidableEq O]

theorem finds_iff (ht : tc.IsTree) : tc.Finds path ↔ ∃ x, walk tc.arrays none path = some (some x) := by
  simp only [NSTreeController.Finds, objectAtIndexPath_eq ht.arranged]

theorem objectsAt_forall₂ (ht : tc.IsTree) (hf : ∀ path ∈ paths, tc.Finds path) :
    List.Forall₂ (fun path x => walk tc.arrays none path = some (some x)) paths (tc.objectsAt paths) := by
  induction paths with
  | nil => exact .nil
  | cons path paths ih =>
    obtain ⟨x, hx⟩ := (finds_iff ht).1 (hf path List.mem_cons_self)
    have hc : tc.objectsAt (path :: paths) = x :: tc.objectsAt paths := by
      rw [NSTreeController.objectsAt, List.filterMap_cons, hx]
      rfl
    rw [hc]
    exact .cons hx (ih fun p hp => hf p (List.mem_cons_of_mem _ hp))

theorem mem_objectsAt : x ∈ tc.objectsAt paths ↔ ∃ path ∈ paths, walk tc.arrays none path = some (some x) := by
  simp only [NSTreeController.objectsAt, List.mem_filterMap, Option.join_eq_some_iff]

theorem objectsAt_nodup (ht : tc.IsTree) (hnd : paths.Nodup) : (tc.objectsAt paths).Nodup := by
  refine hnd.filterMap fun p r x hp hr => ?_
  simp only [Option.mem_def, Option.join_eq_some_iff] at hp hr
  exact ht.walk_injective hp hr

theorem keeping_mem {keep keep' : O → Bool} (h : tc.keeping keep = tc.keeping keep') {s : Option O}
    {l : List O} (hl : tc.arrays s = some l) (hx : x ∈ l) : keep x = keep' x := by
  have ha := congrFun (congrArg NSTreeController.arrays h) s
  rw [arrays_keeping, arrays_keeping, Forests.keeping, Forests.keeping, hl, Option.map_some,
    Option.map_some, Option.some.injEq] at ha
  have hm : x ∈ l.filter keep ↔ x ∈ l.filter keep' := by rw [ha]
  rw [List.mem_filter, List.mem_filter] at hm
  rw [Bool.eq_iff_iff]
  tauto

end

theorem not_displaced_of_removes (htr : tc.IsTree) (hnd : paths.Nodup)
    (hf : ∀ path ∈ paths, tc.Finds path) (h : tc.removeObjects paths = .ok tc') (hrms : Removes tc paths tc') :
    (∀ path ∈ paths, 2 ≤ path.length) ∧ paths.Pairwise fun p r => ¬ Displaces p r := by
  have hst : tc.keeping (· ∉ ([] : List O)) = tc := keeping_all tc fun x => by simp
  obtain ⟨found, hlf, hrun⟩ := removeObjects_cases [] htr (hst.symm ▸ h)
  rw [List.append_nil] at hlf
  have ha : tc.objectsAt paths ⊆ found := by
    intro x hx
    obtain ⟨path, -, hw⟩ := mem_objectsAt.1 hx
    obtain ⟨u, l, hl, hm⟩ := mem_of_walk hw
    have hsm := keeping_mem (hrms.symm.trans hlf) hl hm
    simp only [hx, not_true, decide_false, Bool.false_eq, decide_eq_false_iff_not, not_not] at hsm
    exact hsm
  have hs := (objectsAt_nodup htr hnd).subperm ha
  have htar := objectsAt_forall₂ htr hf
  have hlen := htar.length_eq
  have ht : TakesOut tc [] paths found := by
    refine hrun.resolve_right ?_
    have hle := hs.length_le
    omega
  -- as many objects are found as were looked for, so each is found at its own path
  have hpr : (tc.objectsAt paths).Perm found := hs.perm_of_length_le (Nat.le_of_eq (ht.length_eq.trans hlen))
  obtain ⟨others, hothers, hle⟩ := ht.own_paths
  have hc : (Relation.Comp List.Perm (List.Forall₂ fun path x => walk tc.arrays none path = some (some x)))
      others (tc.objectsAt paths) := by
    rw [← List.forall₂_comp_perm_eq_perm_comp_forall₂]
    exact ⟨found, hothers, hpr.symm⟩
  obtain ⟨ys, hys, hy⟩ := hc
  have hu : Relator.LeftUnique fun path (x : O) => walk tc.arrays none path = some (some x) :=
    fun _ _ _ hp hr => htr.walk_injective hp hr
  have hsm : ys = paths := List.left_unique_forall₂' hu hy htar
  subst hsm
  obtain rfl := eq_of_forall₂_le_of_perm hle hys.symm
  exact ⟨ht.long, (ht.not_displaced htr hothers).2⟩

variable (gone) in
theorem removes_of_not_displaced (ht : tc.IsTree) (hnd : paths.Nodup)
    (hf : ∀ path ∈ paths, tc.Finds path) (hl : ∀ path ∈ paths, 2 ≤ path.length)
    (hpr : paths.Pairwise fun p r => ¬ Displaces p r) (hg : ∀ y ∈ gone, ∃ r, walk tc.arrays none r = some (some y) ∧
      ∀ path ∈ paths, r ≠ path ∧ ¬ Displaces r path) :
    (tc.keeping (· ∉ gone)).removeObjects paths = .ok (tc.keeping (· ∉ tc.objectsAt paths ++ gone)) := by
  induction paths generalizing gone with
  | nil => rfl
  | cons path paths ih =>
    rw [List.nodup_cons] at hnd
    rw [List.pairwise_cons] at hpr
    obtain ⟨x, hx⟩ := (finds_iff ht).1 (hf path List.mem_cons_self)
    have hfnd : walk (tc.keeping (· ∉ gone)).arrays none path = some (some x) := by
      rw [arrays_keeping]
      refine walk_keeping_of_not_displaced ht.toIsForest hx fun y hy => ?_
      have hy : y ∈ gone := by simpa using hy
      obtain ⟨r, hr, hothers⟩ := hg y hy
      exact ⟨r, hr, hothers path List.mem_cons_self⟩
    have hfst : (tc.keeping (· ∉ gone)).removeObject path = .ok (tc.keeping (· ∉ x :: gone)) := by
      rw [removeObject_of_walk (isTree_keeping ht _) hfnd, if_pos (hl path List.mem_cons_self), keeping_notMem_cons]
    have hrs := ih (x :: gone) hnd.2 (fun p hp => hf p (List.mem_cons_of_mem _ hp))
      (fun p hp => hl p (List.mem_cons_of_mem _ hp)) hpr.2 ?_
    · rw [NSTreeController.removeObjects, List.foldlM_cons, hfst]
      refine hrs.trans (congrArg Except.ok (keeping_congr fun y => ?_))
      have hc : tc.objectsAt (path :: paths) = x :: tc.objectsAt paths := by
        rw [NSTreeController.objectsAt, List.filterMap_cons, hx]
        rfl
      rw [hc]
      simp only [List.mem_append, List.mem_cons]
      tauto
    · intro y hy
      rcases List.mem_cons.1 hy with rfl | hy
      · refine ⟨path, hx, fun p hp => ⟨?_, hpr.1 p hp⟩⟩
        rintro rfl
        exact hnd.1 hp
      · obtain ⟨r, hr, hothers⟩ := hg y hy
        exact ⟨r, hr, fun p hp => hothers p (List.mem_cons_of_mem _ hp)⟩

theorem removes_iff (ht : tc.IsTree) (hnd : paths.Nodup) (hf : ∀ path ∈ paths, tc.Finds path) :
    (∃ tc', tc.removeObjects paths = .ok tc' ∧ Removes tc paths tc') ↔
      (∀ path ∈ paths, 2 ≤ path.length) ∧ paths.Pairwise fun p r => ¬ Displaces p r := by
  constructor
  · rintro ⟨tc', h, hrms⟩
    exact not_displaced_of_removes ht hnd hf h hrms
  · rintro ⟨hl, hp⟩
    have hs : tc.keeping (· ∉ ([] : List O)) = tc := keeping_all tc fun x => by simp
    have hr := removes_of_not_displaced [] ht hnd hf hl hp
      fun y hy => absurd hy List.not_mem_nil
    rw [hs, List.append_nil] at hr
    exact ⟨_, hr, rfl⟩

/-! ## Paths of the selection -/

theorem removeObjects_of_top (htr : tc.IsTree) (hf : ∀ path ∈ paths, tc.Finds path)
    (ht : ∀ path ∈ paths, path.length = 1) : tc.removeObjects paths = .ok tc := by
  induction paths with
  | nil => rfl
  | cons path paths ih =>
    obtain ⟨x, hx⟩ := (finds_iff htr).1 (hf path List.mem_cons_self)
    have hs : ¬ 2 ≤ path.length := by
      have ho := ht path List.mem_cons_self
      omega
    rw [NSTreeController.removeObjects, List.foldlM_cons, removeObject_of_walk htr hx, if_neg hs]
    exact ih (fun p hp => hf p (List.mem_cons_of_mem _ hp)) fun p hp => ht p (List.mem_cons_of_mem _ hp)

theorem top_of_arrays_eq (ht : tc.IsTree) (hf : ∀ path ∈ paths, tc.Finds path)
    (h : tc.removeObjects paths = .ok tc') (hs : tc'.arrays = tc.arrays) : ∀ path ∈ paths, path.length = 1 := by
  induction paths with
  | nil => exact fun path hpt => absurd hpt List.not_mem_nil
  | cons path paths ih =>
    obtain ⟨x, hx⟩ := (finds_iff ht).1 (hf path List.mem_cons_self)
    rw [NSTreeController.removeObjects, List.foldlM_cons, removeObject_of_walk ht hx] at h
    split at h
    · exfalso
      have ho : tc.keeping (· ≠ x) = tc.keeping (· ∉ [x]) := by
        congr 1
        funext y
        simp
      rw [ho] at h
      obtain ⟨found, rfl, -⟩ := removeObjects_cases [x] ht h
      obtain ⟨u, l, hl, hm⟩ := mem_of_walk hx
      rw [arrays_keeping] at hs
      have ha := congrFun hs u
      rw [Forests.keeping, hl, Option.map_some, Option.some.injEq] at ha
      rw [← ha, List.mem_filter] at hm
      simp at hm
    · rename_i hsh
      intro p hp
      rcases List.mem_cons.1 hp with rfl | hp
      · have hne : p ≠ [] := by
          rintro rfl
          exact nomatch hx
        have hpos := List.length_pos_iff.2 hne
        omega
      · exact ih (fun p hp => hf p (List.mem_cons_of_mem _ hp)) h p hp

theorem removesSelection_iff (htr : tc.IsTree) (hf : ∀ path ∈ paths, tc.Finds path) :
    (∃ tc', tc.removeSelectionIndexPaths paths = .ok tc' ∧ RemovesSelection tc paths tc') ↔
      ∀ path ∈ paths, path.length = 1 ∧ path ∉ tc.selectionIndexPaths := by
  constructor
  · rintro ⟨tc', h, rfl⟩
    have ht := top_of_arrays_eq htr hf h rfl
    have hc := removeObjects_of_top htr hf ht
    have hsl := congrArg selectionIndexPaths (Except.ok.inj (hc.symm.trans h))
    intro path hp
    refine ⟨ht path hp, fun hs => ?_⟩
    rw [hsl, List.removeAll, List.mem_filter] at hs
    simp [hp] at hs
  · intro h
    refine ⟨tc, removeObjects_of_top htr hf fun path hp => (h path hp).1, ?_⟩
    refine NSTreeController.ext rfl rfl rfl (Eq.symm (List.filter_eq_self.2 ?_)) rfl rfl
    intro path hp
    rw [Bool.not_eq_true', List.elem_eq_mem]
    exact decide_eq_false fun hg => (h path hg).2 hp

/-! ## All edits -/

/-- For which arguments the four edits do what their names say. -/
theorem edits_iff (htree : tc.IsTree) :
    (∀ object path, tc.Fresh object →
      ((∃ tc', tc.insertObject object path = .ok tc' ∧ Inserts tc object path tc') ↔ tc.Appends path)) ∧
    (∀ (objects : List O) (paths : List (List Nat)), objects.length = paths.length → objects.Nodup →
      (∀ o ∈ objects, tc.Fresh o) →
      ((∃ tc', tc.insertObjects objects paths = .ok tc' ∧ InsertsAll tc (objects.zip paths) tc') ↔
        AppendsAll tc (objects.zip paths))) ∧
    (∀ paths : List (List Nat), paths.Nodup → (∀ path ∈ paths, tc.Finds path) →
      ((∃ tc', tc.removeObjects paths = .ok tc' ∧ Removes tc paths tc') ↔
        (∀ path ∈ paths, 2 ≤ path.length) ∧ paths.Pairwise fun p r => ¬ Displaces p r)) ∧
    (∀ paths : List (List Nat), (∀ path ∈ paths, tc.Finds path) →
      ((∃ tc', tc.removeSelectionIndexPaths paths = .ok tc' ∧ RemovesSelection tc paths tc') ↔
        ∀ path ∈ paths, path.length = 1 ∧ path ∉ tc.selectionIndexPaths)) :=
  ⟨fun _ _ hf => inserts_iff htree hf,
    fun _ _ hl hnd hf => insertsAll_iff htree hl hnd hf,
    fun _ hnd hfin => removes_iff htree hnd hfin,
    fun _ hfin => removesSelection_iff htree hfin⟩

/-! ## A node with two children -/

/-- A single object 0 at the top, with the children 1 and 2. -/
def family : NSTreeController Nat where
  content := [0]
  arrangedObjects := some [0]
  children node := if node = 0 then some [1, 2] else none
  selectionIndexPaths := []
  canAddChild := true
  countKeyPath := none

theorem family_arrays {s : Option Nat} {l : List Nat} (hl : family.arrays s = some l) :
    (s = none ∧ l = [0]) ∨ (s = some 0 ∧ l = [1, 2]) := by
  cases s with
  | none => exact .inl ⟨rfl, (Option.some.inj hl).symm⟩
  | some node =>
    simp only [NSTreeController.arrays, family] at hl
    split at hl
    · rename_i hnd
      exact .inr ⟨congrArg some hnd, (Option.some.inj hl).symm⟩
    · exact nomatch hl

theorem family_isTree : family.IsTree where
  nodup hl := by
    rcases family_arrays hl with ⟨rfl, rfl⟩ | ⟨rfl, rfl⟩ <;> decide
  parent hl hl' hx hx' := by
    rcases family_arrays hl with ⟨rfl, rfl⟩ | ⟨rfl, rfl⟩ <;>
      rcases family_arrays hl' with ⟨rfl, rfl⟩ | ⟨rfl, rfl⟩
    · rfl
    · simp only [List.mem_cons, List.not_mem_nil, or_false] at hx hx'
      omega
    · simp only [List.mem_cons, List.not_mem_nil, or_false] at hx hx'
      omega
    · rfl
  arranged := rfl

theorem family_fresh : family.Fresh 3 := by
  intro s l hl
  rcases family_arrays hl with ⟨rfl, rfl⟩ | ⟨rfl, rfl⟩ <;> decide

/-- A third child goes behind the two others. -/
theorem edits_third_child : ∃ tc', family.insertObject 3 [0, 2] = .ok tc' ∧ Inserts family 3 [0, 2] tc' :=
  ((edits_iff family_isTree).1 3 [0, 2] family_fresh).2 ⟨rfl, rfl, [0], 0, [1, 2], rfl, rfl, rfl⟩

/-- An object inserted in front of the one at the top is lost. -/
theorem not_inserted_at_top :
    family.IsTree ∧ family.Fresh 3 ∧
      ¬ ∃ tc', family.insertObject 3 [0] = .ok tc' ∧ Inserts family 3 [0] tc' := by
  refine ⟨family_isTree, family_fresh, ?_⟩
  rintro ⟨tc', h, hi⟩
  have hs : tc' = family := (Except.ok.inj h).symm
  have hf : Except.ok (some 0) = Except.ok (some 3) := hs ▸ hi.found
  exact absurd (Option.some.inj (Except.ok.inj hf)) (by decide)

end GnustepGui.TreeController
