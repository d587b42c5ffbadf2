import GnustepGui.DiffableDataSource.SnapshotIntegrity

/-!
# Runs of snapshot operations

What a move should do is said without indexes (`movedBefore`, `movedAfter`): take the section out
and put it back next to the other one, or nothing when they are the same. The moves do that, except
for a section moved after itself, and with it every run keeps the integrity of the snapshot
(`alwaysSound_iff`).
-/

namespace GnustepGui.DiffableDataSource

open NSDiffableDataSourceSnapshot StateExcept Positions

variable {S I : Type} [DecidableEq S] [DecidableEq I]

/-! ## Moves -/

/-- The sections with `x` moved before `other`, when both are there. -/
def movedBefore (x other : S) (l : List S) : List S :=
  if x ∈ l ∧ other ∈ l ∧ x ≠ other then insertBefore x other (l.erase x) else l

/-- The sections with `x` moved after `other`, when both are there. -/
def movedAfter (x other : S) (l : List S) : List S :=
  if x ∈ l ∧ other ∈ l ∧ x ≠ other then insertAfter x other (l.erase x) else l

theorem idxOf?_isSome {l : List S} {x : S} (hx : x ∈ l) : ∃ i, l.idxOf? x = some i := by
  refine Option.ne_none_iff_exists'.mp fun hn => ?_
  exact List.idxOf?_eq_none_iff.mp hn hx

theorem eraseIdx_length {l : List S} {x : S} {i : Nat} (hi : l.idxOf? x = some i) :
    i < l.length ∧ (l.eraseIdx i).length + 1 = l.length := by
  obtain ⟨pre, post, rfl, rfl, -⟩ := idxOf?_eq_some hi
  rw [eraseIdx_at]
  simp
  omega

section Moves

variable {s : NSDiffableDataSourceSnapshot S I} {x y : S}

omit [DecidableEq I]

theorem moveSection_run {i index : Nat} (hi : s.sections.idxOf? x = some i)
    (hidx : index ≤ (s.sections.eraseIdx i).length) :
    (do removeSectionAtIndex i; insertSection x index : SnapshotM S I Unit) s =
      .ok () { s with sections := (s.sections.eraseIdx i).insertIdx index x } := by
  rw [bind_ok (removeSectionAtIndex_run (eraseIdx_length hi).1)]
  exact insertSection_run hidx

theorem moveSectionBefore_spec (x y : S) (s : NSDiffableDataSourceSnapshot S I) :
    moveSectionBefore x y s = .ok () { s with sections := movedBefore x y s.sections } := by
  unfold NSDiffableDataSourceSnapshot.moveSectionBefore movedBefore
  rw [get_bind]
  cases hi : s.sections.idxOf? x with
  | none => rw [if_neg fun h => List.idxOf?_eq_none_iff.mp hi h.1]; rfl
  | some i =>
    have hx : x ∈ s.sections := List.isSome_idxOf?.mp (by rw [hi]; rfl)
    cases hj : s.sections.idxOf? y with
    | none => rw [if_neg fun h => List.idxOf?_eq_none_iff.mp hj h.2.1]; rfl
    | some j =>
      have hl := eraseIdx_length hi
      have hl' := eraseIdx_length hj
      have hp : (if i < j then j - 1 else j) ≤ (s.sections.eraseIdx i).length := by split <;> omega
      simp only
      rw [moveSection_run hi hp]
      by_cases hne : x = y
      · subst hne
        rw [hi] at hj
        obtain rfl := Option.some.inj hj
        have hs : (if i < i then i - 1 else i) = i := if_neg (Nat.lt_irrefl i)
        rw [hs, move_self hi, if_neg (by simp)]
      · have hy : y ∈ s.sections := List.isSome_idxOf?.mp (by rw [hj]; rfl)
        rw [move_before hi hj hne, if_pos ⟨hx, hy, hne⟩]

theorem moveSectionAfter_spec (s : NSDiffableDataSourceSnapshot S I) (h : x = y → x ∉ s.sections) :
    moveSectionAfter x y s = .ok () { s with sections := movedAfter x y s.sections } := by
  unfold NSDiffableDataSourceSnapshot.moveSectionAfter movedAfter
  rw [get_bind]
  cases hi : s.sections.idxOf? x with
  | none => rw [if_neg fun h => List.idxOf?_eq_none_iff.mp hi h.1]; rfl
  | some i =>
    have hx : x ∈ s.sections := List.isSome_idxOf?.mp (by rw [hi]; rfl)
    cases hj : s.sections.idxOf? y with
    | none => rw [if_neg fun h => List.idxOf?_eq_none_iff.mp hj h.2.1]; rfl
    | some j =>
      have hne : x ≠ y := fun he => h he hx
      have hy : y ∈ s.sections := List.isSome_idxOf?.mp (by rw [hj]; rfl)
      have hp : (if i < j then j - 1 else j) < (s.sections.eraseIdx i).length := by
        obtain ⟨pre, post, h1, -, -, h4⟩ := eraseIdx_other hi hj hne
        rw [h1, h4]
        simp
      simp only
      rw [moveSection_run hi hp, move_after hi hj hne, if_pos ⟨hx, hy, hne⟩]

/-- A section moved after itself is moved over the next one, or the insertion raises. -/
theorem moveSectionAfter_self (h : s.sections.Nodup) (hx : x ∈ s.sections) : moveSectionAfter x x s ≠ .ok () s := by
  obtain ⟨i, hi⟩ := idxOf?_isSome hx
  obtain ⟨pre, post, he, rfl, hp⟩ := idxOf?_eq_some hi
  unfold NSDiffableDataSourceSnapshot.moveSectionAfter
  rw [get_bind, hi]
  simp only
  rw [if_neg (by omega), bind_ok (removeSectionAtIndex_run (eraseIdx_length hi).1)]
  cases post with
  | nil =>
    unfold insertSection
    rw [get_bind, if_pos (by rw [he, eraseIdx_at]; simp)]
    exact fun hr => by cases hr
  | cons y post =>
    rw [insertSection_run (by rw [he, eraseIdx_at]; simp)]
    intro hr
    have hs := congrArg (fun r => (stateOf r).sections) hr
    simp only [stateOf, he, eraseIdx_at, insertIdx_after, List.append_cancel_left_eq, List.cons.injEq] at hs
    rw [he] at h
    have := (List.nodup_cons.mp (List.nodup_append.mp h).2.1).1
    exact this (by simp [hs.1])

end Moves

/-! ## Sound steps -/

theorem movedBefore_perm (x other : S) (l : List S) : (movedBefore x other l).Perm l := by
  unfold movedBefore
  split
  · rename_i h
    obtain ⟨hx, hy, hne⟩ := h
    obtain ⟨j, hj⟩ := idxOf?_isSome ((List.mem_erase_of_ne (Ne.symm hne)).mpr hy)
    obtain ⟨pre, post, he, rfl, hp⟩ := idxOf?_eq_some hj
    rw [he, insertBefore_at hp]
    refine List.perm_middle.trans ?_
    rw [← he]
    exact (List.perm_cons_erase hx).symm
  · exact .refl _

theorem movedAfter_perm (x other : S) (l : List S) : (movedAfter x other l).Perm l := by
  unfold movedAfter
  split
  · rename_i h
    obtain ⟨hx, hy, hne⟩ := h
    obtain ⟨j, hj⟩ := idxOf?_isSome ((List.mem_erase_of_ne (Ne.symm hne)).mpr hy)
    obtain ⟨pre, post, he, rfl, hpre⟩ := idxOf?_eq_some hj
    have hp : (pre ++ [other] ++ x :: post).Perm (x :: (pre ++ [other] ++ post)) := List.perm_middle
    rw [← List.append_cons, ← List.append_cons] at hp
    rw [he, insertAfter_at hpre]
    refine hp.trans ?_
    rw [← he]
    exact (List.perm_cons_erase hx).symm
  · exact .refl _

omit [DecidableEq I] in
theorem Integrity.reorder {s : NSDiffableDataSourceSnapshot S I} (h : Integrity s) {l : List S}
    (hl : l.Perm s.sections) : Extends s { s with sections := l } [] := by
  refine ⟨⟨hl.nodup_iff.mpr h.nodup, fun x => ?_⟩, ?_, fun x hx => hl.mem_iff.mpr hx⟩
  · show x ∈ s.itemsBySection ↔ x ∈ l
    rw [h.keys, hl.mem_iff]
  · rw [Multiset.coe_nil, add_zero, Multiset.coe_eq_coe]
    exact hl.flatMap_right _

namespace SnapshotCall

/-- The calls that take identifiers away. -/
def deletes : SnapshotCall S I → Bool
  | deleteSections _ => true
  | deleteItems _ => true
  | _ => false

/-- The call moves a section that is there after itself. -/
def MovesAfterItself (call : SnapshotCall S I) (s : NSDiffableDataSourceSnapshot S I) : Prop :=
  ∃ x ∈ s.sections, call = .moveSectionAfter x x

variable (defaultSection : S)

/-- What a call must do: return, keep the integrity, lose and duplicate nothing, and move a section
next to the other one. -/
structure Sound (call : SnapshotCall S I) (s : NSDiffableDataSourceSnapshot S I) : Prop where
  returned : returned (call.perform defaultSection s) = true
  integrity : Integrity (stateOf (call.perform defaultSection s))
  kept : call.deletes = false → Extends s (stateOf (call.perform defaultSection s)) call.added
  items : ((stateOf (call.perform defaultSection s)).itemIdentifiers : Multiset I) ≤
    s.itemIdentifiers + call.added
  before : ∀ x other, call = .moveSectionBefore x other →
    stateOf (call.perform defaultSection s) =
      { s with sections := movedBefore x other s.sections }
  after : ∀ x other, call = .moveSectionAfter x other →
    stateOf (call.perform defaultSection s) = { s with sections := movedAfter x other s.sections }

variable {defaultSection} {s : NSDiffableDataSourceSnapshot S I} {call : SnapshotCall S I}

theorem Sound.of_extends {s' : NSDiffableDataSourceSnapshot S I}
    (hr : call.perform defaultSection s = .ok () s') (hext : Extends s s' call.added)
    (hb : ∀ x other, call = .moveSectionBefore x other →
      s' = { s with sections := movedBefore x other s.sections })
    (ha : ∀ x other, call = .moveSectionAfter x other →
      s' = { s with sections := movedAfter x other s.sections }) :
    Sound defaultSection call s := by
  refine ⟨?_, ?_, ?_, ?_, ?_, ?_⟩ <;> rw [hr]
  · rfl
  · exact hext.integrity
  · exact fun _ => hext
  · exact hext.items.le
  · exact hb
  · exact ha

theorem Sound.of_deletes {s' : NSDiffableDataSourceSnapshot S I} (hd : call.deletes = true)
    (hr : call.perform defaultSection s = .ok () s') (hs' : Integrity s')
    (hle : (s'.itemIdentifiers : Multiset I) ≤ s.itemIdentifiers) : Sound defaultSection call s := by
  refine ⟨?_, ?_, ?_, ?_, ?_, ?_⟩ <;> rw [hr]
  · rfl
  · exact hs'
  · intro hn
    rw [hd] at hn
    cases hn
  · exact hle.trans (Multiset.le_add_right _ _)
  · rintro x other rfl
    cases hd
  · rintro x other rfl
    cases hd

/-- A step of a run. -/
theorem sound_iff (h : Integrity s) : Sound defaultSection call s ↔ ¬ call.MovesAfterItself s := by
  constructor
  · rintro hsnd ⟨x, hx, rfl⟩
    have hst := hsnd.after x x rfl
    have hr := eq_ok_of_returned hsnd.returned
    rw [hst] at hr
    refine moveSectionAfter_self h.nodup hx (hr.trans ?_)
    simp [movedAfter]
  · intro hm
    cases call with
    | appendSections ids =>
      obtain ⟨s', hr, hext⟩ := appendSectionsWithIdentifiers_spec defaultSection h ids
      exact .of_extends hr hext (by simp) (by simp)
    | insertSectionsBefore ids other =>
      obtain ⟨s', hr, hext⟩ := insertSectionsBefore_spec h ids other
      exact .of_extends hr hext (by simp) (by simp)
    | insertSectionsAfter ids other =>
      obtain ⟨s', hr, hext⟩ := insertSectionsAfter_spec defaultSection h ids other
      exact .of_extends hr hext (by simp) (by simp)
    | deleteSections ids =>
      obtain ⟨hs', hle⟩ := h.deleteSections ids
      exact .of_deletes rfl (modify_run _) hs' hle
    | moveSectionBefore x other =>
      refine .of_extends (moveSectionBefore_spec x other s) (h.reorder (movedBefore_perm x other _))
        ?_ (by simp)
      intro x' other' he
      obtain ⟨rfl, rfl⟩ := SnapshotCall.moveSectionBefore.inj he
      rfl
    | moveSectionAfter x other =>
      have hne : x = other → x ∉ s.sections := by
        rintro rfl hx
        exact hm ⟨x, hx, rfl⟩
      refine .of_extends (moveSectionAfter_spec s hne) (h.reorder (movedAfter_perm x other _))
        (by simp) ?_
      intro x' other' he
      obtain ⟨rfl, rfl⟩ := SnapshotCall.moveSectionAfter.inj he
      rfl
    | appendItems ids =>
      obtain ⟨s', hr, hext⟩ := appendItemsWithIdentifiers_spec defaultSection h ids
      exact .of_extends hr hext (by simp) (by simp)
    | appendItemsInto ids x =>
      obtain ⟨s', hr, hext⟩ := appendItemsInto_spec defaultSection h ids x
      exact .of_extends hr hext (by simp) (by simp)
    | insertItemsBefore ids item =>
      obtain ⟨s', hr, hext⟩ := insertItemsBefore_spec defaultSection h ids item
      exact .of_extends hr hext (by simp) (by simp)
    | insertItemsAfter ids item =>
      obtain ⟨s', hr, hext⟩ := insertItemsAfter_spec defaultSection h ids item
      exact .of_extends hr hext (by simp) (by simp)
    | deleteItems ids =>
      obtain ⟨hs', hle⟩ := h.deleteItems ids
      exact .of_deletes rfl (modify_run _) hs' hle

end SnapshotCall

/-! ## Runs -/

section Runs

variable (defaultSection : S) (calls : List (SnapshotCall S I))

theorem snapshotAfter_snoc (call : SnapshotCall S I) : snapshotAfter defaultSection (calls ++ [call]) =
      stateOf (call.perform defaultSection (snapshotAfter defaultSection calls)) := by
  unfold snapshotAfter
  rw [List.foldl_append]
  rfl

/-- Every call of the run is sound, and where the item identifiers added up to it are distinct, those
of the snapshot are: an item is in at most one section. -/
def AlwaysSound : Prop :=
  ∀ front call, front ++ [call] <+: calls →
    call.Sound defaultSection (snapshotAfter defaultSection front) ∧
      (((front ++ [call]).flatMap SnapshotCall.added).Nodup →
        (snapshotAfter defaultSection (front ++ [call])).itemIdentifiers.Nodup)

def NeverMovesAfterItself : Prop :=
  ∀ front call, front ++ [call] <+: calls →
    ¬ call.MovesAfterItself (snapshotAfter defaultSection front)

variable {defaultSection calls}

theorem integrity_of_sound (h : ∀ front call, front ++ [call] <+: calls →
      call.Sound defaultSection (snapshotAfter defaultSection front)) : Integrity (snapshotAfter defaultSection calls) ∧
      ((snapshotAfter defaultSection calls).itemIdentifiers : Multiset I) ≤ calls.flatMap SnapshotCall.added := by
  induction calls using List.reverseRecOn with
  | nil => exact ⟨integrity_init, by simp [snapshotAfter, init, itemIdentifiers]⟩
  | append_singleton calls call ih =>
    obtain ⟨-, hle⟩ := ih fun front c hp => h front c (hp.trans (List.prefix_append _ _))
    have hs := h calls call (List.prefix_refl _)
    rw [snapshotAfter_snoc]
    refine ⟨hs.integrity, hs.items.trans ?_⟩
    rw [List.flatMap_append, ← Multiset.coe_add, List.flatMap_singleton]
    exact add_le_add_left hle _

/-- Snapshots keep their integrity exactly in the runs that move no section after itself. -/
theorem alwaysSound_iff :
    AlwaysSound defaultSection calls ↔ NeverMovesAfterItself defaultSection calls := by
  constructor
  · intro h front call hp
    have hpr : front <+: calls := (List.prefix_append front [call]).trans hp
    have hint := (integrity_of_sound fun f c hf => (h f c (hf.trans hpr)).1).1
    exact (SnapshotCall.sound_iff hint).mp (h front call hp).1
  · intro h
    have hs : ∀ front call, front ++ [call] <+: calls →
        call.Sound defaultSection (snapshotAfter defaultSection front) := by
      intro front
      induction front using List.reverseRecOn with
      | nil => exact fun call hp => (SnapshotCall.sound_iff integrity_init).mpr (h [] call hp)
      | append_singleton front last ih =>
        intro call hp
        have hl := ih last ((List.prefix_append _ [call]).trans hp)
        rw [snapshotAfter_snoc]
        refine (SnapshotCall.sound_iff hl.integrity).mpr ?_
        rw [← snapshotAfter_snoc]
        exact h _ call hp
    intro front call hp
    refine ⟨hs front call hp, fun hnd => ?_⟩
    have hle := (integrity_of_sound fun f c hf => hs f c (hf.trans hp)).2
    exact Multiset.coe_nodup.mp (Multiset.nodup_of_le hle (Multiset.coe_nodup.mpr hnd))

/-- The only section moved after itself: the insertion raises, and the section is gone. -/
theorem not_alwaysSound_of_move_after_itself :
    ¬ AlwaysSound 0
      ([.appendSections [1], .moveSectionAfter 1 1] : List (SnapshotCall Nat Nat)) := by
  intro h
  have hr := (h [.appendSections [1]] _ (List.prefix_refl _)).1.returned
  revert hr
  decide

end Runs

end GnustepGui.DiffableDataSource
