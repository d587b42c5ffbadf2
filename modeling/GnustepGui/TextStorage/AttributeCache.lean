import Mathlib.Data.Multiset.AddSub
import Mathlib.Data.List.AList

/-!
# The shared cache of attribute dictionaries

`GSTextStorage` keeps every attribute dictionary in one process-wide map with a use count, so that
equal dictionaries are one object. `cacheAttributes` looks a dictionary up by its contents,
`unCacheAttributes` by the object itself.

`Accounts cache refs` says that the map holds exactly the objects of the multiset `refs`, each with
its multiplicity as use count, and that no two of them have equal contents. Both operations keep
it (`accounts_cacheAttributes`, `accounts_unCacheAttributes`).
-/

namespace GnustepGui.TextStorage

/-- A dictionary object. The cache stores an immutable copy, so the contents of an object are
fixed; the address tells two objects with equal contents apart. -/
structure CachedDictionary (D : Type) where
  address : Nat
  contents : D
deriving DecidableEq, Repr

/-- `attrMap`, with the address the next allocated dictionary gets. -/
structure AttributeCache (D : Type) where
  attrMap : AList (fun _ : CachedDictionary D => Nat)
  nextAddress : Nat

variable {D : Type} [DecidableEq D]

namespace AttributeCache

def empty : AttributeCache D := ⟨∅, 0⟩

/-- The count kept with an object, 0 when it has no node. -/
def useCount (cache : AttributeCache D) (p : CachedDictionary D) : Nat :=
  (cache.attrMap.lookup p).getD 0

/-- `GSIMapNodeForKey` while `adding` is set: keys are compared with `isEqualToDictionary:`. -/
def nodeForContents (cache : AttributeCache D) (attrs : D) : Option (CachedDictionary D) :=
  cache.attrMap.keys.find? fun key => decide (key.contents = attrs)

end AttributeCache

/-- A dictionary not yet cached is copied and gets count 1; otherwise the count goes up and the
object already there is returned. -/
def cacheAttributes (attrs : D) (cache : AttributeCache D) : CachedDictionary D × AttributeCache D :=
  match cache.nodeForContents attrs with
  | none =>
    let copy : CachedDictionary D := ⟨cache.nextAddress, attrs⟩
    (copy, ⟨cache.attrMap.insert copy 1, cache.nextAddress + 1⟩)
  | some key => (key, { cache with attrMap := cache.attrMap.insert key (cache.useCount key + 1) })

/-- Removal compares objects, not contents; an object without a node is left alone. -/
def unCacheAttributes (attrs : CachedDictionary D) (cache : AttributeCache D) : AttributeCache D :=
  match cache.attrMap.lookup attrs with
  | none => cache
  | some nsu =>
    if nsu - 1 = 0 then { cache with attrMap := cache.attrMap.erase attrs }
    else { cache with attrMap := cache.attrMap.insert attrs (nsu - 1) }

/-! ## Accounting -/

/-- The cache holds the references `refs` and nothing else. -/
structure Accounts (cache : AttributeCache D) (refs : Multiset (CachedDictionary D)) : Prop where
  useCount_eq : ∀ p, cache.useCount p = refs.count p
  positive : ∀ p, cache.attrMap.lookup p ≠ some 0
  contents_inj : ∀ p ∈ refs, ∀ q ∈ refs, p.contents = q.contents → p = q
  fresh : ∀ p ∈ refs, p.address < cache.nextAddress

variable {cache : AttributeCache D} {refs : Multiset (CachedDictionary D)}

theorem Accounts.lookup_eq (h : Accounts cache refs) (p : CachedDictionary D) :
    cache.attrMap.lookup p = if p ∈ refs then some (refs.count p) else none := by
  have hc := h.useCount_eq p
  have hp := h.positive p
  unfold AttributeCache.useCount at hc
  cases hl : cache.attrMap.lookup p with
  | none =>
    rw [hl, Option.getD_none] at hc
    rw [if_neg (Multiset.count_eq_zero.mp hc.symm)]
  | some n =>
    rw [hl, Option.getD_some] at hc
    subst hc
    have : p ∈ refs := Multiset.count_ne_zero.mp fun h0 => hp (by rw [hl, h0])
    rw [if_pos this]

theorem Accounts.mem_attrMap_iff (h : Accounts cache refs) (p : CachedDictionary D) : p ∈ cache.attrMap ↔ p ∈ refs := by
  rw [← AList.lookup_isSome, h.lookup_eq]
  split <;> simp_all

theorem Accounts.nodeForContents_eq (h : Accounts cache refs) (attrs : D) :
    match cache.nodeForContents attrs with
    | some key => key ∈ refs ∧ key.contents = attrs
    | none => ∀ p ∈ refs, p.contents ≠ attrs := by
  unfold AttributeCache.nodeForContents
  cases hf : cache.attrMap.keys.find? fun key => decide (key.contents = attrs) with
  | some key =>
    have hk := List.mem_of_find?_eq_some hf
    have hc := List.find?_some hf
    exact ⟨(h.mem_attrMap_iff key).mp (AList.mem_keys.mpr hk), of_decide_eq_true hc⟩
  | none =>
    intro p hp he
    have hk := AList.mem_keys.mp ((h.mem_attrMap_iff p).mpr hp)
    exact List.find?_eq_none.mp hf p hk (decide_eq_true he)

theorem accounts_empty : Accounts (AttributeCache.empty : AttributeCache D) 0 where
  useCount_eq p := by simp [AttributeCache.useCount, AttributeCache.empty]
  positive p := by simp [AttributeCache.empty]
  contents_inj p hp := by simp at hp
  fresh p hp := by simp at hp

theorem useCount_insert (attrMap : AList fun _ : CachedDictionary D => Nat) (next n : Nat)
    (p q : CachedDictionary D) :
    (AttributeCache.mk (attrMap.insert q n) next).useCount p =
      if p = q then n else (AttributeCache.mk attrMap next).useCount p := by
  unfold AttributeCache.useCount
  by_cases hp : p = q
  · subst hp; simp
  · simp [hp, AList.lookup_insert_ne hp]

theorem lookup_insert_ne_zero (attrMap : AList fun _ : CachedDictionary D => Nat) (n : Nat)
    (p q : CachedDictionary D) (hn : n ≠ 0) (hp : attrMap.lookup p ≠ some 0) :
    (attrMap.insert q n).lookup p ≠ some 0 := by
  by_cases hpq : p = q
  · subst hpq; simpa using hn
  · rwa [AList.lookup_insert_ne hpq]

theorem cacheAttributes_contents (h : Accounts cache refs) (attrs : D) :
    (cacheAttributes attrs cache).1.contents = attrs := by
  have hn := h.nodeForContents_eq attrs
  unfold cacheAttributes
  cases heq : cache.nodeForContents attrs with
  | none => rfl
  | some key => rw [heq] at hn; exact hn.2

/-- Caching adds one reference to the returned object. -/
theorem accounts_cacheAttributes (h : Accounts cache refs) (attrs : D) :
    Accounts (cacheAttributes attrs cache).2 ((cacheAttributes attrs cache).1 ::ₘ refs) := by
  have hn := h.nodeForContents_eq attrs
  unfold cacheAttributes
  split <;> rename_i heq <;> rw [heq] at hn
  case h_1 =>
    have hnew : (⟨cache.nextAddress, attrs⟩ : CachedDictionary D) ∉ refs := fun hm => hn _ hm rfl
    refine ⟨fun p => ?_, fun p => ?_, ?_, ?_⟩
    · rw [useCount_insert, Multiset.count_cons]
      split
      · next hp => rw [hp, Multiset.count_eq_zero.mpr hnew]
      · exact h.useCount_eq p
    · exact lookup_insert_ne_zero _ _ _ _ (by decide) (h.positive p)
    · intro p hp q hq hpq
      rcases Multiset.mem_cons.mp hp with rfl | hp <;> rcases Multiset.mem_cons.mp hq with rfl | hq
      · rfl
      · exact absurd hpq.symm (hn q hq)
      · exact absurd hpq (hn p hp)
      · exact h.contents_inj p hp q hq hpq
    · intro p hp
      rcases Multiset.mem_cons.mp hp with rfl | hp
      · exact Nat.lt_succ_self _
      · exact Nat.lt_succ_of_lt (h.fresh p hp)
  case h_2 key =>
    have hmem : ∀ p, p ∈ key ::ₘ refs ↔ p ∈ refs := fun p => by
      rw [Multiset.mem_cons]
      exact ⟨fun hp => hp.elim (fun e => e ▸ hn.1) id, Or.inr⟩
    refine ⟨fun p => ?_, fun p => ?_, ?_, ?_⟩
    · rw [useCount_insert, Multiset.count_cons]
      split
      · next hp => rw [hp, h.useCount_eq]
      · exact h.useCount_eq p
    · exact lookup_insert_ne_zero _ _ _ _ (Nat.succ_ne_zero _) (h.positive p)
    · intro p hp q hq
      exact h.contents_inj p ((hmem p).mp hp) q ((hmem q).mp hq)
    · exact fun p hp => h.fresh p ((hmem p).mp hp)

theorem accounts_unCacheAttributes (h : Accounts cache refs) (p : CachedDictionary D)
    (hp : p ∈ refs) : Accounts (unCacheAttributes p cache) (refs.erase p) := by
  have hl := h.lookup_eq p
  rw [if_pos hp] at hl
  have hm : ∀ q, q ∈ refs.erase p → q ∈ refs := fun q => Multiset.mem_of_mem_erase
  have hpos : 0 < refs.count p := Multiset.count_pos.mpr hp
  unfold unCacheAttributes
  rw [hl]
  simp only
  split
  · next h1 =>
    refine ⟨fun q => ?_, fun q => ?_, ?_, ?_⟩
    · unfold AttributeCache.useCount
      by_cases hqp : q = p
      · subst hqp; simp [Multiset.count_erase_self, h1]
      · rw [AList.lookup_erase_ne hqp, Multiset.count_erase_of_ne hqp]
        exact h.useCount_eq q
    · by_cases hqp : q = p
      · subst hqp; simp
      · rw [AList.lookup_erase_ne hqp]; exact h.positive q
    · exact fun q hq r hr => h.contents_inj q (hm q hq) r (hm r hr)
    · exact fun q hq => h.fresh q (hm q hq)
  · next h1 =>
    refine ⟨fun q => ?_, fun q => ?_, ?_, ?_⟩
    · rw [useCount_insert]
      split
      · next hq => rw [hq, Multiset.count_erase_self]
      · next hq => rw [Multiset.count_erase_of_ne hq]; exact h.useCount_eq q
    · exact lookup_insert_ne_zero _ _ _ _ h1 (h.positive q)
    · exact fun q hq r hr => h.contents_inj q (hm q hq) r (hm r hr)
    · exact fun q hq => h.fresh q (hm q hq)

end GnustepGui.TextStorage
