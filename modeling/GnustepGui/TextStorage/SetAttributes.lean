import GnustepGui.Library.Positions
import GnustepGui.Library.StateExcept
import GnustepGui.TextStorage.Runs

/-!
# `setAttributes:range:` as an operation on runs

The method works in three steps: `locateFollowing` settles where the range ends, `removeWithin`
drops the runs inside it, `useSlot` writes the attributes. `Located` is what holds between the
first step and the others; `setAttributes_spec` is the method as a whole: on an in-range call it
returns, keeps the run invariant and the accounting of the cache, and overwrites the map from
locations to attributes on the range and nowhere else.
-/

namespace GnustepGui.TextStorage

open RunMap StateExcept Positions

variable {D : Type} [DecidableEq D]

section Monad

omit [DecidableEq D]

variable {f : Frame D}

theorem objectAt_run {i : Nat} {info : GSTextInfo D} (h : f.infoArray[i]? = some info) : objectAt i f = .ok info f := by
  unfold objectAt
  rw [get_bind, h]
  rfl

theorem rangeCheck_ok {range : NSRange} {size : Nat} (h : range.max ≤ size) : rangeCheck range size f = .ok () f := by
  unfold NSRange.max at h
  unfold rangeCheck
  rw [if_neg (by omega)]
  rfl

theorem rangeCheck_error {range : NSRange} {size : Nat} (h : size < range.max) :
    rangeCheck range size f = .error .rangeException f := by
  unfold NSRange.max at h
  unfold rangeCheck
  rw [if_pos (by omega)]
  rfl

theorem lookupM_run {index len : Nat} {r : CachedDictionary D × NSRange × Nat}
    (h : attributesAtIndexEffectiveRange index len f.infoArray = .ok r) : lookupM index len f = .ok r f := by
  unfold lookupM
  rw [get_bind, h]
  rfl

theorem setLoc_run (i loc : Nat) : setLoc i loc f =
    .ok () { f with infoArray := f.infoArray.modify i fun info => { info with loc := loc } } := rfl

theorem setAttrs_run (i : Nat) (attrs : CachedDictionary D) : setAttrs i attrs f =
    .ok () { f with infoArray := f.infoArray.modify i fun info => { info with attrs := attrs } } := rfl

theorem insertAt_run {info : GSTextInfo D} {i : Nat} (h : i ≤ f.infoArray.length) :
    insertAt info i f = .ok () { f with infoArray := f.infoArray.insertIdx i info } := by
  unfold insertAt
  rw [get_bind, if_neg (by omega)]
  rfl

end Monad

theorem removeAt_run {f : Frame D} {i : Nat} {info : GSTextInfo D}
    (h : f.infoArray[i]? = some info) :
    removeAt i f = .ok () { f with
      infoArray := f.infoArray.eraseIdx i
      cache := unCacheAttributes info.attrs f.cache } := by
  unfold removeAt
  rw [bind_ok (objectAt_run h)]
  rfl

theorem unCacheM_run (f : Frame D) (attrs : CachedDictionary D) :
    unCacheM attrs f = .ok () { f with cache := unCacheAttributes attrs f.cache } := rfl

theorem cacheM_run (f : Frame D) (attrs : D) :
    cacheM attrs f = .ok (cacheAttributes attrs f.cache).1
      { f with cache := (cacheAttributes attrs f.cache).2 } := rfl

/-! ## Runs as a map, and as references -/

/-- The runs with the contents of their dictionaries. -/
def runsOf (infoArray : List (GSTextInfo D)) : List (Nat × D) :=
  infoArray.map fun info => (info.loc, info.attrs.contents)

/-- The references an array holds on cached dictionaries. -/
def refsOf (infoArray : List (GSTextInfo D)) : Multiset (CachedDictionary D) :=
  (infoArray.map (·.attrs) : List (CachedDictionary D))

section Lists

omit [DecidableEq D]

@[simp] theorem runsOf_nil : runsOf ([] : List (GSTextInfo D)) = [] := rfl

@[simp] theorem runsOf_cons (info : GSTextInfo D) (rest : List (GSTextInfo D)) :
    runsOf (info :: rest) = (info.loc, info.attrs.contents) :: runsOf rest := rfl

@[simp] theorem runsOf_append (a b : List (GSTextInfo D)) :
    runsOf (a ++ b) = runsOf a ++ runsOf b := List.map_append

@[simp] theorem refsOf_nil : refsOf ([] : List (GSTextInfo D)) = 0 := rfl

@[simp] theorem refsOf_cons (info : GSTextInfo D) (rest : List (GSTextInfo D)) :
    refsOf (info :: rest) = info.attrs ::ₘ refsOf rest := rfl

@[simp] theorem refsOf_append (a b : List (GSTextInfo D)) : refsOf (a ++ b) = refsOf a + refsOf b := by
  unfold refsOf
  rw [List.map_append, Multiset.coe_add]

variable {infoArray : List (GSTextInfo D)}

theorem mem_refsOf {info : GSTextInfo D} (h : info ∈ infoArray) : info.attrs ∈ refsOf infoArray := by
  unfold refsOf
  rw [Multiset.mem_coe]
  exact List.mem_map_of_mem h

theorem valueAt_runsOf_eq_none {k : Nat}
    (h : ∀ info ∈ infoArray, k < info.loc) : valueAt (runsOf infoArray) k = none := by
  apply valueAt_eq_none
  intro r hr
  obtain ⟨info, hi, rfl⟩ := List.mem_map.mp hr
  exact h info hi

theorem valueAt_runsOf_isSome {info : GSTextInfo D} {k : Nat}
    (h : info ∈ infoArray) (hk : info.loc ≤ k) : (valueAt (runsOf infoArray) k).isSome :=
  valueAt_isSome (List.mem_map_of_mem h) hk

theorem valueAt_snoc (front : List (GSTextInfo D)) (info : GSTextInfo D) (k : Nat) :
    valueAt (runsOf (front ++ [info])) k =
      if info.loc ≤ k then some info.attrs.contents else valueAt (runsOf front) k := by
  rw [runsOf_append, valueAt_append, runsOf_cons, runsOf_nil, valueAt_singleton]
  split <;> rfl

variable {pre post : List (GSTextInfo D)} {run : GSTextInfo D} {len k : Nat}

theorem RunInvariant.valueAt_of_mem_run (h : RunInvariant (pre ++ run :: post) len)
    (hlo : run.loc ≤ k) (hhi : k < endOfRun post len) :
    valueAt (runsOf (pre ++ run :: post)) k = some run.attrs.contents := by
  rw [runsOf_append, valueAt_append, runsOf_cons, valueAt_cons, if_pos hlo,
    valueAt_runsOf_eq_none fun b hb => Nat.lt_of_lt_of_le hhi (h.endOfRun_le hb)]
  rfl

theorem RunInvariant.valueAt_post (h : RunInvariant (pre ++ run :: post) len)
    (hlo : endOfRun post len ≤ k) (hhi : k < len) :
    valueAt (runsOf (pre ++ run :: post)) k = valueAt (runsOf post) k := by
  cases post with
  | nil => rw [endOfRun_nil] at hlo; omega
  | cons b rest =>
    rw [endOfRun_cons] at hlo
    obtain ⟨x, hx⟩ := Option.isSome_iff_exists.mp
      (valueAt_runsOf_isSome (List.mem_cons_self (a := b) (l := rest)) hlo)
    rw [runsOf_append, valueAt_append, runsOf_cons, valueAt_cons, hx]
    rfl

end Lists

/-! ## Finding the end of the range -/

/-- After `locateFollowing` the array is `pre ++ run :: post`: `post` are the runs that stay behind
the range, and the attributes will hold from `begin` to the start of `post`. Where that stretch
leaves the range, the old attributes were the same. -/
structure Located (infoArray : List (GSTextInfo D)) (len : Nat) (attributes : CachedDictionary D)
    (range : NSRange) (begin : Nat) (pre : List (GSTextInfo D)) (run : GSTextInfo D)
    (post : List (GSTextInfo D)) : Prop where
  begin_le : begin ≤ range.location
  max_le : range.max ≤ endOfRun post len
  first : (pre ++ [run]).head?.map (·.loc) = some 0
  increasing : (pre ++ [run]).Pairwise fun a b => a.loc < b.loc
  inside : ∀ a ∈ pre ++ [run], 0 < a.loc → a.loc < len
  post_increasing : post.Pairwise fun a b => a.loc < b.loc
  post_le : ∀ b ∈ post, endOfRun post len ≤ b.loc ∧ b.loc < len
  before : ∀ k < begin, valueAt (runsOf infoArray) k = valueAt (runsOf (pre ++ [run])) k
  extendedDown : ∀ k, begin ≤ k → k < range.location →
    valueAt (runsOf infoArray) k = some attributes.contents
  extendedUp : ∀ k, range.max ≤ k → k < endOfRun post len →
    valueAt (runsOf infoArray) k = some attributes.contents
  behind : ∀ k, endOfRun post len ≤ k → k < len →
    valueAt (runsOf infoArray) k = valueAt (runsOf post) k

section Located

omit [DecidableEq D]

variable {pre post : List (GSTextInfo D)} {run : GSTextInfo D} {len : Nat} {range : NSRange}
  {p : CachedDictionary D}

theorem RunInvariant.increasing_left (h : RunInvariant (pre ++ run :: post) len) :
    (pre ++ [run]).Pairwise fun a b => a.loc < b.loc := by
  have := h.increasing
  rw [← List.singleton_append, ← List.append_assoc] at this
  exact (List.pairwise_append.mp this).1

theorem RunInvariant.increasing_right (h : RunInvariant (pre ++ run :: post) len) :
    post.Pairwise fun a b => a.loc < b.loc := (List.pairwise_cons.mp (List.pairwise_append.mp h.increasing).2.1).2

theorem RunInvariant.first_left (h : RunInvariant (pre ++ run :: post) len) :
    (pre ++ [run]).head?.map (·.loc) = some 0 := by
  have := h.first
  cases pre <;> simpa using this

theorem RunInvariant.inside_left (h : RunInvariant (pre ++ run :: post) len) :
    ∀ a ∈ pre ++ [run], 0 < a.loc → a.loc < len := by
  intro a ha
  refine h.lt_len ?_
  rcases List.mem_append.mp ha with ha | ha
  · exact List.mem_append_left _ ha
  · rw [List.mem_singleton.mp ha]; simp

theorem RunInvariant.post_le (h : RunInvariant (pre ++ run :: post) len) :
    ∀ b ∈ post, endOfRun post len ≤ b.loc ∧ b.loc < len := by
  intro b hb
  have hlt := h.lt_post hb
  exact ⟨h.endOfRun_le hb, h.lt_len (by simp [hb]) (by omega)⟩

theorem RunInvariant.valueAt_left (h : RunInvariant (pre ++ run :: post) len) {k : Nat} (hk : k < endOfRun post len) :
    valueAt (runsOf (pre ++ run :: post)) k = valueAt (runsOf (pre ++ [run])) k := by
  have he : pre ++ run :: post = (pre ++ [run]) ++ post := by simp
  rw [he, runsOf_append, valueAt_append,
    valueAt_runsOf_eq_none fun b hb => Nat.lt_of_lt_of_le hk (h.endOfRun_le hb)]
  rfl

theorem located_end (h : RunInvariant (pre ++ [run]) len) (hm : range.max = len) :
    Located (pre ++ [run]) len p range range.location pre run [] where
  begin_le := Nat.le_refl _
  max_le := by rw [endOfRun_nil, hm]
  first := h.first
  increasing := h.increasing
  inside := h.inside_left
  post_increasing := List.Pairwise.nil
  post_le b hb := by simp at hb
  before k _ := rfl
  extendedDown k h1 h2 := by omega
  extendedUp k h1 h2 := by rw [endOfRun_nil] at h2; omega
  behind k h1 h2 := by rw [endOfRun_nil] at h1; omega

theorem located_same (h : RunInvariant (pre ++ run :: post) len) (hlo : run.loc ≤ range.max)
    (hhi : range.max < endOfRun post len) :
    Located (pre ++ run :: post) len run.attrs range (min run.loc range.location) pre run post where
  begin_le := Nat.min_le_right _ _
  max_le := Nat.le_of_lt hhi
  first := h.first_left
  increasing := h.increasing_left
  inside := h.inside_left
  post_increasing := h.increasing_right
  post_le := h.post_le
  before k hk := h.valueAt_left (by unfold NSRange.max at hhi; omega)
  extendedDown k h1 h2 := h.valueAt_of_mem_run (by omega) (by unfold NSRange.max at hhi; omega)
  extendedUp k h1 h2 := h.valueAt_of_mem_run (by omega) h2
  behind k h1 h2 := h.valueAt_post h1 h2

/-- What stays behind the range: a run from its end on, and the runs after that. -/
theorem behind_cut (h : RunInvariant (pre ++ run :: post) len) (hhi : range.max < endOfRun post len)
    (rest : GSTextInfo D) (hr : rest.loc = range.max) : (rest :: post).Pairwise (fun a b => a.loc < b.loc) ∧
      ∀ b ∈ rest :: post, endOfRun (rest :: post) len ≤ b.loc ∧ b.loc < len := by
  have hm : range.max < len := Nat.lt_of_lt_of_le hhi h.endOfRun_le_len
  refine ⟨List.pairwise_cons.mpr ⟨fun b hb => ?_, h.increasing_right⟩, fun b hb => ?_⟩
  · rw [hr]
    exact Nat.lt_of_lt_of_le hhi (h.endOfRun_le hb)
  · rw [endOfRun_cons, hr]
    rcases List.mem_cons.mp hb with rfl | hb
    · exact ⟨hr.ge, hr ▸ hm⟩
    · exact ⟨Nat.le_of_lt (Nat.lt_of_lt_of_le hhi (h.endOfRun_le hb)), (h.post_le b hb).2⟩

/-- The run behind the range starts inside it and is moved to its end; the walk starts at the run
before it. -/
theorem located_moved {prev : GSTextInfo D} (h : RunInvariant (pre ++ prev :: run :: post) len)
    (hlo : range.location < run.loc) (hle : run.loc ≤ range.max)
    (hhi : range.max < endOfRun post len) :
    Located (pre ++ prev :: run :: post) len p range range.location pre prev
      ({ run with loc := range.max } :: post) := by
  have h' : RunInvariant ((pre ++ [prev]) ++ run :: post) len := by simpa using h
  have hm : range.max < len := Nat.lt_of_lt_of_le hhi h'.endOfRun_le_len
  obtain ⟨hc, hb⟩ := behind_cut h' hhi { run with loc := range.max } rfl
  refine ⟨Nat.le_refl _, Nat.le_refl _, h.first_left, h.increasing_left, h.inside_left, hc, hb, ?_,
    fun k h1 h2 => by omega, fun k h1 h2 => absurd h2 (Nat.not_lt.mpr h1), ?_⟩
  · intro k hk
    exact h.valueAt_left (by rw [endOfRun_cons]; omega)
  · intro k h1 h2
    rw [endOfRun_cons] at h1
    rw [runsOf_cons, valueAt_cons, if_pos (show range.max ≤ k from h1), runsOf_append, valueAt_append, runsOf_cons,
      valueAt_cons, runsOf_cons, valueAt_cons, if_pos (Nat.le_trans hle h1)]
    cases valueAt (runsOf post) k <;> rfl

theorem located_cut (h : RunInvariant (pre ++ run :: post) len) (hlo : run.loc ≤ range.location)
    (hhi : range.max < endOfRun post len) : Located (pre ++ run :: post) len p range range.location pre run
      (⟨range.max, run.attrs⟩ :: post) := by
  have hm : range.max < len := Nat.lt_of_lt_of_le hhi h.endOfRun_le_len
  have hle : range.location ≤ range.max := by unfold NSRange.max; omega
  obtain ⟨hc, hb⟩ := behind_cut h hhi ⟨range.max, run.attrs⟩ rfl
  refine ⟨Nat.le_refl _, Nat.le_refl _, h.first_left, h.increasing_left, h.inside_left, hc, hb, ?_,
    fun k h1 h2 => by omega, fun k h1 h2 => absurd h2 (Nat.not_lt.mpr h1), ?_⟩
  · intro k hk
    exact h.valueAt_left (by omega)
  · intro k h1 h2
    rw [endOfRun_cons] at h1
    rw [runsOf_cons, valueAt_cons, if_pos (show range.max ≤ k from h1),
      runsOf_append, valueAt_append, runsOf_cons, valueAt_cons,
      if_pos (show run.loc ≤ k by simp only at h1; omega)]
    cases valueAt (runsOf post) k <;> rfl

end Located

variable {cache : AttributeCache D} {others : Multiset (CachedDictionary D)}

theorem locateFollowing_spec {infoArray : List (GSTextInfo D)} {textChars : List UInt16} {p : CachedDictionary D}
    {range : NSRange} (h : RunInvariant infoArray textChars.length)
    (ha : Accounts cache (refsOf infoArray + others)) (hmax : range.max ≤ textChars.length) :
    ∃ cache' begin pre run post, locateFollowing p range textChars.length ⟨cache, infoArray, textChars⟩ =
        .ok (begin, pre.length) ⟨cache', pre ++ run :: post, textChars⟩ ∧
      Located infoArray textChars.length p range begin pre run post ∧
      Accounts cache' (refsOf (pre ++ run :: post) + others) := by
  unfold locateFollowing
  rcases Nat.lt_or_eq_of_le hmax with hlt | heq
  · obtain ⟨pre, run, post, rfl, hlo, hhi⟩ := h.split hlt
    simp only
    rw [if_pos hlt, bind_ok (lookupM_run (attributesAtIndexEffectiveRange_eq h hlo hhi))]
    simp only
    by_cases hs : run.attrs = p
    · subst hs
      rw [if_pos rfl]
      exact ⟨cache, _, pre, run, post, rfl, located_same h hlo hhi, ha⟩
    rw [if_neg hs]
    by_cases hin : range.location < run.loc
    · obtain ⟨pre, prev, rfl⟩ : ∃ pre' prev, pre = pre' ++ [prev] := by
        refine ⟨_, _, (List.dropLast_append_getLast (l := pre) ?_).symm⟩
        rintro rfl
        have := h.run_loc_eq_zero
        omega
      have h' : RunInvariant (pre ++ prev :: run :: post) textChars.length := by simpa using h
      refine ⟨cache, range.location, pre, prev, { run with loc := range.max } :: post, ?_, ?_, ?_⟩
      · rw [if_pos hin]
        show EStateM.Result.ok _ _ = _
        have hm := modify_at (pre ++ [prev]) run post fun info => { info with loc := range.max }
        simp only [List.append_assoc, List.singleton_append, List.length_append, List.length_singleton] at hm
        simp [unsignedPred, hm]
      · simpa using located_moved h' hin hlo hhi
      · simpa using ha
    · rw [if_neg hin, if_pos (show range.max < NSRange.max ⟨run.loc, endOfRun post textChars.length - run.loc⟩ by
        unfold NSRange.max; simp only; unfold NSRange.max at hhi; omega)]
      have hk : (cacheAttributes run.attrs.contents cache).1 = run.attrs := by
        have ha' := accounts_cacheAttributes ha run.attrs.contents
        refine ha'.contents_inj _ (Multiset.mem_cons_self _ _) _ ?_ (cacheAttributes_contents ha _)
        exact Multiset.mem_cons_of_mem (Multiset.mem_add.mpr (Or.inl (mem_refsOf (by simp))))
      refine ⟨(cacheAttributes run.attrs.contents cache).2, range.location, pre, run,
        ⟨range.max, run.attrs⟩ :: post, ?_, located_cut h (by omega) hhi, ?_⟩
      · rw [bind_ok (cacheM_run _ _), bind_ok (insertAt_run (by simp))]
        simp [hk, pure_run, insertIdx_after]
      · have ha' := accounts_cacheAttributes ha run.attrs.contents
        rw [hk] at ha'
        have he : run.attrs ::ₘ (refsOf (pre ++ run :: post) + others) =
            refsOf (pre ++ run :: ⟨range.max, run.attrs⟩ :: post) + others := by
          simp [Multiset.cons_add, Multiset.add_cons]
        rwa [he] at ha'
  · obtain ⟨pre, run, rfl⟩ : ∃ pre run, infoArray = pre ++ [run] := ⟨_, _, (List.dropLast_append_getLast h.ne_nil).symm⟩
    simp only
    rw [if_neg (by omega)]
    refine ⟨cache, range.location, pre, run, [], ?_, located_end h heq, ha⟩
    rw [get_bind]
    simp [pure_run]

/-! ## Removing the runs inside the range, and writing the attributes -/

theorem removeWithin_spec (begin : Nat) (textChars : List UInt16) (post : List (GSTextInfo D)) :
    ∀ (pre : List (GSTextInfo D)) (run : GSTextInfo D) (cache : AttributeCache D)
      (others : Multiset (CachedDictionary D)), (pre ++ [run]).Pairwise (fun a b => a.loc < b.loc) →
      Accounts cache (refsOf (pre ++ run :: post) + others) → ∃ cache' pre' run' removed,
        removeWithin begin pre.length ⟨cache, pre ++ run :: post, textChars⟩ =
          .ok pre'.length ⟨cache', pre' ++ run' :: post, textChars⟩ ∧
        pre ++ [run] = pre' ++ run' :: removed ∧ (∀ a ∈ pre', a.loc < begin) ∧ (removed ≠ [] → begin ≤ run'.loc) ∧
        Accounts cache' (refsOf (pre' ++ run' :: post) + others) := by
  -- induction on the runs before the slot, last one first
  intro pre
  induction hn : pre.length generalizing pre with
  | zero =>
    intro run cache others _ hacc
    obtain rfl := List.eq_nil_of_length_eq_zero hn
    exact ⟨cache, [], run, [], rfl, rfl, by simp, by simp, hacc⟩
  | succ n ih =>
    intro run cache others hp hacc
    obtain ⟨pre, q, rfl⟩ : ∃ pre' q, pre = pre' ++ [q] :=
      ⟨_, _, (List.dropLast_append_getLast (List.ne_nil_of_length_eq_add_one hn)).symm⟩
    have hl : n = pre.length := by simpa using hn.symm
    subst hl
    have hq : (pre ++ [q] ++ run :: post)[pre.length]? = some q := by simp
    unfold removeWithin
    rw [bind_ok (objectAt_run (f := ⟨cache, _, textChars⟩) hq)]
    by_cases hb : q.loc < begin
    · rw [if_pos hb]
      refine ⟨cache, pre ++ [q], run, [], by simp [pure_run], rfl, ?_, by simp, hacc⟩
      intro a ha
      rcases List.mem_append.mp ha with ha | ha
      · have := (List.pairwise_append.mp (List.pairwise_append.mp hp).1).2.2 a ha q (by simp)
        omega
      · rwa [List.mem_singleton.mp ha]
    · have hr : (pre ++ [q] ++ run :: post)[pre.length + 1]? = some run := by simp
      have he : (pre ++ [q] ++ run :: post).eraseIdx (pre.length + 1) = pre ++ q :: post := by
        simpa using eraseIdx_at (pre ++ [q]) run post
      rw [if_neg hb, bind_ok (removeAt_run (f := ⟨cache, _, textChars⟩) hr)]
      simp only [he]
      have hm : run.attrs ∈ refsOf (pre ++ [q] ++ run :: post) + others :=
        Multiset.mem_add.mpr (Or.inl (mem_refsOf (by simp)))
      have hacc' := accounts_unCacheAttributes hacc _ hm
      have hrf : (refsOf (pre ++ [q] ++ run :: post) + others).erase run.attrs =
          refsOf (pre ++ q :: post) + others := by
        have : refsOf (pre ++ [q] ++ run :: post) + others = run.attrs ::ₘ (refsOf (pre ++ q :: post) + others) := by
          simp [Multiset.add_cons, Multiset.cons_swap]
        rw [this, Multiset.erase_cons_head]
      rw [hrf] at hacc'
      obtain ⟨cache', pre', run', removed, h1, h2, h3, h4, h5⟩ := ih pre rfl q _ _ (List.pairwise_append.mp hp).1 hacc'
      refine ⟨cache', pre', run', removed ++ [run], h1, by rw [h2]; simp, h3, ?_, h5⟩
      intro _
      by_cases hrem : removed = []
      · subst hrem
        have : run' = q := by simpa using (List.append_inj_right' h2 (by simp)).symm
        rw [this]; omega
      · exact h4 hrem

theorem useSlot_spec (textChars : List UInt16)
    {p : CachedDictionary D} (begin : Nat)
    (pre : List (GSTextInfo D)) (run : GSTextInfo D) (post : List (GSTextInfo D))
    (ha : Accounts cache (refsOf (pre ++ run :: post) + (p ::ₘ others))) :
    ∃ cache' infoArray',
      useSlot p begin pre.length ⟨cache, pre ++ run :: post, textChars⟩ =
        .ok () ⟨cache', infoArray', textChars⟩ ∧
      (infoArray' = if begin ≤ run.loc then pre ++ ⟨begin, p⟩ :: post
        else if run.attrs = p then pre ++ run :: post else pre ++ run :: ⟨begin, p⟩ :: post) ∧
      Accounts cache' (refsOf infoArray' + others) := by
  have hsl : Accounts (unCacheAttributes p cache) (refsOf (pre ++ run :: post) + others) := by
    have := accounts_unCacheAttributes ha p (by simp)
    rwa [Multiset.add_cons, Multiset.erase_cons_head] at this
  unfold useSlot
  rw [bind_ok (objectAt_run (f := ⟨cache, _, textChars⟩) (getElem?_at pre run post))]
  by_cases hb : begin ≤ run.loc
  · rw [if_pos hb, bind_ok (setLoc_run _ _)]
    simp only [modify_at]
    by_cases hs : run.attrs = p
    · rw [if_pos hs]
      refine ⟨_, _, rfl, ?_, ?_⟩
      · rw [if_pos hb, hs]
      · simpa using hsl
    · rw [if_neg hs, bind_ok (unCacheM_run _ _), setAttrs_run]
      refine ⟨unCacheAttributes run.attrs cache, pre ++ ⟨begin, p⟩ :: post, ?_, ?_, ?_⟩
      · simp only [modify_at]
      · rw [if_pos hb]
      · have := accounts_unCacheAttributes ha run.attrs (by simp)
        have he : refsOf (pre ++ run :: post) + p ::ₘ others =
            run.attrs ::ₘ (refsOf (pre ++ ⟨begin, p⟩ :: post) + others) := by
          simp [Multiset.add_cons, Multiset.cons_swap]
        rwa [he, Multiset.erase_cons_head] at this
  · rw [if_neg hb]
    by_cases hs : run.attrs = p
    · rw [if_pos hs]
      exact ⟨_, _, rfl, by rw [if_neg hb, if_pos hs], hsl⟩
    · rw [if_neg hs]
      refine ⟨cache, pre ++ run :: ⟨begin, p⟩ :: post, ?_, by rw [if_neg hb, if_neg hs], ?_⟩
      · rw [insertAt_run (by simp)]
        simp only [insertIdx_after]
      · simpa [Multiset.add_cons, Multiset.cons_swap] using ha

theorem Located.overwrite {infoArray infoArray' : List (GSTextInfo D)} {len begin : Nat}
    {p : CachedDictionary D} {range : NSRange} {pre pre' removed post : List (GSTextInfo D)}
    {run run' : GSTextInfo D} (h : Located infoArray len p range begin pre run post)
    (hspl : pre ++ [run] = pre' ++ run' :: removed) (hpre : ∀ a ∈ pre', a.loc < begin)
    (hrem : removed ≠ [] → begin ≤ run'.loc) (hm : range.max ≤ len) (hl : 0 < range.length)
    (hr : infoArray' = if begin ≤ run'.loc then pre' ++ ⟨begin, p⟩ :: post
        else if run'.attrs = p then pre' ++ run' :: post else pre' ++ run' :: ⟨begin, p⟩ :: post) :
    RunInvariant infoArray' len ∧ ∀ k < len, valueAt (runsOf infoArray') k =
      if range.location ≤ k ∧ k < range.max then some p.contents
      else valueAt (runsOf infoArray) k := by
  have hbeg : begin < endOfRun post len := by
    have h1 := h.begin_le
    have h2 := h.max_le
    unfold NSRange.max at h2
    omega
  have hbl : begin < len := by
    have h1 := h.begin_le
    unfold NSRange.max at hm
    omega
  have hpr := h.increasing
  have hin := h.inside
  have hf := h.first
  have hbef := h.before
  rw [hspl] at hpr hin hf hbef
  -- the runs kept in front of the range
  obtain ⟨front, hfrt, hps⟩ : ∃ front, infoArray' = front ++ post ∧
      (∀ k < endOfRun post len, valueAt (runsOf front) k =
        if begin ≤ k then some p.contents else valueAt (runsOf infoArray) k) ∧
      front.head?.map (·.loc) = some 0 ∧ front.Pairwise (fun a b => a.loc < b.loc) ∧
      (∀ a ∈ front, a.loc ≤ begin ∧ (0 < a.loc → a.loc < len)) := by
    split at hr
    · next hb =>
      refine ⟨pre' ++ [⟨begin, p⟩], by simp [hr], fun k hk => ?_, ?_, ?_, ?_⟩
      · rw [valueAt_snoc]
        simp only
        split
        · rfl
        · next hkb =>
          have hg : valueAt (runsOf (run' :: removed)) k = none := by
            apply valueAt_runsOf_eq_none
            intro a ha
            rcases List.mem_cons.mp ha with rfl | ha
            · omega
            · have := (List.pairwise_cons.mp (List.pairwise_append.mp hpr).2.1).1 a ha
              omega
          rw [hbef k (by omega), runsOf_append, valueAt_append, hg]
          rfl
      · cases pre' with
        | nil =>
          have : run'.loc = 0 := by simpa using hf
          simp only [List.nil_append, List.head?_cons, Option.map_some]
          rw [show begin = 0 by omega]
        | cons a rest => simpa using hf
      · refine List.pairwise_append.mpr ⟨(List.pairwise_append.mp hpr).1, by simp, ?_⟩
        intro a ha b hb'
        rw [List.mem_singleton.mp hb']
        exact hpre a ha
      · intro a ha
        rcases List.mem_append.mp ha with ha | ha
        · exact ⟨Nat.le_of_lt (hpre a ha), hin a (List.mem_append_left _ ha)⟩
        · rw [List.mem_singleton.mp ha]
          exact ⟨Nat.le_refl _, fun _ => hbl⟩
    · next hb =>
      obtain rfl : removed = [] := Classical.byContradiction fun hne => hb (hrem hne)
      have hall : ∀ a ∈ pre' ++ [run'], a.loc < begin := by
        intro a ha
        rcases List.mem_append.mp ha with ha | ha
        · exact hpre a ha
        · rw [List.mem_singleton.mp ha]; omega
      split at hr
      · next hs =>
        refine ⟨pre' ++ [run'], by simp [hr], fun k hk => ?_, hf, hpr,
          fun a ha => ⟨Nat.le_of_lt (hall a ha), hin a ha⟩⟩
        split
        · next hkb => rw [valueAt_snoc, if_pos (by omega), hs]
        · next hkb => exact (hbef k (by omega)).symm
      · refine ⟨pre' ++ [run'] ++ [⟨begin, p⟩], by simp [hr], fun k hk => ?_, ?_, ?_, ?_⟩
        · rw [valueAt_snoc]
          simp only
          split
          · rfl
          · next hkb => rw [hbef k (by omega)]
        · cases pre' <;> simpa using hf
        · refine List.pairwise_append.mpr ⟨hpr, by simp, ?_⟩
          intro a ha b hb'
          rw [List.mem_singleton.mp hb']
          exact hall a ha
        · intro a ha
          rcases List.mem_append.mp ha with ha | ha
          · exact ⟨Nat.le_of_lt (hall a ha), hin a ha⟩
          · rw [List.mem_singleton.mp ha]
            exact ⟨Nat.le_refl _, fun _ => hbl⟩
  obtain ⟨hv, hh, hpw, hle⟩ := hps
  subst hfrt
  refine ⟨RunInvariant.iff_loc.mpr ⟨?_, ?_, ?_⟩, fun k hk => ?_⟩
  · cases front with
    | nil => simp at hh
    | cons a rest => simpa using hh
  · refine List.pairwise_append.mpr ⟨hpw, h.post_increasing, fun a ha b hb => ?_⟩
    have h1 := (hle a ha).1
    have h2 := (h.post_le b hb).1
    omega
  · intro a ha hpos
    rcases List.mem_append.mp ha with ha | ha
    · exact (hle a ha).2 hpos
    · exact (h.post_le a ha).2
  · rw [runsOf_append, valueAt_append]
    rcases Nat.lt_or_ge k (endOfRun post len) with hkE | hkE
    · rw [valueAt_runsOf_eq_none fun b hb => Nat.lt_of_lt_of_le hkE (h.post_le b hb).1,
        Option.none_or, hv k hkE]
      by_cases hkb : begin ≤ k
      · rw [if_pos hkb]
        split
        · rfl
        · next ho =>
          rcases Nat.lt_or_ge k range.location with hlt | hge
          · exact (h.extendedDown k hkb hlt).symm
          · exact (h.extendedUp k (by omega) hkE).symm
      · have := h.begin_le
        rw [if_neg hkb, if_neg (by omega)]
    · have := h.max_le
      rw [if_neg (by omega), h.behind k hkE hk]
      cases hp : valueAt (runsOf post) k with
      | some x => rfl
      | none =>
        -- behind the range the runs of `post` cover every index
        exfalso
        cases post with
        | nil => rw [endOfRun_nil] at hkE; omega
        | cons b rest =>
          have := valueAt_runsOf_isSome (List.mem_cons_self (a := b) (l := rest)) hkE
          rw [hp] at this
          simp at this

/-! ## The method -/

theorem setAttributes_spec {infoArray : List (GSTextInfo D)}
    {textChars : List UInt16}
    (blank : CachedDictionary D) (attributes : Option D) {range : NSRange}
    (h : RunInvariant infoArray textChars.length)
    (ha : Accounts cache (refsOf infoArray + others)) (hm : range.max ≤ textChars.length)
    (hlen : 0 < range.length) :
    ∃ cache' infoArray',
      setAttributes blank attributes range ⟨cache, infoArray, textChars⟩ =
        .ok () ⟨cache', infoArray', textChars⟩ ∧
      RunInvariant infoArray' textChars.length ∧
      Accounts cache' (refsOf infoArray' + others) ∧
      ∀ k < textChars.length, valueAt (runsOf infoArray') k =
        if range.location ≤ k ∧ k < range.max then some (attributes.getD blank.contents)
        else valueAt (runsOf infoArray) k := by
  have hc := cacheAttributes_contents ha (attributes.getD blank.contents)
  have hcc := accounts_cacheAttributes ha (attributes.getD blank.contents)
  unfold setAttributes
  rw [if_neg (by omega), bind_ok (cacheM_run _ _), get_bind, bind_ok (rangeCheck_ok hm)]
  generalize (cacheAttributes (attributes.getD blank.contents) cache).1 = p at *
  generalize (cacheAttributes (attributes.getD blank.contents) cache).2 = cache1 at *
  rw [← Multiset.add_cons] at hcc
  obtain ⟨cache2, begin, pre, run, post, hr2, hl, ha2⟩ := locateFollowing_spec h hcc hm
  obtain ⟨cache3, pre', run', removed, hr3, hs, hp, hrem, ha3⟩ :=
    removeWithin_spec begin textChars post pre run cache2 _ hl.increasing ha2
  obtain ⟨cache4, infoArray', hr4, hres, ha4⟩ := useSlot_spec textChars begin pre' run' post ha3
  obtain ⟨hi, hv⟩ := hl.overwrite hs hp hrem hm hlen hres
  refine ⟨cache4, infoArray', ?_, hi, ha4, ?_⟩
  · rw [bind_ok hr2]
    simp only
    rw [bind_ok hr3, hr4]
  · rwa [hc] at hv

theorem setAttributes_raises (blank : CachedDictionary D) (attributes : Option D) {range : NSRange}
    (f : Frame D) (hm : f.textChars.length < range.max) (hl : 0 < range.length) :
    setAttributes blank attributes range f = .error .rangeException
      { f with cache := (cacheAttributes (attributes.getD blank.contents) f.cache).2 } := by
  unfold setAttributes
  rw [if_neg (by omega), bind_ok (cacheM_run _ _), get_bind, bind_error (rangeCheck_error hm)]

theorem setAttributes_empty (blank : CachedDictionary D) (attributes : Option D) {range : NSRange}
    (f : Frame D) (hl : range.length = 0) : setAttributes blank attributes range f = .ok () f := by
  unfold setAttributes
  rw [if_pos hl]
  rfl

end GnustepGui.TextStorage
