import GnustepGui.TextStorage.SetAttributes

/-!
# `replaceCharactersInRange:withString:` as an operation on runs

`trimEnclosed` makes the runs behind the one in use start at the end of the replaced range,
`removeExact` drops the run in use when all its characters go, `moveFollowing` shifts what is
behind. `replaceCharacters_spec` is the method on a range that starts before the end of the text;
`replaceCharacters_append` is the call at the end, which leaves the runs alone.
-/

namespace GnustepGui.TextStorage

open RunMap StateExcept Positions

variable {D : Type} [DecidableEq D]

/-! ## Trimming the runs that reach into the range -/

theorem removeEnclosed_spec (range : NSRange) (textChars : List UInt16) (pre : List (GSTextInfo D)) :
    ∀ (rest : List (GSTextInfo D)) (x : GSTextInfo D) (cache : AttributeCache D)
      (others : Multiset (CachedDictionary D)), Accounts cache (refsOf (pre ++ x :: rest) + others) →
      ∃ cache' removed y kept, removeEnclosed range pre.length rest.length ⟨cache, pre ++ x :: rest, textChars⟩ =
          .ok kept.length ⟨cache', pre ++ y :: kept, textChars⟩ ∧
        x :: rest = removed ++ y :: kept ∧ (y = x ∨ y.loc ≤ range.max) ∧
        (∀ b, kept.head? = some b → range.max < b.loc) ∧ Accounts cache' (refsOf (pre ++ y :: kept) + others) := by
  intro rest
  induction rest with
  | nil => exact fun x cache others ha => ⟨cache, [], x, [], rfl, rfl, Or.inl rfl, by simp, ha⟩
  | cons n rest ih =>
    intro x cache others ha
    have hn : (pre ++ x :: n :: rest)[pre.length + 1]? = some n := by simp
    unfold removeEnclosed
    rw [List.length_cons]
    simp only
    rw [bind_ok (objectAt_run (f := ⟨cache, _, textChars⟩) hn)]
    by_cases hle : n.loc ≤ range.max
    · rw [if_pos hle, bind_ok (removeAt_run (f := ⟨cache, _, textChars⟩) (getElem?_at pre x _))]
      simp only [eraseIdx_at]
      have ha' := accounts_unCacheAttributes ha x.attrs (by simp)
      have hr : refsOf (pre ++ x :: n :: rest) + others = x.attrs ::ₘ (refsOf (pre ++ n :: rest) + others) := by
        simp
      rw [hr, Multiset.erase_cons_head] at ha'
      obtain ⟨cache', removed, y, kept, h1, h2, h3, h4, h5⟩ := ih n _ others ha'
      refine ⟨cache', x :: removed, y, kept, h1, by rw [h2]; rfl, ?_, h4, h5⟩
      rcases h3 with rfl | h3
      · exact Or.inr hle
      · exact Or.inr h3
    · rw [if_neg hle]
      refine ⟨cache, [], x, n :: rest, rfl, rfl, Or.inl rfl, ?_, ha⟩
      intro b hb
      simp only [List.head?_cons, Option.some.injEq] at hb
      subst hb
      omega

/-- What holds of the array between trimming and moving: the runs behind `run` start at or after
the end of the range, and give the old attributes from there on. -/
structure Trimmed (infoArray : List (GSTextInfo D)) (len : Nat) (range : NSRange)
    (pre : List (GSTextInfo D)) (run : GSTextInfo D) (post : List (GSTextInfo D)) : Prop where
  invariant : RunInvariant (pre ++ run :: post) len
  max_le : range.max ≤ endOfRun post len
  behind : ∀ k, range.max ≤ k → k < len →
    valueAt (runsOf infoArray) k = (valueAt (runsOf post) k).or (some run.attrs.contents)

section Trimmed

omit [DecidableEq D]

variable {pre post : List (GSTextInfo D)} {run : GSTextInfo D} {len : Nat} {range : NSRange}

theorem valueAt_behind {k : Nat} (hlo : run.loc ≤ k) : valueAt (runsOf (pre ++ run :: post)) k =
      (valueAt (runsOf post) k).or (some run.attrs.contents) := by
  rw [runsOf_append, valueAt_append, runsOf_cons, valueAt_cons, if_pos hlo]
  cases valueAt (runsOf post) k <;> rfl

theorem trimmed_self (h : RunInvariant (pre ++ run :: post) len) (hlo : run.loc ≤ range.max)
    (hm : range.max ≤ endOfRun post len) : Trimmed (pre ++ run :: post) len range pre run post :=
  ⟨h, hm, fun _ h1 _ => valueAt_behind (Nat.le_trans hlo h1)⟩

/-- The range ends inside the text: the last run that starts by then is moved to its end. -/
theorem trimmed_moved {removed kept : List (GSTextInfo D)} {y : GSTextInfo D}
    (h : RunInvariant (pre ++ run :: post) len) (hps : post = removed ++ y :: kept)
    (hr : run.loc < range.max) (hy : y.loc ≤ range.max)
    (hk : ∀ b, kept.head? = some b → range.max < b.loc) (hm : range.max < len) :
    Trimmed (pre ++ run :: post) len range pre run ({ y with loc := range.max } :: kept) := by
  subst hps
  have h' : RunInvariant ((pre ++ run :: removed) ++ y :: kept) len := by simpa using h
  have hlt : ∀ b ∈ kept, range.max < b.loc := by
    intro b hb
    cases kept with
    | nil => simp at hb
    | cons c rest =>
      have := hk c rfl
      have := h'.endOfRun_le hb
      rw [endOfRun_cons] at this
      omega
  refine ⟨RunInvariant.iff_loc.mpr ⟨?_, ?_, ?_⟩, Nat.le_refl _, fun k h1 h2 => ?_⟩
  · have := h.first
    cases pre <;> simpa using this
  · rw [← List.singleton_append, ← List.append_assoc]
    refine List.pairwise_append.mpr ⟨h.increasing_left, ?_, ?_⟩
    · exact List.pairwise_cons.mpr ⟨hlt, h'.increasing_right⟩
    · intro a ha b hb
      have hale : a.loc ≤ run.loc := by
        rcases List.mem_append.mp ha with ha | ha
        · exact Nat.le_of_lt (h.pre_lt ha)
        · rw [List.mem_singleton.mp ha]
      rcases List.mem_cons.mp hb with rfl | hb
      · exact Nat.lt_of_le_of_lt hale hr
      · exact Nat.lt_trans (Nat.lt_of_le_of_lt hale hr) (hlt b hb)
  · intro a ha hp
    rw [← List.singleton_append, ← List.append_assoc] at ha
    rcases List.mem_append.mp ha with ha | ha
    · exact h.inside_left a ha hp
    · rcases List.mem_cons.mp ha with rfl | ha
      · exact hm
      · exact (h'.post_le a ha).2
  · rw [valueAt_behind (by omega), runsOf_append, valueAt_append, runsOf_cons, valueAt_cons,
      runsOf_cons, valueAt_cons, if_pos (Nat.le_trans hy h1),
      if_pos (show range.max ≤ k from h1)]
    cases valueAt (runsOf kept) k <;> rfl

theorem trimmed_end (h : RunInvariant (pre ++ run :: post) len) (hm : range.max = len) :
    Trimmed (pre ++ run :: post) len range pre run [] := by
  refine ⟨RunInvariant.iff_loc.mpr ⟨?_, h.increasing_left, h.inside_left⟩, ?_, fun k h1 h2 => ?_⟩
  · exact h.first_left
  · rw [endOfRun_nil, hm]
  · omega

end Trimmed

variable {cache : AttributeCache D} {others : Multiset (CachedDictionary D)} {textChars : List UInt16}

theorem trimEnclosed_spec {range : NSRange} {pre post : List (GSTextInfo D)}
    {run : GSTextInfo D} (h : RunInvariant (pre ++ run :: post) textChars.length)
    (ha : Accounts cache (refsOf (pre ++ run :: post) + others)) (hr : run.loc < range.max)
    (hend : endOfRun post textChars.length < range.max) (hmax : range.max ≤ textChars.length) : ∃ cache' post',
      trimEnclosed range (pre.length + 1) (pre ++ run :: post).length ⟨cache, pre ++ run :: post, textChars⟩ =
        .ok (pre ++ run :: post').length ⟨cache', pre ++ run :: post', textChars⟩ ∧
      Trimmed (pre ++ run :: post) textChars.length range pre run post' ∧
      Accounts cache' (refsOf (pre ++ run :: post') + others) := by
  cases post with
  | nil => rw [endOfRun_nil] at hend; omega
  | cons x rest =>
    rw [endOfRun_cons] at hend
    have hx : (pre ++ run :: x :: rest)[pre.length + 1]? = some x := by simp
    obtain ⟨cache', removed, y, kept, hl, hs, hy, hk, ha'⟩ :=
      removeEnclosed_spec range textChars (pre ++ [run]) rest x cache others (by simpa using ha)
    simp only [List.length_append, List.length_singleton, List.append_assoc, List.singleton_append] at hl ha'
    have hyle : y.loc ≤ range.max := by
      rcases hy with rfl | hy
      · omega
      · exact hy
    unfold trimEnclosed
    rw [bind_ok (objectAt_run (f := ⟨cache, _, textChars⟩) hx), if_pos hend]
    have hsz : (pre ++ run :: x :: rest).length - (pre.length + 1 + 1) = rest.length := by simp; omega
    rw [hsz, bind_ok hl, bind_ok (pure_run _)]
    simp only
    rw [get_bind]
    simp only
    by_cases hlt : range.max < textChars.length
    · rw [if_pos hlt, bind_ok (setLoc_run _ _)]
      refine ⟨cache', { y with loc := range.max } :: kept, ?_,
        trimmed_moved h hs hr hyle hk hlt, by simpa using ha'⟩
      have hm := modify_at (pre ++ [run]) y kept fun info => { info with loc := range.max }
      simp only [List.length_append, List.length_singleton, List.append_assoc, List.singleton_append] at hm
      simp only [hm, pure_run]
      congr 1
      simp
      omega
    · -- every run starts inside the text, so nothing was kept
      have hn : kept = [] := by
        cases kept with
        | nil => rfl
        | cons b kept =>
          have h1 := hk b rfl
          have h2 : b.loc < textChars.length := by
            refine h.lt_len ?_ (by omega)
            rw [hs]
            simp
          omega
      subst hn
      have hat : (pre ++ run :: [y])[pre.length + 1]? = some y := by simp
      rw [if_neg hlt, bind_ok (removeAt_run (f := ⟨cache', _, textChars⟩) hat)]
      refine ⟨unCacheAttributes y.attrs cache', [], ?_, trimmed_end h (by omega), ?_⟩
      · have he : (pre ++ run :: [y]).eraseIdx (pre.length + 1) = pre ++ [run] := by
          simpa using eraseIdx_at (pre ++ [run]) y []
        simp only [he, pure_run]
        simp
      · have := accounts_unCacheAttributes ha' y.attrs (by simp)
        have hrf : refsOf (pre ++ run :: [y]) + others = y.attrs ::ₘ (refsOf (pre ++ [run]) + others) := by
          simp only [refsOf_append, refsOf_cons, refsOf_nil, Multiset.add_cons, Multiset.cons_add]
          exact Multiset.cons_swap _ _ _
        rwa [hrf, Multiset.erase_cons_head] at this

/-! ## Dropping the emptied run, and moving -/

/-- What `removeExact` makes of `pre ++ [run]`, and the slot from which locations move:
the run in use is kept, or it covered exactly the replaced range and is dropped, or it was the only
one and is blanked. -/
inductive Emptied (len : Nat) (range : NSRange) (pre : List (GSTextInfo D)) (run : GSTextInfo D)
    (post : List (GSTextInfo D)) : List (GSTextInfo D) → Nat → Prop
  | kept (h : ¬ (run.loc = range.location ∧ endOfRun post len = range.max)) :
    Emptied len range pre run post (pre ++ [run]) (pre.length + 1)
  | dropped (hloc : run.loc = range.location) (hend : endOfRun post len = range.max)
    (hne : pre ≠ [] ∨ post ≠ []) : Emptied len range pre run post pre pre.length
  | blanked (d : CachedDictionary D) (hloc : run.loc = range.location)
    (hend : endOfRun post len = range.max) (hpre : pre = []) (hpost : post = []) :
    Emptied len range pre run post [⟨range.max, d⟩] 0

theorem removeExact_spec {range : NSRange} {start : Nat}
    {pre post : List (GSTextInfo D)} {run : GSTextInfo D} (blank : CachedDictionary D)
    (h : RunInvariant (pre ++ run :: post) textChars.length)
    (ha : Accounts cache (refsOf (pre ++ run :: post) + others))
    (hlo : run.loc ≤ start) (hhi : start < endOfRun post textChars.length) : ∃ cache' front moved size,
      removeExact blank range start textChars.length (pre ++ run :: post).length
          ⟨cache, pre ++ run :: post, textChars⟩ = .ok (moved, size) ⟨cache', front ++ post, textChars⟩ ∧
      Emptied textChars.length range pre run post front moved ∧ Accounts cache' (refsOf (front ++ post) + others) := by
  have hd : Accounts (unCacheAttributes run.attrs cache) (refsOf (pre ++ post) + others) := by
    have := accounts_unCacheAttributes ha run.attrs (by simp)
    have hr : refsOf (pre ++ run :: post) + others = run.attrs ::ₘ (refsOf (pre ++ post) + others) := by simp
    rwa [hr, Multiset.erase_cons_head] at this
  unfold removeExact
  rw [bind_ok (lookupM_run (attributesAtIndexEffectiveRange_eq h hlo hhi))]
  simp only
  by_cases he : run.loc = range.location ∧ endOfRun post textChars.length - run.loc = range.length
  · have hend : endOfRun post textChars.length = range.max := by unfold NSRange.max; omega
    rw [if_pos he]
    by_cases hne : pre.length ≠ 0 ∨ 1 < (pre ++ run :: post).length
    · rw [if_pos hne, bind_ok (removeAt_run (f := ⟨cache, _, textChars⟩) (getElem?_at pre run post))]
      simp only [eraseIdx_at, pure_run]
      refine ⟨_, pre, _, _, rfl, .dropped he.1 hend ?_, hd⟩
      rcases hne with hne | hne
      · exact Or.inl fun hn => hne (by rw [hn]; rfl)
      · by_cases hp : pre = []
        · subst hp
          exact Or.inr fun hn => by subst hn; simp at hne
        · exact Or.inl hp
    · have hpre : pre = [] := List.eq_nil_of_length_eq_zero (by omega)
      subst hpre
      have hps : post = [] := by simpa using hne
      subst hps
      rw [if_neg hne, bind_ok (objectAt_run (f := ⟨cache, _, textChars⟩) rfl), bind_ok (unCacheM_run _ _),
        bind_ok (cacheM_run _ _), bind_ok (setAttrs_run _ _), bind_ok (setLoc_run _ _)]
      refine ⟨_, [⟨range.max, _⟩], _, _, rfl, .blanked _ he.1 hend rfl rfl, ?_⟩
      simpa using accounts_cacheAttributes hd blank.contents
  · rw [if_neg he]
    refine ⟨cache, pre ++ [run], pre.length + 1, (pre ++ run :: post).length, ?_, .kept ?_,
      by simpa using ha⟩
    · rw [pure_run]
      simp
    · rintro ⟨h1, h2⟩
      refine he ⟨h1, ?_⟩
      unfold NSRange.max at h2
      omega

/-- A location behind the range after the move. -/
def movedLoc (range : NSRange) (n loc : Nat) : Nat := (loc + ((n : Int) - range.length)).toNat

omit [DecidableEq D] in
theorem movedLoc_eq {range : NSRange} {n loc : Nat} (h : range.max ≤ loc) :
    movedLoc range n loc + range.length = loc + n := by
  unfold NSRange.max at h
  unfold movedLoc
  omega

omit [DecidableEq D] in
theorem moveFollowing_run (f : Frame D) (i : Nat) (range : NSRange) (n : Nat) :
    moveFollowing i ((n : Int) - range.length) f = .ok () { f with
      infoArray := f.infoArray.take i ++ (f.infoArray.drop i).map
        fun info => { info with loc := movedLoc range n info.loc } } := rfl

section Moved

omit [DecidableEq D]

variable {pre post : List (GSTextInfo D)} {run : GSTextInfo D} {len n : Nat} {range : NSRange}

/-- The runs behind the range after the move. -/
def movedRuns (range : NSRange) (n : Nat) (post : List (GSTextInfo D)) : List (GSTextInfo D) :=
  post.map fun info => { info with loc := movedLoc range n info.loc }

theorem valueAt_movedRuns {k : Nat} (h : ∀ b ∈ post, range.max ≤ b.loc) :
    valueAt (runsOf (movedRuns range n post)) (movedLoc range n k) = valueAt (runsOf post) k ∨ k < range.max := by
  by_cases hk : k < range.max
  · exact Or.inr hk
  · left
    have : runsOf (movedRuns range n post) = (runsOf post).map fun r => (movedLoc range n r.1, r.2) := by
      simp [runsOf, movedRuns, Function.comp_def]
    rw [this]
    apply valueAt_map_start
    intro r hr
    obtain ⟨b, hb, rfl⟩ := List.mem_map.mp hr
    have h1 := movedLoc_eq (n := n) (h b hb)
    have h2 : movedLoc range n k + range.length = k + n := movedLoc_eq (by omega)
    show movedLoc range n b.loc ≤ _ ↔ b.loc ≤ k
    omega

/-- The invariant and the map after the move, when the first part of the array is `front`: sorted,
starting at 0, and in front of the moved runs. -/
theorem movedRuns_spec {infoArray front : List (GSTextInfo D)} {start : Nat} {x : Option D}
    (h : Trimmed infoArray len range pre run post) (hm : range.max ≤ len)
    (hf : (front ++ movedRuns range n post).head?.map (·.loc) = some 0)
    (hinc : front.Pairwise fun a b => a.loc < b.loc)
    (hin : ∀ a ∈ front, 0 < a.loc → a.loc < len + n - range.length)
    (hbef : ∀ a ∈ front, ∀ b ∈ post, a.loc < movedLoc range n b.loc)
    (hl : ∀ k < range.location, valueAt (runsOf front) k = valueAt (runsOf infoArray) k)
    (hmid : ∀ k, range.location ≤ k → k < range.location + n → valueAt (runsOf front) k = x)
    (hx : x = valueAt (runsOf infoArray) start)
    (hr : ∀ k, range.max ≤ k → k < len → valueAt (runsOf post) k = none →
      valueAt (runsOf front) (movedLoc range n k) = some run.attrs.contents) :
    RunInvariant (front ++ movedRuns range n post) (len + n - range.length) ∧
    ∀ k < len + n - range.length, valueAt (runsOf (front ++ movedRuns range n post)) k =
      if k < range.location then valueAt (runsOf infoArray) k
      else if k < range.location + n then valueAt (runsOf infoArray) start
      else valueAt (runsOf infoArray) (k + range.length - n) := by
  have hge : ∀ b ∈ post, range.max ≤ b.loc := fun b hb =>
    Nat.le_trans h.max_le (h.invariant.endOfRun_le hb)
  have hi : ∀ b ∈ movedRuns range n post, ∃ c ∈ post, b.loc = movedLoc range n c.loc := by
    intro b hb
    obtain ⟨c, hc, rfl⟩ := List.mem_map.mp hb
    exact ⟨c, hc, rfl⟩
  refine ⟨RunInvariant.iff_loc.mpr ⟨hf, ?_, ?_⟩, fun k hk => ?_⟩
  · refine List.pairwise_append.mpr ⟨hinc, ?_, ?_⟩
    · refine List.pairwise_map.mpr (h.invariant.increasing_right.imp_of_mem ?_)
      intro a b ha hb hab
      have h1 := movedLoc_eq (n := n) (hge a ha)
      have h2 := movedLoc_eq (n := n) (hge b hb)
      show movedLoc range n a.loc < movedLoc range n b.loc
      omega
    · intro a ha b hb
      obtain ⟨c, hc, he⟩ := hi b hb
      rw [he]
      exact hbef a ha c hc
  · intro a ha hpos
    rcases List.mem_append.mp ha with ha | ha
    · exact hin a ha hpos
    · obtain ⟨c, hc, he⟩ := hi a ha
      have h1 := movedLoc_eq (n := n) (hge c hc)
      have h2 := (h.invariant.post_le c hc).2
      unfold NSRange.max at hm
      omega
  · rw [runsOf_append, valueAt_append]
    have hn : k < range.location + n → valueAt (runsOf (movedRuns range n post)) k = none := by
      intro hlt
      apply valueAt_runsOf_eq_none
      intro b hb
      obtain ⟨c, hc, he⟩ := hi b hb
      have h1 := movedLoc_eq (n := n) (hge c hc)
      have h2 := hge c hc
      unfold NSRange.max at h2
      omega
    split
    · next hk1 => rw [hn (by omega), Option.none_or, hl k hk1]
    · next hk1 =>
      split
      · next hk2 => rw [hn hk2, Option.none_or, hmid k (by omega) hk2, hx]
      · next hk2 =>
        -- an index behind the insertion is the image of one behind the range
        have hj : range.max ≤ k + range.length - n := by unfold NSRange.max; omega
        have hjk : movedLoc range n (k + range.length - n) = k := by
          have := movedLoc_eq (n := n) hj
          omega
        have hjl : k + range.length - n < len := by omega
        have hv := valueAt_movedRuns (n := n) (k := k + range.length - n) hge
        rw [hjk] at hv
        rw [hv.resolve_right (by omega), h.behind _ hj hjl]
        cases hp : valueAt (runsOf post) (k + range.length - n) with
        | some y => rfl
        | none =>
          have := hr _ hj hjl hp
          rw [hjk] at this
          rw [this]

end Moved

section Outcomes

omit [DecidableEq D]

variable {infoArray pre post : List (GSTextInfo D)} {run : GSTextInfo D} {len n start : Nat}
  {range : NSRange}

/-- The map a replacement by `n` characters should leave: the old attributes in front of the range
and behind it, those of the character at `start` on the new characters. -/
def Replaced (infoArray result : List (GSTextInfo D)) (len n start : Nat) (range : NSRange) : Prop :=
  RunInvariant result (len + n - range.length) ∧
  ∀ k < len + n - range.length, valueAt (runsOf result) k =
    if k < range.location then valueAt (runsOf infoArray) k
    else if k < range.location + n then valueAt (runsOf infoArray) start
    else valueAt (runsOf infoArray) (k + range.length - n)

theorem replaced_kept (h : Trimmed infoArray len range pre run post) (hm : range.max ≤ len)
    (hlo : run.loc ≤ range.location) (he : run.loc = range.location → n = 0 → endOfRun post len ≠ range.max)
    (hs : valueAt (runsOf infoArray) start = some run.attrs.contents) (hl : ∀ k < range.location,
      valueAt (runsOf infoArray) k = valueAt (runsOf (pre ++ [run])) k) :
    Replaced infoArray (pre ++ [run] ++ movedRuns range n post) len n start range := by
  have hle : ∀ a ∈ pre ++ [run], a.loc ≤ run.loc := by
    intro a ha
    rcases List.mem_append.mp ha with ha | ha
    · exact Nat.le_of_lt (h.invariant.pre_lt ha)
    · rw [List.mem_singleton.mp ha]
  have hmx := h.max_le
  have hen := h.invariant.endOfRun_le_len
  -- where the run in use starts there are new characters, or old ones behind the range
  have hr : run.loc < endOfRun post len + n - range.length := by
    rcases Nat.lt_or_eq_of_le hlo with hlt | heq
    · unfold NSRange.max at hmx; omega
    · have := he heq
      unfold NSRange.max at hmx this
      omega
  apply movedRuns_spec h hm
  · have := h.invariant.first_left
    cases pre <;> simpa using this
  · exact h.invariant.increasing_left
  · intro a ha _
    have := hle a ha
    omega
  · intro a ha b hb
    have h1 := h.invariant.endOfRun_le hb
    have h2 := movedLoc_eq (n := n) (Nat.le_trans hmx h1)
    have h3 := hle a ha
    omega
  · exact fun k hk => (hl k hk).symm
  · intro k hk _
    rw [valueAt_snoc, if_pos (by omega)]
  · exact hs.symm
  · intro k hk _ _
    have := movedLoc_eq (n := n) hk
    unfold NSRange.max at hk
    rw [valueAt_snoc, if_pos (by omega)]

theorem replaced_dropped (h : Trimmed infoArray len range pre run post) (hm : range.max ≤ len)
    (hl : run.loc = range.location) (he : endOfRun post len = range.max) (hne : pre ≠ [] ∨ post ≠ [])
    (hs : valueAt (runsOf infoArray) start = some run.attrs.contents) (hlf : ∀ k < range.location,
      valueAt (runsOf infoArray) k = valueAt (runsOf (pre ++ [run])) k) :
    Replaced infoArray (pre ++ movedRuns range 0 post) len 0 start range := by
  have hmvd : ∀ b ∈ post, range.location ≤ movedLoc range 0 b.loc := by
    intro b hb
    have h1 := h.invariant.endOfRun_le hb
    have h2 : movedLoc range 0 b.loc + range.length = b.loc + 0 := movedLoc_eq (by omega)
    unfold NSRange.max at he
    omega
  apply movedRuns_spec h hm (x := some run.attrs.contents)
  · cases pre with
    | cons a rest => simpa using h.invariant.first
    | nil =>
      have h0 := h.invariant.run_loc_eq_zero
      cases post with
      | nil => simp at hne
      | cons b rest =>
        have h2 : movedLoc range 0 b.loc + range.length = b.loc + 0 := movedLoc_eq (by
          rw [endOfRun_cons] at he; omega)
        rw [endOfRun_cons] at he
        unfold NSRange.max at he
        simp only [movedRuns, List.nil_append, List.map_cons, List.head?_cons, Option.map_some]
        congr 1
        omega
  · exact (List.pairwise_append.mp h.invariant.increasing).1
  · intro a ha _
    have := h.invariant.pre_lt ha
    unfold NSRange.max at hm
    omega
  · intro a ha b hb
    have h1 := h.invariant.pre_lt ha
    have h2 := hmvd b hb
    omega
  · intro k hk
    rw [hlf k hk, valueAt_snoc, if_neg (by omega)]
  · intro k hk hk'
    omega
  · exact hs.symm
  · intro k hk hkl hn
    exfalso
    cases post with
    | nil => rw [endOfRun_nil] at he; omega
    | cons b rest =>
      rw [endOfRun_cons] at he
      have := valueAt_runsOf_isSome (k := k) (List.mem_cons_self (a := b) (l := rest)) (by omega)
      rw [hn] at this
      simp at this

theorem replaced_blanked (h : Trimmed infoArray len range [] run []) (d : CachedDictionary D)
    (hl : run.loc = range.location) (he : endOfRun ([] : List (GSTextInfo D)) len = range.max) :
    Replaced infoArray (movedRuns range 0 [⟨range.max, d⟩]) len 0 start range := by
  have h0 := h.invariant.run_loc_eq_zero
  have hm := movedLoc_eq (n := 0) (Nat.le_refl range.max)
  rw [endOfRun_nil] at he
  unfold NSRange.max at hm he
  refine ⟨RunInvariant.iff_loc.mpr ⟨?_, by simp [movedRuns], ?_⟩, fun k hk => by omega⟩
  · simp only [movedRuns, List.map_cons, List.map_nil, List.head?_cons, Option.map_some]
    congr 1
    unfold NSRange.max
    omega
  · intro a ha hp
    simp only [movedRuns, List.map_cons, List.map_nil, List.mem_singleton] at ha
    subst ha
    unfold NSRange.max at hp
    simp only at hp
    omega

end Outcomes

/-! ## The method -/

theorem replaceCharacters_raises (blank : CachedDictionary D) {range : NSRange}
    (aString : Option (List UInt16)) (f : Frame D) (hm : f.textChars.length < range.max) :
    replaceCharactersInRange blank range aString f = .error .rangeException f := by
  unfold replaceCharactersInRange
  simp only
  rw [get_bind, bind_error (rangeCheck_error hm)]

theorem replaceCharacters_append (blank : CachedDictionary D) {range : NSRange}
    (aString : Option (List UInt16)) (f : Frame D) (hm : range.max ≤ f.textChars.length)
    (hl : range.location = f.textChars.length) :
    replaceCharactersInRange blank range aString f =
      .ok () { f with textChars := f.textChars ++ aString.getD [] } := by
  unfold replaceCharactersInRange
  simp only
  rw [get_bind, bind_ok (rangeCheck_ok hm), if_pos hl, modify_run]

/-- A replacement that starts before the end of the text. -/
theorem replaceCharacters_spec {infoArray : List (GSTextInfo D)}
    (blank : CachedDictionary D) {range : NSRange} (aString : Option (List UInt16))
    (h : RunInvariant infoArray textChars.length)
    (ha : Accounts cache (refsOf infoArray + others)) (hm : range.max ≤ textChars.length)
    (hl : range.location < textChars.length) : ∃ cache' infoArray',
      replaceCharactersInRange blank range aString ⟨cache, infoArray, textChars⟩ =
        .ok () ⟨cache', infoArray', textChars.take range.location ++ aString.getD [] ++ textChars.drop range.max⟩ ∧
      Accounts cache' (refsOf infoArray' + others) ∧
      Replaced infoArray infoArray' textChars.length (aString.getD []).length (replacementStart range) range := by
  generalize hs : aString.getD [] = s
  have hsr : replacementStart range ≤ range.location := by unfold replacementStart; split <;> omega
  unfold replaceCharactersInRange
  simp only [hs]
  rw [get_bind, bind_ok (rangeCheck_ok hm), if_neg (by simp only; omega), get_bind]
  obtain ⟨pre, run, post, rfl, hlo, hhi⟩ := h.split (show replacementStart range < textChars.length by omega)
  have hst := h.valueAt_of_mem_run hlo hhi
  have hlc : range.location ≤ endOfRun post textChars.length := by
    unfold replacementStart at hhi
    split at hhi <;> omega
  have hlf : ∀ k < range.location, valueAt (runsOf (pre ++ run :: post)) k =
      valueAt (runsOf (pre ++ [run])) k := fun k hk => h.valueAt_left (by omega)
  by_cases ho : (pre ++ run :: post).length = 1
  · -- one set of attributes for the whole text, before and after
    have hp : pre = [] := List.eq_nil_of_length_eq_zero (by simp at ho; omega)
    have hps : post = [] := by subst hp; simpa using ho
    subst hp hps
    have h0 := h.run_loc_eq_zero
    rw [if_pos ho]
    refine ⟨cache, [run], rfl, ha, ⟨by simp [h0], by simp, by simp⟩, fun k _ => ?_⟩
    have hv : ∀ j, valueAt (runsOf [run]) j = some run.attrs.contents := fun j => by
      rw [runsOf_cons, runsOf_nil, valueAt_singleton, if_pos (by omega)]
    simp only [List.nil_append, hv, ite_self]
  · rw [if_neg ho, bind_ok (lookupM_run (attributesAtIndexEffectiveRange_eq h hlo hhi))]
    simp only
    -- the trimming step, taken or not
    obtain ⟨cache2, post2, hr2, ht, ha2, hhi2⟩ : ∃ cache2 post2,
        trimReplaced ⟨run.loc, endOfRun post textChars.length - run.loc⟩ range (pre.length + 1)
            (pre ++ run :: post).length ⟨cache, pre ++ run :: post, textChars⟩ =
          .ok (pre ++ run :: post2).length ⟨cache2, pre ++ run :: post2, textChars⟩ ∧
        Trimmed (pre ++ run :: post) textChars.length range pre run post2 ∧
        Accounts cache2 (refsOf (pre ++ run :: post2) + others) ∧
        replacementStart range < endOfRun post2 textChars.length := by
      have heff : NSRange.max ⟨run.loc, endOfRun post textChars.length - run.loc⟩ = endOfRun post textChars.length := by
        unfold NSRange.max; simp only; omega
      unfold trimReplaced
      rw [heff]
      by_cases ht : endOfRun post textChars.length < range.max
      · rw [if_pos ht]
        obtain ⟨cache2, post2, h1, h2, h3⟩ := trimEnclosed_spec h ha (by omega) ht hm
        exact ⟨cache2, post2, h1, h2, h3, Nat.lt_of_lt_of_le (by omega) h2.max_le⟩
      · rw [if_neg ht]
        exact ⟨cache, post, rfl, trimmed_self h (by unfold NSRange.max; omega) (by omega), ha, hhi⟩
    rw [bind_ok hr2]
    unfold removeEmptied
    by_cases he : ((s.length : Int) - range.length) + range.length = 0
    · have hs0 : s.length = 0 := by omega
      obtain ⟨cache3, front, moved, size, hr3, hc, ha3⟩ := removeExact_spec blank ht.invariant ha2 hlo hhi2
      rw [if_pos he, bind_ok hr3]
      simp only
      rw [bind_ok (moveFollowing_run _ _ _ _)]
      refine ⟨cache3, _, rfl, ?_, ?_⟩
      · have hrf : ∀ l : List (GSTextInfo D), refsOf (l.map fun info =>
            { info with loc := movedLoc range s.length info.loc }) = refsOf l := fun l => by
          simp [refsOf, Function.comp_def]
        rw [refsOf_append, hrf, ← refsOf_append, List.take_append_drop]
        exact ha3
      · rw [hs0]
        cases hc with
        | kept hk =>
          have := replaced_kept (n := 0) ht hm (by omega) (fun h1 _ h2 => hk ⟨h1, h2⟩)
            hst hlf
          simpa [movedRuns, List.take_append, List.take_of_length_le] using this
        | dropped h1 h2 h3 => simpa [movedRuns] using replaced_dropped ht hm h1 h2 h3 hst hlf
        | blanked d h1 h2 h3 h4 =>
          subst h3 h4
          simpa [movedRuns] using replaced_blanked ht d h1 h2
    · have hs0 : s.length ≠ 0 := by omega
      rw [if_neg he, bind_ok (pure_run _)]
      simp only
      rw [bind_ok (moveFollowing_run _ _ _ _)]
      have hass : pre ++ run :: post2 = (pre ++ [run]) ++ post2 := by simp
      refine ⟨cache2, pre ++ [run] ++ movedRuns range s.length post2, ?_, ?_, ?_⟩
      · show EStateM.Result.ok _ _ = _
        simp only [hass]
        rw [List.take_left' (by simp), List.drop_left' (by simp)]
        rfl
      · have hrf : refsOf (movedRuns range s.length post2) = refsOf post2 := by
          simp [refsOf, movedRuns, Function.comp_def]
        rw [refsOf_append, hrf, ← refsOf_append, ← hass]
        exact ha2
      · exact replaced_kept ht hm (by omega) (fun _ h0 _ => hs0 h0) hst hlf

end GnustepGui.TextStorage
