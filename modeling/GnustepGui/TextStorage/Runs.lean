import GnustepGui.TextStorage.Storage
import GnustepGui.Library.RunMap

/-!
# The run invariant and the binary search

`RunInvariant infoArray len` is what `_sanity` asserts of a storage with `len` characters. Under it
an index below `len` lies in exactly one run (`RunInvariant.split`), and the search returns that run
(`attributesAtIndexEffectiveRange_eq`) within its fuel, at every index up to the end of the text
(`RunInvariant.lookup_ok`).
-/

namespace GnustepGui.TextStorage

variable {D : Type}

/-- The checks of `_sanity`. -/
structure RunInvariant (infoArray : List (GSTextInfo D)) (len : Nat) : Prop where
  first : infoArray.head?.map (·.loc) = some 0
  increasing : infoArray.Pairwise fun a b => a.loc < b.loc
  inside : ∀ info ∈ infoArray.tail, info.loc < len

/-- Where a run ends that is followed by `post`. -/
def endOfRun (post : List (GSTextInfo D)) (len : Nat) : Nat := (post.head?.map (·.loc)).getD len

@[simp] theorem endOfRun_nil (len : Nat) : endOfRun ([] : List (GSTextInfo D)) len = len := rfl

@[simp] theorem endOfRun_cons (info : GSTextInfo D) (post : List (GSTextInfo D)) (len : Nat) :
    endOfRun (info :: post) len = info.loc := rfl

namespace RunInvariant

variable {infoArray : List (GSTextInfo D)} {len : Nat}

theorem ne_nil (h : RunInvariant infoArray len) : infoArray ≠ [] := by
  rintro rfl
  simpa using h.first

theorem iff_loc : RunInvariant infoArray len ↔ infoArray.head?.map (·.loc) = some 0 ∧
    infoArray.Pairwise (fun a b => a.loc < b.loc) ∧ ∀ info ∈ infoArray, 0 < info.loc → info.loc < len := by
  constructor
  · intro h
    refine ⟨h.first, h.increasing, fun info hi hpos => ?_⟩
    have hf := h.first
    cases infoArray with
    | nil => simp at hi
    | cons a rest =>
      rcases List.mem_cons.mp hi with rfl | hi
      · simp at hf; omega
      · exact h.inside info hi
  · rintro ⟨hf, hp, hin⟩
    refine ⟨hf, hp, fun info hi => ?_⟩
    cases infoArray with
    | nil => simp at hi
    | cons a rest =>
      have := (List.pairwise_cons.mp hp).1 info hi
      exact hin info (List.mem_cons_of_mem _ hi) (by omega)

theorem lt_len (h : RunInvariant infoArray len) {info : GSTextInfo D} (hi : info ∈ infoArray)
    (hp : 0 < info.loc) : info.loc < len := (iff_loc.mp h).2.2 info hi hp

variable {pre post : List (GSTextInfo D)} {run : GSTextInfo D}

theorem pre_lt (h : RunInvariant (pre ++ run :: post) len) {a : GSTextInfo D} (ha : a ∈ pre) : a.loc < run.loc :=
  (List.pairwise_append.mp h.increasing).2.2 a ha run List.mem_cons_self

theorem lt_post (h : RunInvariant (pre ++ run :: post) len) {b : GSTextInfo D} (hb : b ∈ post) : run.loc < b.loc :=
  (List.pairwise_cons.mp (List.pairwise_append.mp h.increasing).2.1).1 b hb

theorem run_loc_eq_zero (h : RunInvariant (run :: post) len) : run.loc = 0 := by
  simpa using h.first

theorem endOfRun_le (h : RunInvariant (pre ++ run :: post) len) {b : GSTextInfo D}
    (hb : b ∈ post) : endOfRun post len ≤ b.loc := by
  cases post with
  | nil => simp at hb
  | cons a rest =>
    rw [endOfRun_cons]
    rcases List.mem_cons.mp hb with rfl | hb
    · exact Nat.le_refl _
    · have hp := (List.pairwise_cons.mp (List.pairwise_append.mp h.increasing).2.1).2
      exact Nat.le_of_lt ((List.pairwise_cons.mp hp).1 b hb)

theorem endOfRun_le_len (h : RunInvariant (pre ++ run :: post) len) : endOfRun post len ≤ len := by
  cases post with
  | nil => simp
  | cons a rest =>
    have hlt := h.lt_post (List.mem_cons_self (a := a) (l := rest))
    have hlt : a.loc < len := h.lt_len (by simp) (by omega)
    exact Nat.le_of_lt hlt

/-- Every index lies in a run: the last one that does not start after it. -/
theorem split (h : RunInvariant infoArray len) {index : Nat} (hi : index < len) :
    ∃ pre run post, infoArray = pre ++ run :: post ∧ run.loc ≤ index ∧ index < endOfRun post len := by
  suffices hs : ∀ l : List (GSTextInfo D), l ≠ [] → (∀ a, l.head? = some a → a.loc ≤ index) →
      ∃ pre run post, l = pre ++ run :: post ∧ run.loc ≤ index ∧ index < endOfRun post len by
    apply hs infoArray h.ne_nil
    intro a ha
    have := h.first
    rw [ha] at this
    simp at this
    omega
  intro l
  induction l with
  | nil => intro hne; exact absurd rfl hne
  | cons a rest ih =>
    intro _ hh
    have ha : a.loc ≤ index := hh a rfl
    cases rest with
    | nil => exact ⟨[], a, [], rfl, ha, by simpa using hi⟩
    | cons b rest =>
      by_cases hb : b.loc ≤ index
      · obtain ⟨pre, run, post, he, h1, h2⟩ := ih (by simp) (fun x hx => by
          simp at hx; subst hx; exact hb)
        exact ⟨a :: pre, run, post, by rw [he]; rfl, h1, h2⟩
      · exact ⟨[], a, b :: rest, rfl, ha, by rw [endOfRun_cons]; omega⟩

end RunInvariant

/-! ## The search -/

section Search

variable {pre post : List (GSTextInfo D)} {run : GSTextInfo D} {len index : Nat}

theorem nextLocation_eq (cnt : Nat) (hc : cnt < (pre ++ run :: post).length) :
    nextLocation (pre ++ run :: post) len cnt = .ok (endOfRun ((pre ++ run :: post).drop (cnt + 1)) len) := by
  unfold nextLocation
  split
  · next hle =>
    rw [List.drop_eq_nil_of_le (by omega), endOfRun_nil]
  · next hlt =>
    have hc' : cnt + 1 < (pre ++ run :: post).length := by omega
    rw [List.getElem?_eq_getElem hc', List.drop_eq_getElem_cons hc', endOfRun_cons]

theorem searchRun_eq (h : RunInvariant (pre ++ run :: post) len) (hlo : run.loc ≤ index)
    (hhi : index < endOfRun post len) : ∀ fuel low high, low ≤ pre.length → pre.length ≤ high →
      high < (pre ++ run :: post).length → high - low < fuel → searchRun (pre ++ run :: post) len index fuel low high =
        .ok (run.attrs, ⟨run.loc, endOfRun post len - run.loc⟩, pre.length) := by
  have hs := List.pairwise_iff_getElem.mp h.increasing
  have hp : pre.length < (pre ++ run :: post).length := by simp
  have ha : (pre ++ run :: post)[pre.length] = run := by simp
  intro fuel
  induction fuel with
  | zero => intro low high _ _ _ hf; omega
  | succ fuel ih =>
    intro low high hl hh hu hf
    have hc : (low + high) / 2 < (pre ++ run :: post).length := by omega
    unfold searchRun
    rw [if_pos (by omega)]
    simp only
    rw [List.getElem?_eq_getElem hc]
    simp only
    rcases Nat.lt_trichotomy ((low + high) / 2) pre.length with hlt | heq | hgt
    · -- the run found starts and ends before the one wanted
      have h1 := hs _ _ hc (by simp) hlt
      rw [ha] at h1
      have hn : endOfRun ((pre ++ run :: post).drop ((low + high) / 2 + 1)) len ≤ run.loc := by
        have hc' : (low + high) / 2 + 1 < (pre ++ run :: post).length := by simp; omega
        rw [List.drop_eq_getElem_cons hc', endOfRun_cons]
        rcases Nat.eq_or_lt_of_le (Nat.succ_le_of_lt hlt) with he | hlt'
        · have : (pre ++ run :: post)[(low + high) / 2 + 1] = run := by
            simp only [Nat.succ_eq_add_one] at he
            simp only [he, ha]
          rw [this]
        · have := hs _ _ hc' (by simp) hlt'
          rw [ha] at this
          omega
      rw [if_neg (by omega), nextLocation_eq _ hc]
      simp only [bind, Except.bind]
      rw [if_neg (by omega)]
      exact ih _ _ (by omega) hh hu (by omega)
    · have hfnd : (pre ++ run :: post)[(low + high) / 2] = run := by simp [heq]
      rw [hfnd, if_neg (by omega), nextLocation_eq _ hc]
      have hd : (pre ++ run :: post).drop ((low + high) / 2 + 1) = post := by rw [heq]; simp
      simp only [bind, Except.bind, pure, Except.pure, hd]
      rw [if_pos (Or.inr hhi), heq]
    · have hmem : (pre ++ run :: post)[(low + high) / 2] ∈ post := by
        rw [List.getElem_append_right (by omega)]
        obtain ⟨m, hm⟩ : ∃ m, (low + high) / 2 - pre.length = m + 1 := ⟨(low + high) / 2 - pre.length - 1, by omega⟩
        simp only [hm, List.getElem_cons_succ]
        exact List.getElem_mem _
      have := h.endOfRun_le hmem
      rw [if_pos (by omega)]
      have hpr : unsignedPred ((low + high) / 2) = (low + high) / 2 - 1 := by
        unfold unsignedPred
        rw [if_neg (by omega)]
      rw [hpr]
      exact ih _ _ hl (by omega) (by omega) (by omega)

theorem attributesAtIndexEffectiveRange_eq (h : RunInvariant (pre ++ run :: post) len)
    (hlo : run.loc ≤ index) (hhi : index < endOfRun post len) :
    attributesAtIndexEffectiveRange index len (pre ++ run :: post) =
      .ok (run.attrs, ⟨run.loc, endOfRun post len - run.loc⟩, pre.length) := by
  have := h.endOfRun_le_len
  unfold attributesAtIndexEffectiveRange
  simp only
  rw [if_neg (by simp), if_neg (by omega)]
  exact searchRun_eq h hlo hhi _ _ _ (Nat.zero_le _) (by simp) (by simp) (by omega)

theorem attributesAtIndexEffectiveRange_end (pre : List (GSTextInfo D)) (run : GSTextInfo D)
    (len : Nat) : attributesAtIndexEffectiveRange len len (pre ++ [run]) =
      .ok (run.attrs, ⟨run.loc, len - run.loc⟩, pre.length) := by
  unfold attributesAtIndexEffectiveRange
  simp

theorem RunInvariant.lookup_ok {infoArray : List (GSTextInfo D)} (h : RunInvariant infoArray len)
    (hi : index ≤ len) : ∃ r, attributesAtIndexEffectiveRange index len infoArray = .ok r := by
  rcases Nat.lt_or_eq_of_le hi with hlt | rfl
  · obtain ⟨pre, run, post, rfl, h1, h2⟩ := h.split hlt
    exact ⟨_, attributesAtIndexEffectiveRange_eq h h1 h2⟩
  · obtain ⟨pre, run, rfl⟩ : ∃ pre run, infoArray = pre ++ [run] := ⟨_, _, (List.dropLast_append_getLast h.ne_nil).symm⟩
    exact ⟨_, attributesAtIndexEffectiveRange_end pre run _⟩

end Search

end GnustepGui.TextStorage
