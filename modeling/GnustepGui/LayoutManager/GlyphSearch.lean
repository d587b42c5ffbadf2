import GnustepGui.LayoutManager.Scanning

/-!
# The glyph of a character

`_glyphForCharacter:index:positions:` finds the run of a character, and in it the first glyph of the last character up
to this one that has glyphs. Glyphs of one character may be many and characters may have none, so the binary search
ends near it only and two loops go back from there.
-/

namespace GnustepGui.LayoutManager

open SkipLists Clusters

namespace GSLayoutManager

/-! ## In a run -/

section

variable {glyphs : List Glyph} {target : Nat}

variable (glyphs) in
theorem offsetAt_eq {i : Nat} (hi : i < glyphs.length) :
    ∃ o, offsetAt glyphs i = .ok o ∧ (glyphs.map Glyph.charOffset)[i]? = some o := by
  refine ⟨glyphs[i].charOffset, ?_, ?_⟩
  · rw [offsetAt, if_pos (Int.natCast_nonneg i), Int.toNat_natCast, List.getElem?_eq_getElem hi]
  · rw [List.getElem?_map, List.getElem?_eq_getElem hi, Option.map_some]

/-- What the binary search knows about the glyph it ends at. -/
def Near (glyphs : List Glyph) (target i : Nat) : Prop :=
  (glyphs.map Glyph.charOffset)[i]? = some target ∨
    ∀ k o, i < k → (glyphs.map Glyph.charOffset)[k]? = some o → target < o

variable (hsorted : (glyphs.map Glyph.charOffset).Pairwise (· ≤ ·))
include hsorted

theorem bisect_spec (target : Nat) (lo hi : Int) (hlo : 0 ≤ lo) (hle : lo ≤ hi + 1) (hlt : lo < glyphs.length)
    (hhi : hi < glyphs.length) (ha : ∀ k : Nat, ∀ o, hi < k → (glyphs.map Glyph.charOffset)[k]? = some o → target < o) :
    ∃ i : Nat, bisect glyphs target lo hi = .ok ↑i ∧ i < glyphs.length ∧ Near glyphs target i := by
  fun_induction bisect glyphs target lo hi with
  | case1 lo hi hmr fault hat =>
    obtain ⟨mid, hm⟩ := Int.eq_ofNat_of_zero_le (by omega : 0 ≤ (lo + hi) / 2)
    obtain ⟨o, ho, -⟩ := offsetAt_eq glyphs (i := mid) (by omega)
    rw [hm, ho] at hat
    cases hat
  | case2 lo hi hmr offset hat hb ih =>
    obtain ⟨mid, hm⟩ := Int.eq_ofNat_of_zero_le (by omega : 0 ≤ (lo + hi) / 2)
    obtain ⟨o, ho, hg⟩ := offsetAt_eq glyphs (i := mid) (by omega)
    rw [hm] at hat ih ⊢
    obtain rfl := Except.ok.inj (hat.symm.trans ho)
    refine ih hlo (by omega) hlt (by omega) fun k o hk hgt => ?_
    exact Nat.lt_of_lt_of_le hb (le_of_getElem hsorted (by omega : mid ≤ k) hg hgt)
  | case3 lo hi hmr offset hat hn hbef ih =>
    exact ih (by omega) (by omega) (by omega) hhi ha
  | case4 lo hi hmr offset hat hn hn' =>
    obtain ⟨mid, hm⟩ := Int.eq_ofNat_of_zero_le (by omega : 0 ≤ (lo + hi) / 2)
    obtain ⟨o, ho, hg⟩ := offsetAt_eq glyphs (i := mid) (by omega)
    rw [hm] at hat ⊢
    obtain rfl := Except.ok.inj (hat.symm.trans ho)
    obtain rfl : offset = target := by omega
    exact ⟨mid, rfl, by omega, .inl hg⟩
  | case5 lo hi hd =>
    obtain ⟨i, rfl⟩ := Int.eq_ofNat_of_zero_le hlo
    exact ⟨i, rfl, by omega, .inr fun k o hk hg => ha k o (by omega) hg⟩

theorem isFloor_of_near {i o : Nat} (hn : Near glyphs target i) (hg : (glyphs.map Glyph.charOffset)[i]? = some o)
    (ho : o ≤ target) : IsFloor (glyphs.map Glyph.charOffset) target o := by
  obtain hs | ha := hn
  · obtain rfl := Option.some.inj (hs.symm.trans hg)
    exact isFloor_self (List.mem_of_getElem? hg)
  · refine isFloor_of_getElem hsorted hg (Clusters.rank_eq hsorted (List.getElem?_eq_some_iff.mp hg).1 ?_ ?_)
    · intro k p hk hgt
      exact Nat.lt_succ_of_le (Nat.le_trans (le_of_getElem hsorted (Nat.le_of_lt_succ hk) hgt hg) ho)
    · exact fun p hgp => ha _ p (Nat.lt_succ_self i) hgp

theorem stepToTarget_spec (hh : ∀ o ∈ (glyphs.map Glyph.charOffset).head?, o = 0) {i : Nat} (hi : i < glyphs.length)
    (hn : Near glyphs target i) :
    ∃ j o, stepToTarget glyphs target i = .ok j ∧ j < glyphs.length ∧ (glyphs.map Glyph.charOffset)[j]? = some o ∧
      IsFloor (glyphs.map Glyph.charOffset) target o := by
  induction i with
  | zero =>
    obtain ⟨o, ho, hg⟩ := offsetAt_eq glyphs hi
    have hz : o = 0 := hh o (by rw [List.head?_eq_getElem?]; exact hg)
    refine ⟨0, o, ?_, hi, hg, isFloor_of_near hsorted hn hg (by omega)⟩
    rw [stepToTarget]
    show (offsetAt glyphs ((0 : Nat) : Int)).bind _ = _
    rw [ho]
    exact if_neg (by omega)
  | succ i ih =>
    obtain ⟨o, ho, hg⟩ := offsetAt_eq glyphs hi
    rw [stepToTarget, ho]
    show ∃ j o', (if target < o then stepToTarget glyphs target i else .ok (i + 1)) = .ok j ∧ _
    by_cases hb : target < o
    · rw [if_pos hb]
      refine ih (by omega) (.inr fun k o' hk hgt => ?_)
      exact Nat.lt_of_lt_of_le hb (le_of_getElem hsorted hk hg hgt)
    · rw [if_neg hb]
      exact ⟨i + 1, o, rfl, hi, hg, isFloor_of_near hsorted hn hg (Nat.le_of_not_lt hb)⟩

theorem stepToFirst_spec {i o : Nat} (hi : i < glyphs.length) (hg : (glyphs.map Glyph.charOffset)[i]? = some o) :
    stepToFirst glyphs i = .ok (rank (glyphs.map Glyph.charOffset) o) := by
  induction i with
  | zero =>
    have hz : ¬ 0 < rank (glyphs.map Glyph.charOffset) o := by
      rw [lt_rank_iff hsorted hg]
      exact Nat.lt_irrefl o
    rw [Nat.eq_zero_of_not_pos hz]
    rfl
  | succ i ih =>
    obtain ⟨o', ho', hg'⟩ := offsetAt_eq glyphs (i := i) (by omega)
    obtain ⟨o'', ho'', hg''⟩ := offsetAt_eq glyphs hi
    obtain rfl := Option.some.inj (hg.symm.trans hg'')
    rw [stepToFirst, ho', ho'']
    show (if o' = o then stepToFirst glyphs i else .ok (i + 1)) = _
    by_cases hs : o' = o
    · rw [if_pos hs]
      exact ih (by omega) (hs ▸ hg')
    · rw [if_neg hs]
      have hle := le_of_getElem hsorted (Nat.le_succ i) hg' hg
      have hl : i + 1 ≤ (glyphs.map Glyph.charOffset).length := by
        rw [List.length_map]
        omega
      refine congrArg Except.ok (Clusters.rank_eq hsorted hl ?_ ?_).symm
      · intro k p hk hgt
        have := le_of_getElem hsorted (Nat.le_of_lt_succ hk) hgt hg'
        omega
      · exact fun p hgp => Nat.le_of_eq (Option.some.inj (hg.symm.trans hgp))

theorem glyphIndexFor_spec (target : Nat) (hh : ∀ o ∈ (glyphs.map Glyph.charOffset).head?, o = 0) (hne : glyphs ≠ []) :
    ∃ o, glyphIndexFor glyphs glyphs.length target = .ok (rank (glyphs.map Glyph.charOffset) o) ∧
      IsFloor (glyphs.map Glyph.charOffset) target o := by
  have hp := List.length_pos_iff.mpr hne
  obtain ⟨i, hb, hi, hn⟩ := bisect_spec hsorted target 0 (glyphs.length - 1) (Int.le_refl 0) (by omega)
    (by omega) (by omega) fun k o hk hg => by
      have := (List.getElem?_eq_some_iff.mp hg).1
      rw [List.length_map] at this
      omega
  obtain ⟨j, o, hs, hj, hg, hf⟩ := stepToTarget_spec hsorted hh hi hn
  refine ⟨o, ?_, hf⟩
  rw [glyphIndexFor, hb]
  show (stepToTarget glyphs target (i : Int).toNat).bind _ = _
  rw [Int.toNat_natCast, hs]
  exact stepToFirst_spec hsorted hj hg

end

end GSLayoutManager

end GnustepGui.LayoutManager
