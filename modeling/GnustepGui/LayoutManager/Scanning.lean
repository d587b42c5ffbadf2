import GnustepGui.LayoutManager.Places

/-!
# Scans over the glyphs

A position stands at a glyph, by its index among all glyphs. A step leaves it at the next one, past the runs without
glyphs, and a scan ends at the first glyph for which its condition does not hold, or behind the last one.
-/

namespace GnustepGui.LayoutManager

open SkipLists Clusters

namespace GSLayoutManager

/-- A position has the indexes of its run. -/
structure Stands (m : GSLayoutManager) (p : Position) : Prop where
  run_lt : p.run < m.runs.length
  pos_eq : p.pos = before GlyphRun.glyphLength m.runs p.run
  cpos_eq : p.cpos = before GlyphRun.charLength m.runs p.run

variable {m : GSLayoutManager} {length : Nat}

theorem Stands.run {p : Position} (hp : m.Stands p) : ∃ r, m.runs[p.run]? = some r :=
  ⟨_, List.getElem?_eq_getElem hp.run_lt⟩

theorem glyphLengthOf_eq {run : Nat} {r : GlyphRun} (hr : m.runs[run]? = some r) :
    m.glyphLengthOf run = r.glyphLength := by
  rw [glyphLengthOf, hr]
  rfl

theorem charLengthOf_eq {run : Nat} {r : GlyphRun} (hr : m.runs[run]? = some r) :
    m.charLengthOf run = r.charLength := by
  rw [charLengthOf, hr]
  rfl

theorem before_succ_of {run : Nat} (hr : run < m.runs.length) :
    before GlyphRun.glyphLength m.runs (run + 1) = before GlyphRun.glyphLength m.runs run + m.glyphLengthOf run ∧
      before GlyphRun.charLength m.runs (run + 1) = before GlyphRun.charLength m.runs run + m.charLengthOf run := by
  have hg := List.getElem?_eq_getElem hr
  rw [glyphLengthOf_eq hg, charLengthOf_eq hg]
  exact ⟨before_succ _ hg, before_succ _ hg⟩

namespace FullyGenerated

variable (hm : m.FullyGenerated length)
include hm

variable {p : Position}

/-- The glyph at a position is read, and is the one of its index. -/
theorem characterAt_eq (hp : m.Stands p) (hi : p.i < m.glyphLengthOf p.run) :
    ∃ c, m.characterAt p.run p.i p.cpos = .ok c ∧ m.places[p.i + p.pos]? = some c := by
  obtain ⟨r, hr⟩ := hp.run
  rw [glyphLengthOf_eq hr] at hi
  have hn := hm.nominal r (List.mem_of_getElem? hr)
  have hplc := hm.getElem_run hr hi
  have hlt : p.i < r.offsets.length := by rw [hn.length_eq]; exact hi
  cases hg : r.glyphs with
  | none =>
    rw [GlyphRun.offsets_of_none hg] at hlt
    exact absurd hlt (Nat.not_lt_zero _)
  | some glyphs =>
    rw [GlyphRun.offsets_of_glyphs hg] at hlt hplc
    rw [List.length_map] at hlt
    rw [List.getElem?_map, List.getElem?_eq_getElem hlt, Option.map_some, Option.map_some] at hplc
    refine ⟨glyphs[p.i].charOffset + p.cpos, ?_, ?_⟩
    · rw [characterAt, hr, Option.bind_some, hg, Option.bind_some, List.getElem?_eq_getElem hlt]
    · rw [Nat.add_comm p.i, hp.pos_eq, hp.cpos_eq]
      exact hplc

/-! ## Forwards -/

theorem atEnd (hp : m.Stands p) (hi : p.i = m.glyphLengthOf p.run) (hl : p.run + 1 = m.runs.length) :
    p.i + p.pos = m.places.length ∧ p.cpos + m.charLengthOf p.run = length := by
  obtain ⟨hg, hc⟩ := before_succ_of hp.run_lt
  rw [hl, ← hp.pos_eq] at hg
  rw [hl, ← hp.cpos_eq] at hc
  rw [hm.length_places, hm.length_eq, hg, hc, hi]
  exact ⟨Nat.add_comm _ _, rfl⟩

theorem last_of_no_next {run : Nat} (hr : run < m.runs.length)
    (hn : (m.runs[run + 1]?).elim true (fun next => !next.head.complete) = true) : run + 1 = m.runs.length := by
  by_contra hne
  have hlt : run + 1 < m.runs.length := by omega
  have hg := List.getElem?_eq_getElem hlt
  rw [hg, Option.elim_some, hm.complete _ (List.mem_of_getElem? hg)] at hn
  cases hn

theorem nextGlyph_spec {run i pos cpos : Nat} (hp : m.Stands ⟨run, i, pos, cpos⟩) (hi : i ≤ m.glyphLengthOf run) :
    ∃ p, m.nextGlyph length run i pos cpos = .ok p ∧ m.Stands p ∧ p.i + p.pos = i + pos ∧
      (p.i < m.glyphLengthOf p.run ∨ p.i = m.glyphLengthOf p.run ∧ p.run + 1 = m.runs.length) := by
  fun_induction nextGlyph m length run i pos cpos with
  | case1 run i pos cpos he hls hl =>
    exact ⟨_, rfl, hp, rfl, .inr ⟨he.2, hm.last_of_no_next he.1 hls⟩⟩
  | case2 run i pos cpos he hls hl =>
    -- the last run ends where the text ends
    exact absurd (hm.atEnd hp he.2 (hm.last_of_no_next he.1 hls)).2 hl
  | case3 run i pos cpos he hnx ih =>
    have hlt : run + 1 < m.runs.length := by
      by_contra hle
      rw [List.getElem?_eq_none (Nat.le_of_not_lt hle)] at hnx
      exact hnx rfl
    obtain ⟨hg, hc⟩ := before_succ_of he.1
    obtain ⟨p, hn, hs, hsum, ha⟩ := ih
      ⟨hlt, by rw [hg, ← hp.pos_eq], by rw [hc, ← hp.cpos_eq]⟩ (Nat.zero_le _)
    exact ⟨p, hn, hs, by rw [hsum, he.2]; omega, ha⟩
  | case4 run i pos cpos hin =>
    refine ⟨_, rfl, hp, rfl, .inl (Nat.lt_of_le_of_ne hi fun heq => hin ⟨hp.run_lt, heq⟩)⟩

theorem stepForward_spec (hp : m.Stands p) (hi : p.i < m.glyphLengthOf p.run) :
    ∃ p', m.stepForward length p = .ok p' ∧ m.Stands p' ∧ p'.i + p'.pos = p.i + 1 + p.pos ∧
      (p'.i < m.glyphLengthOf p'.run ∨ p'.i = m.glyphLengthOf p'.run ∧ p'.run + 1 = m.runs.length) :=
  hm.nextGlyph_spec ⟨hp.run_lt, hp.pos_eq, hp.cpos_eq⟩ hi

/-- Where a scan forwards with a condition ends. -/
structure ScansTo (m : GSLayoutManager) (condition : Nat → Bool) (p p' : Position) : Prop where
  stands : m.Stands p'
  le : p.i + p.pos ≤ p'.i + p'.pos
  holds : ∀ k c, p.i + p.pos ≤ k → k < p'.i + p'.pos → m.places[k]? = some c → condition c = true
  ends : (p'.i = m.glyphLengthOf p'.run ∧ p'.run + 1 = m.runs.length) ∨
    (p'.i < m.glyphLengthOf p'.run ∧ ∀ c, m.places[p'.i + p'.pos]? = some c → condition c = false)

theorem scanForward_spec (condition : Nat → Bool) (hp : m.Stands p) (hi : p.i < m.glyphLengthOf p.run) :
    ∃ p', m.scanForward length condition p = .ok p' ∧ ScansTo m condition p p' := by
  fun_induction scanForward m length condition p with
  | case1 p fault ha =>
    obtain ⟨c, hc, -⟩ := hm.characterAt_eq hp hi
    rw [ha] at hc
    cases hc
  | case2 p c ha hcn fault hst =>
    obtain ⟨p', hn, -⟩ := hm.stepForward_spec hp hi
    rw [hn] at hst
    cases hst
  | case3 p c ha hcn p' hst he =>
    obtain ⟨c', hc', hplc⟩ := hm.characterAt_eq hp hi
    obtain rfl := Except.ok.inj (ha.symm.trans hc')
    obtain ⟨p'', hn, hs, hsum, hen⟩ := hm.stepForward_spec hp hi
    obtain rfl := Except.ok.inj (hst.symm.trans hn)
    refine ⟨p', rfl, hs, by omega, fun k c' hle hlt hg => ?_, .inl ?_⟩
    · obtain rfl : k = p.i + p.pos := by omega
      obtain rfl := Option.some.inj (hplc.symm.trans hg)
      exact hcn
    · exact hen.resolve_left fun hlt => Nat.ne_of_lt hlt he
  | case4 p c ha hcn p' hst hin ih =>
    obtain ⟨c', hc', hplc⟩ := hm.characterAt_eq hp hi
    obtain rfl := Except.ok.inj (ha.symm.trans hc')
    obtain ⟨p'', hn, hs, hsum, hen⟩ := hm.stepForward_spec hp hi
    obtain rfl := Except.ok.inj (hst.symm.trans hn)
    obtain ⟨last, hsc, ht⟩ := ih hs (hen.resolve_right fun h => hin h.1)
    have hle := ht.le
    refine ⟨last, hsc, ht.stands, by omega, fun k c' hk hlt hg => ?_, ht.ends⟩
    by_cases hf : k = p.i + p.pos
    · subst hf
      obtain rfl := Option.some.inj (hplc.symm.trans hg)
      exact hcn
    · exact ht.holds k c' (by omega) hlt hg
  | case5 p c ha hcn =>
    obtain ⟨c', hc', hplc⟩ := hm.characterAt_eq hp hi
    obtain rfl := Except.ok.inj (ha.symm.trans hc')
    refine ⟨p, rfl, hp, Nat.le_refl _, fun k c' hle hlt => absurd hlt (Nat.not_lt.mpr hle), .inr ⟨hi, fun c' hg => ?_⟩⟩
    obtain rfl := Option.some.inj (hplc.symm.trans hg)
    exact eq_false_of_ne_true hcn

/-- A scan over the characters before one ends at the first glyph that is not before it. -/
theorem ScansTo.rank_eq {condition : Nat → Bool} {p p' : Position} (ht : ScansTo m condition p p') {x : Nat}
    (hb : ∀ k c, k < p.i + p.pos → m.places[k]? = some c → c < x)
    (hc : ∀ k c, p.i + p.pos ≤ k → m.places[k]? = some c → (condition c = true ↔ c < x)) :
    rank m.places x = p'.i + p'.pos := by
  have hlt : ∀ k c, k < p'.i + p'.pos → m.places[k]? = some c → c < x := by
    intro k c hk hg
    by_cases hs : k < p.i + p.pos
    · exact hb k c hs hg
    · exact (hc k c (Nat.le_of_not_lt hs) hg).mp (ht.holds k c (Nat.le_of_not_lt hs) hk hg)
  obtain ⟨hi, hl⟩ | ⟨hi, hf⟩ := ht.ends
  · have he := (hm.atEnd ht.stands hi hl).1
    refine Clusters.rank_eq hm.sorted (Nat.le_of_eq he) hlt fun c hg => ?_
    rw [he, List.getElem?_eq_none (Nat.le_refl _)] at hg
    cases hg
  · obtain ⟨c, -, hp⟩ := hm.characterAt_eq ht.stands hi
    refine Clusters.rank_eq hm.sorted (Nat.le_of_lt (List.getElem?_eq_some_iff.mp hp).1) hlt fun c' hg => ?_
    refine Nat.le_of_not_lt fun hx => ?_
    have htr := (hc _ c' ht.le hg).mpr hx
    rw [hf c' hg] at htr
    cases htr

theorem ScansTo.end_eq {condition : Nat → Bool} {p p' : Position} (ht : ScansTo m condition p p') {x : Nat}
    (hr : rank m.places x = p'.i + p'.pos) :
    (p'.i = m.glyphLengthOf p'.run ∧ p'.cpos + m.charLengthOf p'.run = length ∧ ceiling m.places length x = length) ∨
      (p'.i < m.glyphLengthOf p'.run ∧ m.characterAt p'.run p'.i p'.cpos = .ok (ceiling m.places length x)) := by
  obtain ⟨hi, hl⟩ | ⟨hi, -⟩ := ht.ends
  · obtain ⟨hs, hc⟩ := hm.atEnd ht.stands hi hl
    refine .inl ⟨hi, hc, ?_⟩
    rw [ceiling, hr, hs, List.getElem?_eq_none (Nat.le_refl _)]
    rfl
  · obtain ⟨c, ha, hp⟩ := hm.characterAt_eq ht.stands hi
    refine .inr ⟨hi, ?_⟩
    rw [ha, ceiling, hr, hp]
    rfl

/-! ## Backwards -/

omit hm in
theorem previousGlyph_spec {run i pos cpos : Nat} (hp : m.Stands ⟨run, i, pos, cpos⟩) (hi : i ≤ m.glyphLengthOf run) :
    ∃ p, m.previousGlyph run i pos cpos = p ∧ m.Stands p ∧ p.i + p.pos = i + pos ∧ p.i ≤ m.glyphLengthOf p.run ∧
      (p.i = 0 → p.pos = 0) := by
  fun_induction previousGlyph m run i pos cpos with
  | case1 i pos cpos => exact ⟨_, rfl, hp, rfl, hi, fun _ => hp.pos_eq⟩
  | case2 run pos cpos ih =>
    have hlt : run < m.runs.length := Nat.lt_of_succ_lt hp.run_lt
    obtain ⟨hg, hc⟩ := before_succ_of hlt
    have hpos : pos = before GlyphRun.glyphLength m.runs (run + 1) := hp.pos_eq
    have hcp : cpos = before GlyphRun.charLength m.runs (run + 1) := hp.cpos_eq
    obtain ⟨p, heq, hs, hsum, hle, hz⟩ := ih ⟨hlt, by simp only; omega, by simp only; omega⟩ (Nat.le_refl _)
    exact ⟨p, heq, hs, by omega, hle, hz⟩
  | case3 run i pos cpos => exact ⟨_, rfl, hp, rfl, hi, fun h => absurd h (Nat.succ_ne_zero i)⟩

omit hm in
theorem stepBackward_spec {i : Nat} (hp : m.Stands p) (hi : i ≤ m.glyphLengthOf p.run) :
    ∃ p', m.previousGlyph p.run i p.pos p.cpos = p' ∧ m.Stands p' ∧ p'.i + p'.pos = i + p.pos ∧
      p'.i ≤ m.glyphLengthOf p'.run ∧ (p'.i = 0 → p'.pos = 0) :=
  previousGlyph_spec ⟨hp.run_lt, hp.pos_eq, hp.cpos_eq⟩ hi

theorem scanBackward_spec (character : Nat) (hp : m.Stands p) (hi : p.i ≤ m.glyphLengthOf p.run)
    (hz : p.i = 0 → p.pos = 0) : ∃ k, m.scanBackward character p = .ok k ∧ k ≤ p.i + p.pos ∧
      (∀ j c, k ≤ j → j < p.i + p.pos → m.places[j]? = some c → c = character) ∧
      (∀ j c, j + 1 = k → m.places[j]? = some c → c ≠ character) := by
  fun_induction scanBackward m character p with
  | case1 p hpi =>
    refine ⟨p.pos, rfl, by omega, fun j c hle hlt => absurd hlt (by omega), fun j c hj => ?_⟩
    rw [hz hpi] at hj
    cases hj
  | case2 p i hpi hlt => omega
  | case3 p i hpi hle fault ha =>
    obtain ⟨c, hc, -⟩ := hm.characterAt_eq (p := ⟨p.run, i, p.pos, p.cpos⟩) ⟨hp.run_lt, hp.pos_eq, hp.cpos_eq⟩
      (by simp only; omega)
    rw [ha] at hc
    cases hc
  | case4 p i hpi hle ha ih =>
    obtain ⟨c, hc, hplc⟩ := hm.characterAt_eq (p := ⟨p.run, i, p.pos, p.cpos⟩) ⟨hp.run_lt, hp.pos_eq, hp.cpos_eq⟩
      (by simp only; omega)
    obtain rfl := Except.ok.inj (ha.symm.trans hc)
    obtain ⟨p', heq, hs, hsum, hle', hz'⟩ := stepBackward_spec hp (Nat.le_of_succ_le (Nat.le_of_not_lt hle))
    rw [heq] at ih ⊢
    obtain ⟨k, hsc, hk, hin, hb⟩ := ih hs hle' hz'
    refine ⟨k, hsc, by omega, fun j c hj hlt hg => ?_, hb⟩
    by_cases hl : j = i + p.pos
    · subst hl
      exact Option.some.inj (hg.symm.trans hplc)
    · exact hin j c hj (by omega) hg
  | case5 p i hpi hle c ha hne =>
    obtain ⟨c', hc', hplc⟩ := hm.characterAt_eq (p := ⟨p.run, i, p.pos, p.cpos⟩) ⟨hp.run_lt, hp.pos_eq, hp.cpos_eq⟩
      (by simp only; omega)
    obtain rfl := Except.ok.inj (ha.symm.trans hc')
    refine ⟨i + 1 + p.pos, rfl, by omega, fun j c' hle hlt => absurd hlt (by omega), fun j c' hj hg => ?_⟩
    obtain rfl : j = i + p.pos := by omega
    obtain rfl := Option.some.inj (hplc.symm.trans hg)
    exact hne

end FullyGenerated

end GSLayoutManager

end GnustepGui.LayoutManager
