import GnustepGui.LayoutManager.GlyphSearch

/-!
# What the range maps return

    glyphs [a, b)      ↦  [place of a, ceiling behind the place of b - 1)
    characters [a, b)  ↦  [floor of a, ceiling of b)

The second only where the runs of both ends have glyphs: in a run without, the range starts at the run, and ends at the
end of the text.
-/

namespace GnustepGui.LayoutManager

open SkipLists Clusters

namespace GSLayoutManager

variable {m m' m'' : GSLayoutManager} {length : Nat}

/-! ## The cached run -/

/-- Nothing but the cached run is different. -/
def Recached (m m' : GSLayoutManager) : Prop := ∃ cached, m' = { m with cached }

theorem Recached.refl (m : GSLayoutManager) : m.Recached m := ⟨m.cached, rfl⟩

theorem Recached.trans (h : m.Recached m') (h' : m'.Recached m'') : m.Recached m'' := by
  obtain ⟨cached, rfl⟩ := h
  obtain ⟨cached', rfl⟩ := h'
  exact ⟨cached', rfl⟩

theorem Recached.places (h : m.Recached m') : m'.places = m.places := by
  obtain ⟨cached, rfl⟩ := h
  rfl

theorem Recached.runs (h : m.Recached m') : m'.runs = m.runs := by
  obtain ⟨cached, rfl⟩ := h
  rfl

theorem FullyGenerated.recached (hm : m.FullyGenerated length) (h : m.Recached m') (hf : m'.CacheFits) :
    m'.FullyGenerated length := by
  obtain ⟨cached, rfl⟩ := h
  exact ⟨hm.wellFormed.cached cached, hf, hm.complete, hm.charLength, hm.nominal⟩

/-- A manager in which only the cached run is different, and has its own indexes. -/
structure Keeps (length : Nat) (m m' : GSLayoutManager) : Prop where
  recached : m.Recached m'
  generated : m'.FullyGenerated length

namespace FullyGenerated

variable (hm : m.FullyGenerated length)
include hm

theorem keeps_self : Keeps length m m := ⟨Recached.refl m, hm⟩

theorem runForGlyphIndex_keeps (glyphIndex : Nat) : Keeps length m (m.runForGlyphIndex glyphIndex).2 := by
  have h := lookUp_cached m (.glyph glyphIndex)
  exact ⟨h, hm.recached h (runForGlyphIndex_cacheFits hm.wellFormed hm.cacheFits glyphIndex)⟩

theorem runForCharacterIndex_keeps (charIndex : Nat) : Keeps length m (m.runForCharacterIndex charIndex).2 := by
  have h := lookUp_cached m (.character charIndex)
  exact ⟨h, hm.recached h (runForCharacterIndex_cacheFits hm.wellFormed hm.cacheFits charIndex)⟩

end FullyGenerated

theorem Keeps.trans (h : Keeps length m m') (h' : Keeps length m' m'') : Keeps length m m'' :=
  ⟨h.recached.trans h'.recached, h'.generated⟩

/-! ## From glyphs to characters -/

namespace FullyGenerated

variable (hm : m.FullyGenerated length)
include hm

variable {glyphIndex p : Nat}

/-- A glyph is found in its run. -/
theorem runForGlyphIndex_found (hp : m.places[glyphIndex]? = some p) :
    ∃ found m', m.runForGlyphIndex glyphIndex = (some found, m') ∧ Keeps length m m' ∧
      m'.Stands ⟨found.run, glyphIndex - found.pos, found.pos, found.cpos⟩ ∧
      glyphIndex - found.pos < m'.glyphLengthOf found.run ∧ glyphIndex - found.pos + found.pos = glyphIndex ∧
      m'.places[glyphIndex]? = some p := by
  have hlt := (List.getElem?_eq_some_iff.mp hp).1
  rw [hm.length_places] at hlt
  obtain ⟨run, hs⟩ := exists_scan hlt
  have hr := scan_lt hs
  have hle := scan_le hs
  have he := lt_of_scan hs
  rw [(before_succ_of hr).1] at he
  have hf : (m.runForGlyphIndex glyphIndex).1 = some (m.foundAt run) := by
    have ht : glyphIndex < m.top.glyphLength := by rw [hm.top_glyphLength_eq, hm.length_places]; exact hlt
    rw [runForGlyphIndex_eq hm.wellFormed hm.cacheFits ht, linearScan, hs]
    rfl
  have hk := hm.runForGlyphIndex_keeps glyphIndex
  refine ⟨m.foundAt run, (m.runForGlyphIndex glyphIndex).2, Prod.ext hf rfl, hk, ?_⟩
  generalize (m.runForGlyphIndex glyphIndex).2 = m' at hk ⊢
  obtain ⟨⟨cached, rfl⟩, -⟩ := hk
  exact ⟨⟨hr, rfl, rfl⟩, Nat.sub_lt_left_of_lt_add hle he, Nat.sub_add_cancel hle, hp⟩

theorem clusterStart_eq {found : Found} (hs : m.Stands ⟨found.run, glyphIndex - found.pos, found.pos, found.cpos⟩)
    (hi : glyphIndex - found.pos < m.glyphLengthOf found.run)
    (hidx : glyphIndex - found.pos + found.pos = glyphIndex) (hp : m.places[glyphIndex]? = some p) :
    m.clusterStart found glyphIndex = .ok (p, rank m.places p) := by
  obtain ⟨c, ha, hplc⟩ := hm.characterAt_eq hs hi
  simp only at ha hplc
  rw [hidx] at hplc
  obtain rfl := Option.some.inj (hp.symm.trans hplc)
  obtain ⟨k, hsc, hle, hin, hb⟩ := hm.scanBackward_spec p
    (p := ⟨found.run, glyphIndex - found.pos + 1, found.pos, found.cpos⟩)
    ⟨hs.run_lt, hs.pos_eq, hs.cpos_eq⟩ hi nofun
  simp only at hle hin
  have hr : rank m.places p = k := by
    have hl := (List.getElem?_eq_some_iff.mp hp).1
    refine Clusters.rank_eq hm.sorted (by omega) (fun i c hlt hg => ?_) fun c hg => ?_
    · -- the glyph before the first one is of an earlier character
      have hls := List.getElem?_eq_getElem (by omega : k - 1 < m.places.length)
      have hne := hb (k - 1) _ (by omega) hls
      have hup := le_of_getElem hm.sorted (by omega : i ≤ k - 1) hg hls
      have hd := le_of_getElem hm.sorted (by omega : k - 1 ≤ glyphIndex) hls hp
      omega
    · by_cases hk : k ≤ glyphIndex
      · exact Nat.le_of_eq (hin k c (Nat.le_refl k) (by omega) hg).symm
      · exact le_of_getElem hm.sorted (by omega) hp hg
  rw [clusterStart, if_neg (Nat.not_le.mpr hi), ha, hr]
  show (m.scanBackward p _).bind _ = _
  rw [hsc]
  rfl

theorem clusterEnd_eq {found : Found} (hs : m.Stands ⟨found.run, glyphIndex - found.pos, found.pos, found.cpos⟩)
    (hi : glyphIndex - found.pos < m.glyphLengthOf found.run)
    (hidx : glyphIndex - found.pos + found.pos = glyphIndex) (hp : m.places[glyphIndex]? = some p) :
    m.clusterEnd length found glyphIndex = .ok (ceiling m.places length (p + 1), rank m.places (p + 1)) := by
  obtain ⟨c, ha, hplc⟩ := hm.characterAt_eq hs hi
  simp only at ha hplc
  rw [hidx] at hplc
  obtain rfl := Option.some.inj (hp.symm.trans hplc)
  obtain ⟨p', hsc, hto⟩ := hm.scanForward_spec (· == p) hs hi
  have hr := hto.rank_eq hm (x := p + 1)
    (fun k c hlt hg => by
      have := le_of_getElem hm.sorted (by simp only at hlt; omega : k ≤ glyphIndex) hg hp
      omega)
    (fun k c hle hg => by
      have := le_of_getElem hm.sorted (by simp only at hle; omega : glyphIndex ≤ k) hp hg
      rw [beq_iff_eq]
      omega)
  rw [clusterEnd, if_neg (Nat.not_le.mpr hi), ha]
  show (m.scanForward length (· == p) _).bind _ = _
  rw [hsc, hr]
  show (if p'.i = m.glyphLengthOf p'.run then .ok (p'.cpos + m.charLengthOf p'.run, p'.i + p'.pos)
    else (m.characterAt p'.run p'.i p'.cpos).bind _) = _
  obtain ⟨he, hc, ht⟩ | ⟨hin, ha'⟩ := hto.end_eq hm hr
  · rw [if_pos he, hc, ht]
  · rw [if_neg (Nat.ne_of_lt hin), ha']
    rfl

theorem characterRange_eq {glyphRange : NSRange} {p q : Nat} (hpos : 0 < glyphRange.upper)
    (hp : m.places[glyphRange.location]? = some p) (hq : m.places[glyphRange.upper - 1]? = some q) :
    (m.characterRangeForGlyphRange length glyphRange).1 =
      .ok (⟨p, ceiling m.places length (q + 1) - p⟩, ⟨rank m.places p, rank m.places (q + 1) - rank m.places p⟩) := by
  have hu := (List.getElem?_eq_some_iff.mp hq).1
  obtain ⟨found, m', hf, hk, hs, hi, hidx, hp'⟩ := hm.runForGlyphIndex_found hp
  have hst := hk.generated.clusterStart_eq hs hi hidx hp'
  rw [← hk.recached.places] at hq
  obtain ⟨found', m'', hf', hk', hs', hi', hidx', hq'⟩ := hk.generated.runForGlyphIndex_found hq
  have he := hk'.generated.clusterEnd_eq hs' hi' hidx' hq'
  rw [hk'.recached.places] at he
  rw [characterRangeForGlyphRange, if_neg (Nat.ne_of_gt hpos), hm.top_glyphLength_eq, if_neg (Nat.not_le.mpr hu), hf]
  dsimp only
  rw [hst]
  dsimp only
  rw [hf']
  dsimp only
  rw [he, hk.recached.places]

theorem characterRange_at_end {glyphRange : NSRange} (hp : 0 < glyphRange.upper)
    (hl : m.places.length ≤ glyphRange.location) :
    (m.characterRangeForGlyphRange length glyphRange).1 = .error glyphRangeOutOfRange := by
  rw [characterRangeForGlyphRange, if_neg (Nat.ne_of_gt hp), hm.top_glyphLength_eq, hm.misses_nothing]
  split
  · rfl
  · rw [runForGlyphIndex, hm.top_glyphLength_eq, if_pos hl]

theorem characterRange_keeps (glyphRange : NSRange) :
    Keeps length m (m.characterRangeForGlyphRange length glyphRange).2 := by
  rw [characterRangeForGlyphRange]
  split
  · exact hm.keeps_self
  split
  · exact hm.keeps_self
  have hf := hm.runForGlyphIndex_keeps glyphRange.location
  split
  · next heq => rwa [heq] at hf
  next found m' heq =>
  rw [heq] at hf
  split
  · exact hf
  have hl := hf.trans (hf.generated.runForGlyphIndex_keeps (glyphRange.upper - 1))
  split
  · next heq' => rwa [heq'] at hl
  next found' m'' heq' =>
  rw [heq'] at hl
  split
  · exact hl
  · exact hl

end FullyGenerated

/-! ## From characters to glyphs -/

/-- The character that the range of a character starts at: the one of its cluster or, where the run has no glyphs, the
first one of the run. -/
inductive StartsAt (m : GSLayoutManager) (charIndex s : Nat) : Prop
  | cluster (hhas : m.HasGlyphs charIndex) (hfloor : IsFloor m.places charIndex s)
  | run (hnone : ¬ m.HasGlyphs charIndex) (run : Nat) (hscan : scan GlyphRun.charLength charIndex m.runs = some run)
      (hstart : s = before GlyphRun.charLength m.runs run)

/-- The character that a range of characters ends before: the next one with glyphs or, where the last run has no glyphs,
the end of the text. -/
inductive EndsAt (m : GSLayoutManager) (length upper e : Nat) : Prop
  | cluster (hhas : m.HasGlyphs (upper - 1)) (hceiling : e = ceiling m.places length upper)
  | text (hnone : ¬ m.HasGlyphs (upper - 1)) (hend : e = length)

theorem StartsAt.of_recached {charIndex s : Nat} (h : m'.StartsAt charIndex s) (hr : m.Recached m') :
    m.StartsAt charIndex s := by
  obtain ⟨cached, rfl⟩ := hr
  cases h with
  | cluster hh hf => exact .cluster hh hf
  | run hn run hs hst => exact .run hn run hs hst

theorem EndsAt.of_recached {upper e : Nat} (h : m'.EndsAt length upper e) (hr : m.Recached m') :
    m.EndsAt length upper e := by
  obtain ⟨cached, rfl⟩ := hr
  cases h with
  | cluster hh hc => exact .cluster hh hc
  | text hn he => exact .text hn he

/-- The run of a character, as it is looked up. -/
structure FindsRun (length : Nat) (m m' : GSLayoutManager) (charIndex run : Nat) (r : GlyphRun) : Prop where
  lookUp : m.runForCharacterIndex charIndex =
    (some ⟨run, before GlyphRun.glyphLength m.runs run, before GlyphRun.charLength m.runs run⟩, m')
  keeps : Keeps length m m'
  scan_eq : scan GlyphRun.charLength charIndex m.runs = some run
  run_eq : m.runs[run]? = some r
  le : before GlyphRun.charLength m.runs run ≤ charIndex
  lt : charIndex < before GlyphRun.charLength m.runs run + r.charLength

/-- What `_glyphForCharacter:index:positions:` finds. -/
structure FindsGlyph (length : Nat) (m m' : GSLayoutManager) (charIndex s : Nat) (p : Position) : Prop where
  lookUp : m.glyphForCharacter charIndex = (.ok p, m')
  keeps : Keeps length m m'
  stands : m'.Stands p
  startsAt : m.StartsAt charIndex s
  rank_eq : rank m.places s = p.i + p.pos
  location : m'.characterLocation p = .ok s
  has : m.HasGlyphs charIndex → p.i < m'.glyphLengthOf p.run
  none : ¬ m.HasGlyphs charIndex → p.i = 0 ∧ m'.glyphLengthOf p.run = 0 ∧ rank m.places (charIndex + 1) = p.pos

variable {charIndex run : Nat}

theorem FindsRun.hasGlyphs_iff {r : GlyphRun} (h : FindsRun length m m' charIndex run r) :
    m.HasGlyphs charIndex ↔ r.glyphs ≠ none := by
  refine ⟨?_, fun hne => ⟨run, r, h.scan_eq, h.run_eq, hne⟩⟩
  rintro ⟨run', r', hs, hr, hne⟩
  obtain rfl := Option.some.inj (h.scan_eq.symm.trans hs)
  obtain rfl := Option.some.inj (h.run_eq.symm.trans hr)
  exact hne

theorem FindsRun.stands {r : GlyphRun} (h : FindsRun length m m' charIndex run r) (i : Nat) :
    m'.Stands ⟨run, i, before GlyphRun.glyphLength m.runs run, before GlyphRun.charLength m.runs run⟩ := by
  have hr := h.run_eq
  rw [← h.keeps.recached.runs] at hr ⊢
  exact ⟨(List.getElem?_eq_some_iff.mp hr).1, rfl, rfl⟩

theorem FindsRun.run_eq' {r : GlyphRun} (h : FindsRun length m m' charIndex run r) : m'.runs[run]? = some r := by
  rw [h.keeps.recached.runs]
  exact h.run_eq

namespace FullyGenerated

variable (hm : m.FullyGenerated length)
include hm

variable {r : GlyphRun}

theorem rank_start {run : Nat} (hr : m.runs[run]? = some r) :
    rank m.places (before GlyphRun.charLength m.runs run) = before GlyphRun.glyphLength m.runs run := by
  have h := hm.rank_run hr (Nat.zero_le _)
  rwa [Nat.add_zero, rank_eq_zero fun _ _ => Nat.zero_le _, Nat.add_zero] at h

/-- The last character with glyphs up to one in a run with glyphs is in that run. -/
theorem isFloor_of_offset {run charIndex o : Nat} (hr : m.runs[run]? = some r)
    (hle : before GlyphRun.charLength m.runs run ≤ charIndex)
    (hlt : charIndex < before GlyphRun.charLength m.runs run + r.charLength)
    (ho : IsFloor r.offsets (charIndex - before GlyphRun.charLength m.runs run) o) :
    IsFloor m.places charIndex (before GlyphRun.charLength m.runs run + o) := by
  have hup := ho.1.2
  refine ⟨⟨hm.place_of_offset hr ho.1.1, by omega⟩, fun q ⟨hq, hqle⟩ => ?_⟩
  obtain ⟨k, hk⟩ := List.getElem?_of_mem hq
  by_cases he : k < before GlyphRun.glyphLength m.runs run
  · rw [← hm.rank_start hr, lt_rank_iff hm.sorted hk] at he
    omega
  · obtain ⟨i, rfl⟩ := Nat.exists_eq_add_of_le (Nat.le_of_not_lt he)
    have hrn : before GlyphRun.glyphLength m.runs run + i < rank m.places (charIndex + 1) :=
      (lt_rank_iff hm.sorted hk).mpr (Nat.lt_succ_of_le hqle)
    have hi : charIndex + 1 = before GlyphRun.charLength m.runs run +
        (charIndex + 1 - before GlyphRun.charLength m.runs run) := by omega
    rw [hi, hm.rank_run hr (by omega)] at hrn
    have hl := (hm.nominal r (List.mem_of_getElem? hr)).length_eq
    have hb := rank_le_length r.offsets (charIndex + 1 - before GlyphRun.charLength m.runs run)
    have hg := hm.getElem_run hr (by omega : i < r.glyphLength)
    rw [hk] at hg
    obtain ⟨o', ho', hq'⟩ := Option.map_eq_some_iff.mp hg.symm
    have hmax := ho.2 ⟨List.mem_of_getElem? ho', by omega⟩
    omega

theorem runForCharacterIndex_found {charIndex : Nat} (hlt : charIndex < length) :
    ∃ m' run r, FindsRun length m m' charIndex run r := by
  rw [hm.length_eq] at hlt
  obtain ⟨run, hs⟩ := exists_scan hlt
  have hg := List.getElem?_eq_getElem (scan_lt hs)
  have he := lt_of_scan hs
  rw [before_succ _ hg] at he
  have hf : (m.runForCharacterIndex charIndex).1 = some (m.foundAt run) := by
    rw [runForCharacterIndex_eq hm.wellFormed hm.cacheFits ⟨m.runs.length, hm.generated _ _, hlt⟩, linearScan, hs]
    rfl
  exact ⟨_, run, _, Prod.ext hf rfl, hm.runForCharacterIndex_keeps charIndex, hs, hg, scan_le hs, he⟩

theorem findsGlyph_of_none {charIndex run : Nat} (h : FindsRun length m m' charIndex run r) (hg : r.glyphs = none) :
    FindsGlyph length m m' charIndex (before GlyphRun.charLength m.runs run)
      ⟨run, 0, before GlyphRun.glyphLength m.runs run, before GlyphRun.charLength m.runs run⟩ := by
  have hn : ¬ m.HasGlyphs charIndex := fun hh => (h.hasGlyphs_iff).mp hh hg
  have ho := GlyphRun.offsets_of_none hg
  have hl : m'.glyphLengthOf run = 0 := by
    rw [glyphLengthOf_eq (h.run_eq'), ← (hm.nominal r (List.mem_of_getElem? h.run_eq)).length_eq, ho]
    rfl
  refine ⟨?_, h.keeps, h.stands 0, .run hn run h.scan_eq rfl, ?_, ?_, fun hh => absurd hh hn, fun _ => ⟨rfl, hl, ?_⟩⟩
  · rw [glyphForCharacter, h.lookUp]
    dsimp only
    rw [h.run_eq', Option.bind_some, hg]
  · rw [hm.rank_start h.run_eq]
    exact (Nat.zero_add _).symm
  · rw [characterLocation, if_neg (by simp only; omega)]
  · have hle := h.le
    have hlt := h.lt
    have hi : charIndex + 1 = before GlyphRun.charLength m.runs run +
        (charIndex + 1 - before GlyphRun.charLength m.runs run) := by omega
    rw [hi, hm.rank_run h.run_eq (by omega), ho]
    rfl

theorem findsGlyph_of_some {charIndex run : Nat} (h : FindsRun length m m' charIndex run r)
    {glyphs : List Glyph} (hg : r.glyphs = some glyphs) : ∃ s p, FindsGlyph length m m' charIndex s p := by
  have hh : m.HasGlyphs charIndex := (h.hasGlyphs_iff).mpr (by rw [hg]; nofun)
  have hn := hm.nominal r (List.mem_of_getElem? h.run_eq)
  have ho := GlyphRun.offsets_of_glyphs hg
  have hl : m'.glyphLengthOf run = glyphs.length := by
    rw [glyphLengthOf_eq (h.run_eq'), ← hn.length_eq, ho, List.length_map]
  obtain ⟨o, hidx, hf⟩ := glyphIndexFor_spec (ho ▸ hn.sorted)
    (charIndex - before GlyphRun.charLength m.runs run) (ho ▸ hn.head_eq) (fun hnil => hn.glyphs_ne (hnil ▸ hg))
  rw [← ho] at hidx hf
  have hget := getElem_rank hn.sorted hf.1.1
  have hi : rank r.offsets o < m'.glyphLengthOf run := by
    rw [glyphLengthOf_eq (h.run_eq'), ← hn.length_eq]
    exact (List.getElem?_eq_some_iff.mp hget).1
  refine ⟨before GlyphRun.charLength m.runs run + o, ⟨run, rank r.offsets o, before GlyphRun.glyphLength m.runs run,
    before GlyphRun.charLength m.runs run⟩, ?_, h.keeps, h.stands _,
    .cluster hh (hm.isFloor_of_offset h.run_eq h.le h.lt hf), ?_, ?_, fun _ => hi, fun hnn => absurd hh hnn⟩
  · rw [glyphForCharacter, h.lookUp]
    dsimp only
    rw [h.run_eq', Option.bind_some, hg]
    dsimp only
    rw [hl, hidx]
    rfl
  · rw [hm.rank_run h.run_eq (Nat.le_of_lt (hn.offset_lt o hf.1.1)), Nat.add_comm]
  · obtain ⟨c, ha, hp⟩ := h.keeps.generated.characterAt_eq (h.stands (rank r.offsets o)) hi
    have hp' := hm.getElem_run h.run_eq (by rw [← glyphLengthOf_eq (h.run_eq')]; exact hi)
    rw [h.keeps.recached.places, Nat.add_comm] at hp
    rw [hp, hget] at hp'
    rw [characterLocation, if_pos hi, ha, Option.some.inj hp', Nat.add_comm]

theorem glyphForCharacter_found {charIndex : Nat} (hlt : charIndex < length) :
    ∃ m' s p, FindsGlyph length m m' charIndex s p := by
  obtain ⟨m', run, r, h⟩ := hm.runForCharacterIndex_found hlt
  cases hg : r.glyphs with
  | none => exact ⟨m', _, _, hm.findsGlyph_of_none h hg⟩
  | some glyphs => exact ⟨m', hm.findsGlyph_of_some h hg⟩

omit hm in
theorem rangeEnd_eq {upper s : Nat} {p : Position} (hu : 0 < upper) (h : FindsGlyph length m m' (upper - 1) s p) :
    ∃ e, m'.rangeEnd length (upper - 1) p = .ok (e, rank m.places upper) ∧ m.EndsAt length upper e := by
  have hm' := h.keeps.generated
  have hp := h.keeps.recached.places
  have ht : upper - 1 + 1 = upper := Nat.sub_add_cancel hu
  by_cases hh : m.HasGlyphs (upper - 1)
  · have hi := h.has hh
    have hf : IsFloor m.places (upper - 1) s := by
      cases h.startsAt with
      | cluster _ hf => exact hf
      | run hn => exact absurd hh hn
    obtain ⟨p', hsc, hto⟩ := hm'.scanForward_spec (· ≤ upper - 1) h.stands hi
    have hr : rank m'.places upper = p'.i + p'.pos := by
      refine hto.rank_eq hm' (fun k c hlt hg => ?_) fun k c _ _ => ?_
      · have hs := hf.1.2
        rw [← h.rank_eq, ← hp, lt_rank_iff hm'.sorted hg] at hlt
        omega
      · rw [decide_eq_true_iff]
        omega
    refine ⟨ceiling m.places length upper, ?_, .cluster hh rfl⟩
    have he := hto.end_eq hm' hr
    rw [hp] at hr he
    rw [rangeEnd, if_pos hi, hsc, hr]
    show (if m'.glyphLengthOf p'.run ≤ p'.i then .ok (m'.top.charLength, p'.i + p'.pos)
      else (m'.characterAt p'.run p'.i p'.cpos).bind _) = _
    obtain ⟨hls, -, htop⟩ | ⟨hin, ha⟩ := he
    · rw [if_pos (Nat.le_of_eq hls.symm), hm'.charLength, htop]
    · rw [if_neg (Nat.not_le.mpr hin), ha]
      rfl
  · obtain ⟨hi, hl, hr⟩ := h.none hh
    rw [ht] at hr
    refine ⟨length, ?_, .text hh rfl⟩
    rw [rangeEnd, hl, hi, if_neg (Nat.lt_irrefl 0)]
    show (if m'.glyphLengthOf p.run ≤ p.i then .ok (m'.top.charLength, p.i + p.pos)
      else (m'.characterAt p.run p.i p.cpos).bind _) = _
    rw [hl, hi, if_pos (Nat.le_refl 0), hm'.charLength, hr, Nat.zero_add]

theorem glyphRange_eq {charRange : NSRange} (hp : 0 < charRange.upper) (hu : charRange.upper ≤ length)
    (hl : charRange.location < length) : ∃ s e, m.StartsAt charRange.location s ∧ m.EndsAt length charRange.upper e ∧
      (m.glyphRangeForCharacterRange length charRange).1 =
        .ok (⟨rank m.places s, rank m.places charRange.upper - rank m.places s⟩, ⟨s, e - s⟩) := by
  obtain ⟨m', s, p, hf⟩ := hm.glyphForCharacter_found hl
  obtain ⟨m'', s', p', hls⟩ := hf.keeps.generated.glyphForCharacter_found (by omega : charRange.upper - 1 < length)
  obtain ⟨e, he, hen⟩ := rangeEnd_eq hp hls
  rw [hf.keeps.recached.places] at he
  refine ⟨s, e, hf.startsAt, hen.of_recached hf.keeps.recached, ?_⟩
  have hne : ¬ (charRange.length = 0 ∧ charRange.location = 0) := by
    unfold NSRange.upper at hp
    omega
  rw [glyphRangeForCharacterRange, if_neg hne, hm.misses_nothing, if_neg Bool.false_ne_true, hm.charLength,
    if_neg (by omega), hf.lookUp]
  dsimp only
  rw [hf.location]
  dsimp only
  rw [hls.lookUp]
  dsimp only
  rw [he, ← hf.rank_eq]

theorem glyphRange_at_end {charRange : NSRange} (hp : 0 < charRange.upper) (hl : length ≤ charRange.location) :
    (m.glyphRangeForCharacterRange length charRange).1 = .ok (⟨m.places.length, 0⟩, ⟨length, 0⟩) := by
  have hne : ¬ (charRange.length = 0 ∧ charRange.location = 0) := by
    unfold NSRange.upper at hp
    omega
  rw [glyphRangeForCharacterRange, if_neg hne, hm.misses_nothing, if_neg Bool.false_ne_true, hm.charLength,
    if_pos (.inr hl), hm.top_glyphLength_eq]

theorem glyphForCharacter_keeps (charIndex : Nat) : Keeps length m (m.glyphForCharacter charIndex).2 := by
  have hk := hm.runForCharacterIndex_keeps charIndex
  rw [glyphForCharacter]
  split
  · next heq => rwa [heq] at hk
  next heq =>
  rw [heq] at hk
  split
  · exact hk
  · exact hk

theorem glyphRange_keeps (charRange : NSRange) : Keeps length m (m.glyphRangeForCharacterRange length charRange).2 := by
  rw [glyphRangeForCharacterRange]
  split
  · exact hm.keeps_self
  split
  · exact hm.keeps_self
  split
  · exact hm.keeps_self
  have hf := hm.glyphForCharacter_keeps charRange.location
  split
  · next heq => rwa [heq] at hf
  next heq =>
  rw [heq] at hf
  split
  · exact hf
  have hl := hf.trans (hf.generated.glyphForCharacter_keeps (charRange.upper - 1))
  split
  · next heq' => rwa [heq'] at hl
  next heq' =>
  rw [heq'] at hl
  split
  · exact hl
  · exact hl

end FullyGenerated

end GSLayoutManager

end GnustepGui.LayoutManager
