import GnustepGui.LayoutManager.GlyphRuns

/-!
# Looking up runs

Both lookups of a run agree with a linear scan of the runs. Every head passed over moves the search to a run whose
indexes are the sums of the lengths before it, so the search ends at the one run that the index is in.
-/

namespace GnustepGui.LayoutManager

open SkipLists

namespace GSLayoutManager

/-! ## Well-formed lists -/

/-- Where a run is. -/
def foundAt (m : GSLayoutManager) (i : Nat) : Found :=
  ⟨i, before GlyphRun.glyphLength m.runs i, before GlyphRun.charLength m.runs i⟩

/-- The runs from `i` up to `j` have their glyphs. -/
def Generated (m : GSLayoutManager) (i j : Nat) : Prop :=
  ∀ k r, i ≤ k → k < j → m.runs[k]? = some r → r.head.complete = true

/-- A head sums up the runs up to the next one of its level; of their glyphs it counts those of the first runs only
when some are missing. -/
structure SumsUp (m : GSLayoutManager) (level i : Nat) (h : RunHead) : Prop where
  charLength : before GlyphRun.charLength m.runs (stop GlyphRun.level m.runs level i) =
    before GlyphRun.charLength m.runs i + h.charLength
  complete : h.complete = true ↔ m.Generated i (stop GlyphRun.level m.runs level i)
  glyphLength : ∃ k, i ≤ k ∧ k ≤ stop GlyphRun.level m.runs level i ∧ m.Generated i k ∧
    before GlyphRun.glyphLength m.runs k = before GlyphRun.glyphLength m.runs i + h.glyphLength ∧
    (h.complete = true → k = stop GlyphRun.level m.runs level i)

/-- The aggregates are correct. -/
structure WellFormed (m : GSLayoutManager) : Prop where
  level_eq : m.glyphs.level = SKIP_LIST_DEPTH - 1
  level_lt : ∀ r ∈ m.rest, r.level < SKIP_LIST_DEPTH - 1
  sumsUp : ∀ i r level, m.runs[i]? = some r → 0 < level → level ≤ r.level → m.SumsUp level i (r.heads level)

/-- A cached run has its own indexes. -/
def CacheFits (m : GSLayoutManager) : Prop :=
  ∀ found ∈ m.cached, found.run < m.runs.length ∧ found = m.foundAt found.run

/-- The run that an index is in, with the lengths of the runs before it added up one by one. -/
def linearScan (m : GSLayoutManager) (length : GlyphRun → Nat) (index : Nat) : Option Found :=
  (scan length index m.runs).map m.foundAt

/-- The glyphs have been generated for all characters up to this one. -/
def CharacterGenerated (m : GSLayoutManager) (charIndex : Nat) : Prop :=
  ∃ k, m.Generated 0 k ∧ charIndex < before GlyphRun.charLength m.runs k

variable {m : GSLayoutManager}

variable {length : GlyphRun → Nat}

theorem linearScan_eq {index i : Nat} (hle : before length m.runs i ≤ index)
    (hlt : index < before length m.runs (i + 1)) : m.linearScan length index = some (m.foundAt i) := by
  rw [linearScan, scan_eq_some hle hlt]
  rfl

theorem stop_le_length (level i : Nat) (hi : i < m.runs.length) :
    i < stop GlyphRun.level m.runs level i ∧ stop GlyphRun.level m.runs level i ≤ m.runs.length := by
  cases hn : nextAt GlyphRun.level m.runs level i with
  | none =>
    rw [stop_of_none hn]
    exact ⟨hi, Nat.le_refl _⟩
  | some j =>
    have hb := next_bounds hn
    rw [stop_of_some hn]
    exact ⟨hb.1, Nat.le_of_lt hb.2⟩

theorem Generated.single {i : Nat} {r : GlyphRun} (hr : m.runs[i]? = some r) :
    m.Generated i (i + 1) ↔ r.head.complete = true := by
  refine ⟨fun h => h i r (Nat.le_refl i) (Nat.lt_succ_self i) hr, fun h k r' hle hlt hr' => ?_⟩
  obtain rfl : k = i := by omega
  rw [hr] at hr'
  obtain rfl := Option.some.inj hr'
  exact h

theorem Generated.trans {i j k : Nat} (hi : m.Generated i j) (hj : m.Generated j k) : m.Generated i k := by
  intro l r hle hlt hr
  by_cases hm : l < j
  · exact hi l r hle hm hr
  · exact hj l r (Nat.le_of_not_lt hm) hlt hr

/-! ## Passing over a head -/

section

variable {i level : Nat} {r : GlyphRun} (hwf : m.WellFormed) (hr : m.runs[i]? = some r) (hlevel : level ≤ r.level)
include hwf hr hlevel

theorem charLength_sum : before GlyphRun.charLength m.runs (stop GlyphRun.level m.runs level i) =
    before GlyphRun.charLength m.runs i + (r.heads level).charLength := by
  cases level with
  | zero => rw [stop_zero (List.getElem?_eq_some_iff.mp hr).1, before_succ _ hr]; rfl
  | succ level => exact (hwf.sumsUp i r _ hr (Nat.succ_pos _) hlevel).charLength

theorem complete_iff : (r.heads level).complete = true ↔ m.Generated i (stop GlyphRun.level m.runs level i) := by
  cases level with
  | zero =>
    rw [stop_zero (List.getElem?_eq_some_iff.mp hr).1, Generated.single hr]
    rfl
  | succ level => exact (hwf.sumsUp i r _ hr (Nat.succ_pos _) hlevel).complete

theorem glyphLength_sum (hc : (r.heads level).complete = true) :
    before GlyphRun.glyphLength m.runs (stop GlyphRun.level m.runs level i) =
      before GlyphRun.glyphLength m.runs i + (r.heads level).glyphLength := by
  cases level with
  | zero => rw [stop_zero (List.getElem?_eq_some_iff.mp hr).1, before_succ _ hr]; rfl
  | succ level =>
    obtain ⟨k, -, -, -, hs, hk⟩ := (hwf.sumsUp i r _ hr (Nat.succ_pos _) hlevel).glyphLength
    rw [← hk hc]
    exact hs

end

theorem foundAt_next {i j level : Nat} {r : GlyphRun} (hwf : m.WellFormed) (hr : m.runs[i]? = some r)
    (hlevel : level ≤ r.level) (hc : (r.heads level).complete = true) (hn : m.next level i = some j) :
    m.foundAt j = ⟨j, before GlyphRun.glyphLength m.runs i + (r.heads level).glyphLength,
      before GlyphRun.charLength m.runs i + (r.heads level).charLength⟩ := by
  have hg := glyphLength_sum hwf hr hlevel hc
  have hch := charLength_sum hwf hr hlevel
  rw [stop_of_some hn] at hg hch
  rw [foundAt, hg, hch]

/-! ## By glyph index -/

/-- From any run before the index, at any of its levels, the search finds the run of the index. -/
theorem searchGlyph_spec (hwf : m.WellFormed) {glyphIndex k : Nat} (hg : m.Generated 0 k)
    (hk : k ≤ m.runs.length) (hidx : glyphIndex < before GlyphRun.glyphLength m.runs k)
    (level i pos cpos : Nat) {r : GlyphRun} (hr : m.runs[i]? = some r) (hlevel : level ≤ r.level)
    (ha : m.foundAt i = ⟨i, pos, cpos⟩) (hle : pos ≤ glyphIndex) :
    m.searchGlyph glyphIndex level i pos cpos = m.linearScan GlyphRun.glyphLength glyphIndex := by
  fun_induction searchGlyph m glyphIndex level i pos cpos generalizing r with
  | case1 level i pos cpos hno =>
    rw [hno] at hr
    cases hr
  | case2 i pos cpos r' hr' hi =>
    -- a run without glyphs is not before one with the index
    obtain rfl := Option.some.inj (hr'.symm.trans hr)
    obtain ⟨hp, -⟩ := Found.mk.inj ha |>.2
    have hlt : i < k := lt_of_before_lt (by rw [hp]; exact Nat.lt_of_le_of_lt hle hidx)
    have hc : r'.head.complete = true := hg i r' (Nat.zero_le i) hlt hr
    exact absurd hc (ne_true_of_eq_false hi)
  | case3 i pos cpos r' hr' level hi ih => exact ih hr (Nat.le_of_succ_le hlevel) ha hle
  | case4 level i pos cpos r' hr' hc hps hnx =>
    -- a complete head without a next one would hold the index
    obtain rfl := Option.some.inj (hr'.symm.trans hr)
    obtain ⟨hp, -⟩ := Found.mk.inj ha |>.2
    have hs := glyphLength_sum hwf hr hlevel (eq_true_of_ne_false hc)
    rw [stop_of_none hnx, hp] at hs
    have hb := before_mono GlyphRun.glyphLength m.runs hk
    omega
  | case5 level i pos cpos r' hr' hc hps j hnx ih =>
    obtain rfl := Option.some.inj (hr'.symm.trans hr)
    obtain ⟨hp, hcp⟩ := Found.mk.inj ha |>.2
    obtain ⟨-, next, hnn, hn⟩ := nextAt_spec hnx
    refine ih hnn hn ?_ hps
    rw [foundAt_next hwf hr hlevel (eq_true_of_ne_false hc) hnx, hp, hcp]
  | case6 i pos cpos r' hr' hc hin =>
    obtain rfl := Option.some.inj (hr'.symm.trans hr)
    obtain ⟨hp, -⟩ := Found.mk.inj ha |>.2
    have he := before_succ GlyphRun.glyphLength hr
    rw [← ha]
    refine (linearScan_eq (by omega) ?_).symm
    rw [he, hp]
    exact Nat.lt_of_not_le hin
  | case7 i pos cpos r' hr' level hc hin ih => exact ih hr (Nat.le_of_succ_le hlevel) ha hle

/-! ## By character index -/

/-- The position is that of the run as long as all runs before it have glyphs, and may be cached only then. -/
structure Sound (m : GSLayoutManager) (s : Searching) : Prop where
  cpos_eq : s.found.cpos = before GlyphRun.charLength m.runs s.found.run
  pos_eq : m.Generated 0 s.found.run → s.found.pos = before GlyphRun.glyphLength m.runs s.found.run
  cache : s.cache = true → m.Generated 0 s.found.run

/-- A turn of the inner loop. -/
theorem Sound.next {s : Searching} {r : GlyphRun} {level j : Nat} (hs : m.Sound s) (hwf : m.WellFormed)
    (hr : m.runs[s.found.run]? = some r) (hlevel : level ≤ r.level) (hn : m.next level s.found.run = some j) :
    m.Sound ⟨⟨j, s.found.pos + (r.heads level).glyphLength, s.found.cpos + (r.heads level).charLength⟩,
      s.cache && (r.heads level).complete⟩ := by
  have hlt := (next_bounds hn).1
  have hc := complete_iff hwf hr hlevel
  have hch := charLength_sum hwf hr hlevel
  rw [stop_of_some hn] at hc hch
  refine ⟨?_, fun hgn => ?_, fun hcc => ?_⟩
  · rw [hch, hs.cpos_eq]
  · have hb : m.Generated 0 s.found.run := fun k r hle hk hr => hgn k r hle (Nat.lt_trans hk hlt) hr
    have hh : (r.heads level).complete = true := hc.mpr fun k r _ hk hr => hgn k r (Nat.zero_le k) hk hr
    have hg := glyphLength_sum hwf hr hlevel hh
    rw [stop_of_some hn] at hg
    rw [hg, hs.pos_eq hb]
  · obtain ⟨hb, hh⟩ := Bool.and_eq_true_iff.mp hcc
    exact (hs.cache hb).trans (hc.mp hh)

/-- The run is before the index, and its head at this level is not. -/
structure Within (m : GSLayoutManager) (charIndex level : Nat) (s : Searching) : Prop where
  sound : m.Sound s
  level_le : ∃ r, m.runs[s.found.run]? = some r ∧ level ≤ r.level
  le : before GlyphRun.charLength m.runs s.found.run ≤ charIndex

theorem advance_spec (hwf : m.WellFormed) {charIndex level : Nat}
    (hi : charIndex < before GlyphRun.charLength m.runs m.runs.length) (s : Searching)
    (hs : m.Within charIndex level s) : ∃ s', m.advance charIndex level s = some s' ∧ m.Within charIndex level s' ∧
      charIndex < before GlyphRun.charLength m.runs (stop GlyphRun.level m.runs level s'.found.run) := by
  fun_induction advance m charIndex level s with
  | case1 s hno =>
    obtain ⟨r, hr, -⟩ := hs.level_le
    rw [hno] at hr
    cases hr
  | case2 s r hr hp hnx =>
    obtain ⟨r', hr', hlevel⟩ := hs.level_le
    obtain rfl := Option.some.inj (hr.symm.trans hr')
    have hsum := charLength_sum hwf hr hlevel
    rw [stop_of_none hnx, ← hs.sound.cpos_eq] at hsum
    omega
  | case3 s r hr hp j hnx ih =>
    obtain ⟨r', hr', hlevel⟩ := hs.level_le
    obtain rfl := Option.some.inj (hr.symm.trans hr')
    obtain ⟨-, next, hnn, hn⟩ := nextAt_spec hnx
    have hsnd := hs.sound.next hwf hr hlevel hnx
    refine ih ⟨hsnd, ⟨next, hnn, hn⟩, ?_⟩
    rw [← hsnd.cpos_eq]
    exact hp
  | case4 s r hr hin =>
    obtain ⟨r', hr', hlevel⟩ := hs.level_le
    obtain rfl := Option.some.inj (hr.symm.trans hr')
    refine ⟨s, rfl, hs, ?_⟩
    rw [charLength_sum hwf hr hlevel, ← hs.sound.cpos_eq]
    exact Nat.lt_of_not_le hin

variable {charIndex : Nat}

/-- One level after the other, down to the run of the index. -/
theorem searchCharacter_spec (hwf : m.WellFormed)
    (hi : charIndex < before GlyphRun.charLength m.runs m.runs.length) (level : Nat) (s : Searching)
    (hs : m.Within charIndex level s) :
    ∃ s', m.searchCharacter charIndex level s = some s' ∧ m.Sound s' ∧ s'.found.run < m.runs.length ∧
      m.linearScan GlyphRun.charLength charIndex = some (m.foundAt s'.found.run) := by
  induction level generalizing s with
  | zero =>
    obtain ⟨s', ha, hw, hlt⟩ := advance_spec hwf hi s hs
    obtain ⟨r, hr, -⟩ := hw.level_le
    have hrun := (List.getElem?_eq_some_iff.mp hr).1
    rw [stop_zero hrun] at hlt
    exact ⟨s', ha, hw.sound, hrun, linearScan_eq hw.le hlt⟩
  | succ level ih =>
    obtain ⟨s', ha, hw, -⟩ := advance_spec hwf hi s hs
    obtain ⟨r, hr, hlevel⟩ := hw.level_le
    rw [searchCharacter, ha]
    exact ih s' ⟨hw.sound, ⟨r, hr, Nat.le_of_succ_le hlevel⟩, hw.le⟩

/-! ## With a cached run -/

variable {found : Found}

theorem linearScan_lt {index : Nat}
    (h : m.linearScan length index = some found) : found.run < m.runs.length ∧ found = m.foundAt found.run := by
  obtain ⟨i, hi, rfl⟩ := Option.map_eq_some_iff.mp h
  exact ⟨scan_lt hi, rfl⟩

theorem cachedFor_spec (hc : m.CacheFits) {start : Found → Nat} {index : Nat}
    (hs : ∀ i, start (m.foundAt i) = before length m.runs i)
    (h : m.cachedFor start length index = some found) : m.linearScan length index = some found := by
  obtain ⟨hcd, hin⟩ := Option.filter_eq_some_iff.mp h
  obtain ⟨hrun, hf⟩ := hc found hcd
  have hb : start found = before length m.runs found.run := (congrArg start hf).trans (hs _)
  rw [List.getElem?_eq_getElem hrun, Option.elim_some, decide_eq_true_iff, hb] at hin
  rw [hf]
  refine linearScan_eq hin.1 ?_
  rw [before_succ _ (List.getElem?_eq_getElem hrun)]
  exact hin.2

theorem runs_zero (hwf : m.WellFormed) : m.runs[0]? = some m.glyphs ∧ SKIP_LIST_DEPTH - 1 ≤ m.glyphs.level :=
  ⟨rfl, Nat.le_of_eq hwf.level_eq.symm⟩

theorem top_charLength (hwf : m.WellFormed) : m.top.charLength = before GlyphRun.charLength m.runs m.runs.length := by
  have hs := charLength_sum hwf (runs_zero hwf).1 (runs_zero hwf).2
  rw [stop_of_forall_lt hwf.level_lt, before_zero, Nat.zero_add] at hs
  exact hs.symm

theorem top_glyphLength (hwf : m.WellFormed) :
    ∃ k, k ≤ m.runs.length ∧ m.Generated 0 k ∧ m.top.glyphLength = before GlyphRun.glyphLength m.runs k := by
  obtain ⟨k, -, hk, hg, hs, -⟩ := (hwf.sumsUp 0 m.glyphs _ rfl (by decide) (runs_zero hwf).2).glyphLength
  rw [before_zero, Nat.zero_add] at hs
  exact ⟨k, Nat.le_trans hk (stop_le_length _ 0 (Nat.succ_pos _)).2, hg, hs.symm⟩

theorem searchGlyph_top (hwf : m.WellFormed) {glyphIndex : Nat} (hi : glyphIndex < m.top.glyphLength) :
    m.searchGlyph glyphIndex (SKIP_LIST_DEPTH - 1) 0 0 0 = m.linearScan GlyphRun.glyphLength glyphIndex := by
  obtain ⟨k, hk, hg, ht⟩ := top_glyphLength hwf
  rw [ht] at hi
  exact searchGlyph_spec hwf hg hk hi _ 0 0 0 (runs_zero hwf).1 (runs_zero hwf).2 rfl (Nat.zero_le _)

theorem searchCharacter_top (hwf : m.WellFormed) (hi : charIndex < m.top.charLength) :
    ∃ s, m.searchCharacter charIndex (SKIP_LIST_DEPTH - 1) ⟨⟨0, 0, 0⟩, true⟩ = some s ∧ m.Sound s ∧
      s.found.run < m.runs.length ∧ m.linearScan GlyphRun.charLength charIndex = some (m.foundAt s.found.run) := by
  rw [top_charLength hwf] at hi
  refine searchCharacter_spec hwf hi _ _ ⟨⟨rfl, fun _ => rfl, fun _ k r _ hk => ?_⟩, ?_, Nat.zero_le _⟩
  · exact absurd hk (Nat.not_lt_zero k)
  · exact ⟨m.glyphs, runs_zero hwf⟩

theorem runForGlyphIndex_eq (hwf : m.WellFormed) (hc : m.CacheFits) {glyphIndex : Nat}
    (hi : glyphIndex < m.top.glyphLength) :
    (m.runForGlyphIndex glyphIndex).1 = m.linearScan GlyphRun.glyphLength glyphIndex := by
  rw [runForGlyphIndex, if_neg (Nat.not_le.mpr hi)]
  cases hcd : m.cachedFor Found.pos GlyphRun.glyphLength glyphIndex with
  | some found => exact (cachedFor_spec hc (fun _ => rfl) hcd).symm
  | none =>
    dsimp only
    rw [searchGlyph_top hwf hi]
    cases m.linearScan GlyphRun.glyphLength glyphIndex <;> rfl

theorem Sound.found_eq {s : Searching} (hs : m.Sound s) (hg : m.Generated 0 s.found.run) :
    s.found = m.foundAt s.found.run := by
  rw [foundAt, ← hs.cpos_eq, ← hs.pos_eq hg]

theorem runForCharacterIndex_found (hwf : m.WellFormed) (hc : m.CacheFits) (hi : charIndex < m.top.charLength) :
    ∃ found scanned, (m.runForCharacterIndex charIndex).1 = some found ∧
      m.linearScan GlyphRun.charLength charIndex = some scanned ∧ found.run = scanned.run ∧
      found.cpos = scanned.cpos ∧ (m.Generated 0 scanned.run → found = scanned) := by
  rw [runForCharacterIndex, if_neg (Nat.not_le.mpr hi)]
  cases hcd : m.cachedFor Found.cpos GlyphRun.charLength charIndex with
  | some found => exact ⟨found, found, rfl, cachedFor_spec hc (fun _ => rfl) hcd, rfl, rfl, fun _ => rfl⟩
  | none =>
    obtain ⟨s, hsr, hs, -, hsc⟩ := searchCharacter_top hwf hi
    dsimp only
    rw [hsr]
    exact ⟨s.found, m.foundAt s.found.run, rfl, hsc, rfl, hs.cpos_eq, hs.found_eq⟩

theorem CharacterGenerated.lt (hwf : m.WellFormed) (h : m.CharacterGenerated charIndex) :
    charIndex < m.top.charLength := by
  obtain ⟨k, -, hlt⟩ := h
  rw [top_charLength hwf]
  by_cases hk : k ≤ m.runs.length
  · exact Nat.lt_of_lt_of_le hlt (before_mono _ _ hk)
  · rw [before_of_length_le (Nat.le_of_not_le hk)] at hlt
    exact hlt

theorem runForCharacterIndex_eq (hwf : m.WellFormed) (hc : m.CacheFits) (hidx : m.CharacterGenerated charIndex) :
    (m.runForCharacterIndex charIndex).1 = m.linearScan GlyphRun.charLength charIndex := by
  obtain ⟨found, scanned, hf, hs, -, -, hsm⟩ := runForCharacterIndex_found hwf hc (hidx.lt hwf)
  obtain ⟨k, hg, hlt⟩ := hidx
  rw [hf, hs, hsm]
  intro j r hle hj
  refine hg j r hle (Nat.lt_trans hj ?_)
  obtain ⟨i, hi, rfl⟩ := Option.map_eq_some_iff.mp hs
  exact lt_of_before_lt (Nat.lt_of_le_of_lt (scan_le hi) hlt)

/-! ## What is cached -/

theorem CacheFits.cached (hrun : found.run < m.runs.length) (hf : found = m.foundAt found.run) :
    CacheFits { m with cached := some found } := by
  intro found' hc
  obtain rfl := Option.some.inj hc
  exact ⟨hrun, hf⟩

theorem runForGlyphIndex_cacheFits (hwf : m.WellFormed) (hc : m.CacheFits) (glyphIndex : Nat) :
    (m.runForGlyphIndex glyphIndex).2.CacheFits := by
  unfold runForGlyphIndex
  split
  · exact hc
  · next hi =>
    cases hcd : m.cachedFor Found.pos GlyphRun.glyphLength glyphIndex with
    | some found => exact hc
    | none =>
      dsimp only
      rw [searchGlyph_top hwf (Nat.lt_of_not_le hi)]
      cases hs : m.linearScan GlyphRun.glyphLength glyphIndex with
      | none => exact hc
      | some found => exact CacheFits.cached (linearScan_lt hs).1 (linearScan_lt hs).2

theorem runForCharacterIndex_cacheFits (hwf : m.WellFormed) (hc : m.CacheFits) (charIndex : Nat) :
    (m.runForCharacterIndex charIndex).2.CacheFits := by
  unfold runForCharacterIndex
  split
  · exact hc
  · next hi =>
    cases hcd : m.cachedFor Found.cpos GlyphRun.charLength charIndex with
    | some found => exact hc
    | none =>
      obtain ⟨s, hsr, hsnd, hrun, -⟩ := searchCharacter_top hwf (Nat.lt_of_not_le hi)
      dsimp only
      rw [hsr]
      dsimp only
      split
      · next hs => exact CacheFits.cached hrun (hsnd.found_eq (hsnd.cache hs))
      · exact hc

/-! ## Agreement -/

inductive Lookup where
  | glyph (glyphIndex : Nat)
  | character (charIndex : Nat)
  deriving DecidableEq, Repr

def lookUp (m : GSLayoutManager) : Lookup → Option Found × GSLayoutManager
  | .glyph glyphIndex => m.runForGlyphIndex glyphIndex
  | .character charIndex => m.runForCharacterIndex charIndex

/-- The manager once the lookups have been made, which leave a cached run. -/
def after (m : GSLayoutManager) (lookups : List Lookup) : GSLayoutManager :=
  lookups.foldl (fun m lookup => (m.lookUp lookup).2) m

/-- What the scan finds. -/
def scanned (m : GSLayoutManager) : Lookup → Option Found
  | .glyph glyphIndex => m.linearScan GlyphRun.glyphLength glyphIndex
  | .character charIndex => m.linearScan GlyphRun.charLength charIndex

/-- The index is within the generated part. -/
def IsGenerated (m : GSLayoutManager) : Lookup → Prop
  | .glyph glyphIndex => glyphIndex < m.top.glyphLength
  | .character charIndex => m.CharacterGenerated charIndex

/-- A lookup changes the cached run only. -/
theorem lookUp_cached (m : GSLayoutManager) (lookup : Lookup) :
    ∃ cached, (m.lookUp lookup).2 = { m with cached } := by
  cases lookup with
  | glyph glyphIndex =>
    rw [lookUp, runForGlyphIndex]
    split
    · exact ⟨m.cached, rfl⟩
    · cases m.cachedFor Found.pos GlyphRun.glyphLength glyphIndex with
      | some found => exact ⟨m.cached, rfl⟩
      | none =>
        cases m.searchGlyph glyphIndex (SKIP_LIST_DEPTH - 1) 0 0 0 with
        | none => exact ⟨m.cached, rfl⟩
        | some found => exact ⟨some found, rfl⟩
  | character charIndex =>
    rw [lookUp, runForCharacterIndex]
    split
    · exact ⟨m.cached, rfl⟩
    · cases m.cachedFor Found.cpos GlyphRun.charLength charIndex with
      | some found => exact ⟨m.cached, rfl⟩
      | none =>
        cases m.searchCharacter charIndex (SKIP_LIST_DEPTH - 1) ⟨⟨0, 0, 0⟩, true⟩ with
        | none => exact ⟨m.cached, rfl⟩
        | some s =>
          cases s with
          | mk found cache =>
            cases cache with
            | false => exact ⟨m.cached, rfl⟩
            | true => exact ⟨some found, rfl⟩

theorem WellFormed.cached (hwf : m.WellFormed) (cached : Option Found) : WellFormed { m with cached } :=
  ⟨hwf.level_eq, hwf.level_lt, fun i r level hr hp hle =>
    let h := hwf.sumsUp i r level hr hp hle
    ⟨h.charLength, h.complete, h.glyphLength⟩⟩

theorem lookUp_cacheFits (hwf : m.WellFormed) (hc : m.CacheFits) (lookup : Lookup) : (m.lookUp lookup).2.CacheFits := by
  cases lookup with
  | glyph glyphIndex => exact runForGlyphIndex_cacheFits hwf hc glyphIndex
  | character charIndex => exact runForCharacterIndex_cacheFits hwf hc charIndex

theorem after_cached (hwf : m.WellFormed) (hc : m.CacheFits) (lookups : List Lookup) :
    ∃ cached, m.after lookups = { m with cached } ∧ CacheFits { m with cached } := by
  induction lookups generalizing m with
  | nil => exact ⟨m.cached, rfl, hc⟩
  | cons lookup lookups ih =>
    obtain ⟨cached, hl⟩ := lookUp_cached m lookup
    have hf := lookUp_cacheFits hwf hc lookup
    rw [hl] at hf
    obtain ⟨cached', ha, hf'⟩ := ih (hwf.cached cached) hf
    refine ⟨cached', ?_, hf'⟩
    show ((m.lookUp lookup).2).after lookups = _
    rw [hl]
    exact ha

/-- After any lookups, with whatever run they have left cached, a lookup in the generated part finds what the linear
scan finds. -/
theorem lookUp_eq_scanned (hwf : m.WellFormed) (hcache : m.CacheFits) (earlier : List Lookup) (lookup : Lookup)
    (hgenerated : m.IsGenerated lookup) : ((m.after earlier).lookUp lookup).1 = m.scanned lookup := by
  obtain ⟨cached, ha, hf⟩ := after_cached hwf hcache earlier
  have hwf' := hwf.cached cached
  rw [ha]
  cases lookup with
  | glyph glyphIndex => exact runForGlyphIndex_eq hwf' hf hgenerated
  | character charIndex => exact runForCharacterIndex_eq hwf' hf hgenerated

/-- Two characters with glyphs and three without; the first two lookups leave the run of the two cached. -/
def halfGenerated : GSLayoutManager where
  glyphs := ⟨14, fun level => if level = 0 then ⟨0, 0, true⟩ else ⟨2, 5, false⟩, none⟩
  rest := [⟨0, fun _ => ⟨2, 2, true⟩, some [⟨65, 0, 0, 0, 0, 0⟩, ⟨66, 1, 0, 0, 0, 0⟩]⟩,
    ⟨0, fun _ => ⟨0, 3, false⟩, none⟩]
  cached := none

theorem halfGenerated_generated : halfGenerated.Generated 0 2 := by
  intro k r _ hk hr
  obtain rfl | rfl : k = 0 ∨ k = 1 := by omega
  · obtain rfl := Option.some.inj hr
    rfl
  · obtain rfl := Option.some.inj hr
    rfl

theorem halfGenerated_wellFormed : halfGenerated.WellFormed := by
  have hs : ∀ level, 0 < level → stop GlyphRun.level halfGenerated.runs level 0 = 3 := fun level hp =>
    stop_of_forall_lt (by simpa [halfGenerated, runs] using hp)
  refine ⟨rfl, by simp [halfGenerated, SKIP_LIST_DEPTH], fun i r level hr hp hlevel => ?_⟩
  match i, hr with
  | 0, hr =>
    obtain rfl := Option.some.inj hr
    have hh : halfGenerated.glyphs.heads level = ⟨2, 5, false⟩ := if_neg (Nat.ne_of_gt hp)
    have hm : ¬ halfGenerated.Generated 0 3 := fun h => absurd (h 2 _ (by decide) (by decide) rfl) (by decide)
    rw [hh]
    constructor
    · rw [hs level hp]
      rfl
    · rw [hs level hp]
      exact ⟨nofun, fun h => absurd h hm⟩
    · rw [hs level hp]
      exact ⟨2, by decide, by decide, halfGenerated_generated, rfl, nofun⟩
  | 1, hr =>
    obtain rfl := Option.some.inj hr
    exact absurd hp (Nat.not_lt.mpr hlevel)
  | 2, hr =>
    obtain rfl := Option.some.inj hr
    exact absurd hp (Nat.not_lt.mpr hlevel)

theorem lookUp_eq_scanned_halfGenerated :
    ((halfGenerated.after [.character 4, .glyph 1]).lookUp (.character 1)).1 = halfGenerated.scanned (.character 1) :=
  lookUp_eq_scanned halfGenerated_wellFormed nofun _ _
    ⟨2, halfGenerated_generated, by decide⟩

end GSLayoutManager

end GnustepGui.LayoutManager
