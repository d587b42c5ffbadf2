import GnustepGui.LayoutManager.Ranges
import GnustepGui.GlyphGenerator.Indexes

/-!
# The two range maps fit together

A range of glyphs or of characters is extended to whole clusters, and then each of the maps undoes the other, unless there
are characters in between whose run has no glyphs: those belong to the cluster before them, but the map from characters
takes a range that ends in them to the end of the text.
-/

namespace GnustepGui.LayoutManager

open SkipLists Clusters

/-- A range within another; an empty range has its place. -/
def NSRange.Within (inner outer : NSRange) : Prop := outer.location ≤ inner.location ∧ inner.upper ≤ outer.upper

theorem NSRange.span_within {s e s' e' : Nat} (hle : s ≤ e) (hs : s' ≤ s) (he : e ≤ e') :
    NSRange.Within ⟨s, e - s⟩ ⟨s', e' - s'⟩ := by
  refine ⟨hs, ?_⟩
  simp only [NSRange.upper]
  omega

theorem eq_zero_of_upper {range : NSRange} (h : range.upper = 0) : range = ⟨0, 0⟩ := by
  obtain ⟨location, length⟩ := range
  obtain ⟨rfl, rfl⟩ := Nat.add_eq_zero_iff.mp h
  rfl

/-- The insertions that are in a run of a length that starts at an index. -/
def insertedIn (index num : Nat) (storage : List GlyphGenerator.Insertion) : List Glyph :=
  (storage.filter fun x => x.characterIndex < index + num).map fun x =>
    ⟨UInt32.ofNat x.drawn.glyph, x.characterIndex - index, 0, 0, 0, 0⟩

/-- A run once its glyphs have been inserted; there is no memory for glyphs before the first one. -/
def generatedRun (level index num : Nat) (storage : List GlyphGenerator.Insertion) : GlyphRun where
  level := level
  heads := fun _ => ⟨(insertedIn index num storage).length, num, true⟩
  glyphs := if insertedIn index num storage = [] then none else some (insertedIn index num storage)

namespace GSLayoutManager

variable {m m' : GSLayoutManager} {length : Nat}

/-! ## Where the ranges start and end -/

theorem exists_endsAt (m : GSLayoutManager) (length upper : Nat) : ∃ e, m.EndsAt length upper e := by
  by_cases hh : m.HasGlyphs (upper - 1)
  · exact ⟨_, .cluster hh rfl⟩
  · exact ⟨_, .text hh rfl⟩

theorem StartsAt.unique {charIndex s s' : Nat} (h : m.StartsAt charIndex s) (h' : m.StartsAt charIndex s') : s = s' := by
  cases h with
  | cluster hh hf =>
    cases h' with
    | cluster _ hf' => exact IsGreatest.unique hf hf'
    | run hn => exact absurd hh hn
  | run hn run hs hst =>
    cases h' with
    | cluster hh => exact absurd hh hn
    | run _ run' hs' hst' =>
      obtain rfl := Option.some.inj (hs.symm.trans hs')
      rw [hst, hst']

theorem EndsAt.unique {upper e e' : Nat} (h : m.EndsAt length upper e) (h' : m.EndsAt length upper e') : e = e' := by
  cases h with
  | cluster hh hc =>
    cases h' with
    | cluster _ hc' => rw [hc, hc']
    | text hn => exact absurd hh hn
  | text hn he =>
    cases h' with
    | cluster hh => exact absurd hh hn
    | text _ he' => rw [he, he']

theorem StartsAt.le {charIndex s : Nat} (h : m.StartsAt charIndex s) : s ≤ charIndex := by
  cases h with
  | cluster _ hf => exact hf.1.2
  | run _ run hs hst =>
    rw [hst]
    exact scan_le hs

/-- The character before the next one with glyphs, from a character on, is in a run with glyphs. -/
def Meets (m : GSLayoutManager) (x : Nat) : Prop :=
  ∀ p, m.places[rank m.places x]? = some p → m.HasGlyphs (p - 1)

/-! ## Runs without glyphs -/

namespace FullyGenerated

variable (hm : m.FullyGenerated length)
include hm

variable {charIndex : Nat}

theorem not_hasGlyphs (hlt : charIndex < length) (hn : ¬ m.HasGlyphs charIndex) :
    ∃ run r, m.runs[run]? = some r ∧ scan GlyphRun.charLength charIndex m.runs = some run ∧ r.glyphs = none ∧
      before GlyphRun.charLength m.runs run ≤ charIndex ∧
      charIndex < before GlyphRun.charLength m.runs run + r.charLength := by
  obtain ⟨m', run, r, h⟩ := hm.runForCharacterIndex_found hlt
  rw [h.hasGlyphs_iff, not_not] at hn
  exact ⟨run, r, h.run_eq, h.scan_eq, hn, h.le, h.lt⟩

theorem start_of_hasGlyphs (hh : m.HasGlyphs charIndex) :
    ∃ start ∈ m.places, start ≤ charIndex ∧ ∀ i, start ≤ i → i ≤ charIndex → m.HasGlyphs i := by
  obtain ⟨run, r, hs, hr, hne⟩ := hh
  have he := lt_of_scan hs
  have hz := (hm.nominal r (List.mem_of_getElem? hr)).zero_mem hne
  refine ⟨before GlyphRun.charLength m.runs run, hm.place_of_offset hr hz, scan_le hs, fun i hle hi => ?_⟩
  exact ⟨run, r, scan_eq_some hle (Nat.lt_of_le_of_lt hi he), hr, hne⟩

theorem no_place {run p i : Nat} {r : GlyphRun} (hr : m.runs[run]? = some r) (hg : r.glyphs = none)
    (hp : p ∈ m.places) (hle : before GlyphRun.charLength m.runs run ≤ p)
    (hi : i < before GlyphRun.charLength m.runs run + r.charLength) : i < p := by
  by_contra hpi
  have hget := getElem_rank hm.sorted hp
  have hs : rank m.places (p + 1) = rank m.places p := by
    have hidx : ∀ j, p ≤ j → j ≤ p + 1 → rank m.places j = before GlyphRun.glyphLength m.runs run := by
      intro j hj hj'
      obtain ⟨o, rfl⟩ := Nat.exists_eq_add_of_le (Nat.le_trans hle hj)
      rw [hm.rank_run hr (by omega), GlyphRun.offsets_of_none hg]
      rfl
    rw [hidx p (Nat.le_refl p) (Nat.le_succ p), hidx (p + 1) (Nat.le_succ p) (Nat.le_refl _)]
  have hlt : rank m.places p < rank m.places (p + 1) := (lt_rank_iff hm.sorted hget).mpr (Nat.lt_succ_self p)
  omega

theorem hasGlyphs_of_mem {p : Nat} (hp : p ∈ m.places) : m.HasGlyphs p := by
  by_contra hn
  obtain ⟨run, r, hr, -, hg, hle, hlt⟩ := hm.not_hasGlyphs (hm.place_lt p hp) hn
  exact Nat.lt_irrefl p (hm.no_place hr hg hp hle hlt)

theorem not_hasGlyphs_pred {charIndex p : Nat} (hn : ¬ m.HasGlyphs charIndex) (hlt : charIndex < p)
    (hnx : ∀ q ∈ m.places, charIndex < q → p ≤ q) : ¬ m.HasGlyphs (p - 1) := by
  intro hh
  obtain ⟨start, hs, hle, hsm⟩ := hm.start_of_hasGlyphs hh
  by_cases hb : start ≤ charIndex
  · exact hn (hsm charIndex hb (by omega))
  · have := hnx start hs (Nat.lt_of_not_le hb)
    omega

theorem exists_startsAt (hlt : charIndex < length) : ∃ s, m.StartsAt charIndex s := by
  obtain ⟨m', s, p, h⟩ := hm.glyphForCharacter_found hlt
  exact ⟨s, h.startsAt⟩

theorem startsAt_mono {i j s t : Nat} (hi : i ≤ j) (hs : m.StartsAt i s) (ht : m.StartsAt j t)
    (hh : m.HasGlyphs j) : s ≤ t := by
  cases ht with
  | run hn => exact absurd hh hn
  | cluster _ hf =>
    cases hs with
    | cluster _ hf' => exact hf'.mono hf hi
    | run hn run hsc hst =>
      obtain ⟨start, hmem, hle, hsm⟩ := hm.start_of_hasGlyphs hh
      by_cases hb : start ≤ i
      · exact absurd (hsm i hb hi) hn
      · have hmax := hf.2 ⟨hmem, hle⟩
        have hr := scan_le hsc
        omega

end FullyGenerated

/-! ## Asking -/

inductive Query
  | glyphs (glyphRange : NSRange)
  | characters (charRange : NSRange)

def ask (m : GSLayoutManager) (length : Nat) : Query → Except Fault (NSRange × NSRange) × GSLayoutManager
  | .glyphs glyphRange => m.characterRangeForGlyphRange length glyphRange
  | .characters charRange => m.glyphRangeForCharacterRange length charRange

/-- The manager once the queries have been made, which leave a cached run. -/
def afterAsking (m : GSLayoutManager) (length : Nat) (earlier : List Query) : GSLayoutManager :=
  earlier.foldl (fun m query => (m.ask length query).2) m

/-- The range and the actual range that a query returns, whatever has been asked before. -/
def Answers (m : GSLayoutManager) (length : Nat) (query : Query) (range actual : NSRange) : Prop :=
  ∀ earlier, ((m.afterAsking length earlier).ask length query).1 = .ok (range, actual)

theorem Answers.unique {query : Query} {range actual range' actual' : NSRange}
    (h : m.Answers length query range actual) (h' : m.Answers length query range' actual') :
    range = range' ∧ actual = actual' := Prod.mk.inj (Except.ok.inj ((h []).symm.trans (h' [])))

namespace FullyGenerated

variable (hm : m.FullyGenerated length)
include hm

theorem ask_keeps (query : Query) : Keeps length m (m.ask length query).2 := by
  cases query with
  | glyphs glyphRange => exact hm.characterRange_keeps glyphRange
  | characters charRange => exact hm.glyphRange_keeps charRange

theorem afterAsking_keeps (earlier : List Query) : Keeps length m (m.afterAsking length earlier) := by
  induction earlier generalizing m with
  | nil => exact hm.keeps_self
  | cons query earlier ih =>
    have hf := hm.ask_keeps query
    exact hf.trans (ih hf.generated)

theorem answers_of_keeps {query : Query} {range actual : NSRange}
    (h : ∀ m', Keeps length m m' → (m'.ask length query).1 = .ok (range, actual)) :
    m.Answers length query range actual := fun earlier => h _ (hm.afterAsking_keeps earlier)

omit hm in
theorem answers_zero : m.Answers length (.glyphs ⟨0, 0⟩) ⟨0, 0⟩ ⟨0, 0⟩ ∧
    m.Answers length (.characters ⟨0, 0⟩) ⟨0, 0⟩ ⟨0, 0⟩ := ⟨fun _ => rfl, fun _ => rfl⟩

theorem answers_glyphs (glyphRange : NSRange) {p q : Nat} (hpos : 0 < glyphRange.upper)
    (hp : m.places[glyphRange.location]? = some p) (hq : m.places[glyphRange.upper - 1]? = some q) :
    m.Answers length (.glyphs glyphRange) ⟨p, ceiling m.places length (q + 1) - p⟩
      ⟨rank m.places p, rank m.places (q + 1) - rank m.places p⟩ := by
  refine hm.answers_of_keeps fun m' hk => ?_
  have hpl := hk.recached.places
  have h := hk.generated.characterRange_eq hpos (hpl ▸ hp) (hpl ▸ hq)
  rwa [hpl] at h

theorem answers_characters (charRange : NSRange) {s e : Nat} (hp : 0 < charRange.upper)
    (hu : charRange.upper ≤ length) (hl : charRange.location < length)
    (hs : m.StartsAt charRange.location s) (he : m.EndsAt length charRange.upper e) :
    m.Answers length (.characters charRange)
      ⟨rank m.places s, rank m.places charRange.upper - rank m.places s⟩ ⟨s, e - s⟩ := by
  refine hm.answers_of_keeps fun m' hk => ?_
  obtain ⟨s', e', hs', he', h⟩ := hk.generated.glyphRange_eq hp hu hl
  rw [hk.recached.places] at h
  rw [hs.unique (hs'.of_recached hk.recached), he.unique (he'.of_recached hk.recached)]
  exact h

end FullyGenerated

/-! ## Coherence -/

/-- Each of the maps leads from one of the ranges to the other, and extends neither. -/
structure Coupled (m : GSLayoutManager) (length : Nat) (charRange glyphRange : NSRange) : Prop where
  glyphs : m.Answers length (.glyphs glyphRange) charRange glyphRange
  characters : m.Answers length (.characters charRange) glyphRange charRange

/-- The map from a range of glyphs, which is one of the ranges it can be asked for. -/
def GlyphCoherent (m : GSLayoutManager) (length : Nat) (glyphRange : NSRange) : Prop :=
  ∃ charRange actual, m.Answers length (.glyphs glyphRange) charRange actual ∧
    glyphRange.Within actual ∧ m.Coupled length charRange actual ∧
    ∀ larger charRange' actual', glyphRange.Within larger → larger.upper ≤ m.top.glyphLength →
      m.Answers length (.glyphs larger) charRange' actual' →
      charRange.Within charRange' ∧ actual.Within actual'

/-- A glyph is one of a range of characters: its own character is, or another one of its cluster. -/
def BelongsTo (m : GSLayoutManager) (charRange : NSRange) (p : Nat) : Prop :=
  p ∈ charRange ∨ ∃ x ∈ charRange, IsFloor m.places x p

/-- The map from a range of characters. -/
def CharacterCoherent (m : GSLayoutManager) (length : Nat) (charRange : NSRange) : Prop :=
  ∃ glyphRange actual, m.Answers length (.characters charRange) glyphRange actual ∧
    charRange.Within actual ∧ m.Coupled length actual glyphRange ∧
    (∀ larger glyphRange' actual', charRange.Within larger → larger.upper ≤ length →
      m.Answers length (.characters larger) glyphRange' actual' →
      glyphRange.Within glyphRange' ∧ actual.Within actual') ∧
    ∀ k p, m.places[k]? = some p → (k ∈ glyphRange ↔ m.BelongsTo actual p)

/-- Behind the clusters of the glyphs there are no characters without glyphs of their run, up to the next glyph; and
there is a glyph at the start of the range, unless it is the empty one at the start of the text. -/
def GlyphsMeet (m : GSLayoutManager) (glyphRange : NSRange) : Prop :=
  if glyphRange.upper = 0 then m.Meets 0
  else glyphRange.location < m.top.glyphLength ∧
    ∀ q, m.places[glyphRange.upper - 1]? = some q → m.Meets (q + 1)

/-- The run of the first character has glyphs, and behind the range there are no characters without glyphs of their run, up
to the next glyph. -/
def CharactersMeet (m : GSLayoutManager) (length : Nat) (charRange : NSRange) : Prop :=
  charRange.upper = 0 ∨
    charRange.location < length ∧ m.HasGlyphs charRange.location ∧ m.Meets charRange.upper

namespace FullyGenerated

variable (hm : m.FullyGenerated length)
include hm

theorem endsAt_of_meets {upper e : Nat} (hp : 0 < upper) (hmts : m.Meets upper) (he : m.EndsAt length upper e) :
    e = ceiling m.places length upper := by
  cases he with
  | cluster _ hc => exact hc
  | text hn hend =>
    rw [hend, ceiling]
    cases hg : m.places[rank m.places upper]? with
    | none => rfl
    | some p =>
      have hle : upper ≤ p := Nat.le_of_not_lt fun hlt =>
        Nat.lt_irrefl _ ((lt_rank_iff hm.sorted hg).mpr hlt)
      refine absurd (hmts p hg) (hm.not_hasGlyphs_pred hn (by omega) fun q hq hlt => ?_)
      have hc : ceiling m.places length upper ≤ q := ceiling_le_of_mem hm.sorted hq (by omega)
      rwa [ceiling, hg] at hc

theorem endsAt_ceiling_iff {x : Nat} (hx : x ≤ length) :
    m.EndsAt length (ceiling m.places length x) (ceiling m.places length x) ↔ m.Meets x := by
  constructor
  · intro h p hg
    have hp : ceiling m.places length x = p := by rw [ceiling, hg]; rfl
    rw [hp] at h
    cases h with
    | cluster hh _ => exact hh
    | text _ he => exact absurd he (Nat.ne_of_lt (hm.place_lt p (List.mem_of_getElem? hg)))
  · intro hmts
    by_cases hh : m.HasGlyphs (ceiling m.places length x - 1)
    · exact .cluster hh (ceiling_ceiling hm.sorted hx).symm
    · refine .text hh ?_
      cases hg : m.places[rank m.places x]? with
      | none => rw [ceiling, hg]; rfl
      | some p =>
        rw [ceiling, hg] at hh
        exact absurd (hmts p hg) hh

theorem le_of_endsAt {upper e : Nat} (hu : upper ≤ length) (he : m.EndsAt length upper e) : upper ≤ e := by
  cases he with
  | cluster _ hc => exact hc ▸ le_ceiling hm.sorted hu
  | text _ hend => exact hend ▸ hu

theorem startsAt_self {s : Nat} (hs : s ∈ m.places) : m.StartsAt s s :=
  .cluster (hm.hasGlyphs_of_mem hs) (isFloor_self hs)

theorem ceiling_le (x : Nat) : ceiling m.places length x ≤ length := by
  obtain hmem | ht := ceiling_eq_or m.places length x
  · exact Nat.le_of_lt (hm.place_lt _ hmem)
  · exact Nat.le_of_eq ht

variable {s x : Nat}

/-- The characters from one with glyphs up to the next one behind some others, and their glyphs. -/
theorem answers_span (hs : s ∈ m.places) (hx : x ≤ length) (hp : 0 < rank m.places x)
    (hle : s ≤ ceiling m.places length x) :
    m.Answers length (.glyphs ⟨rank m.places s, rank m.places x - rank m.places s⟩)
      ⟨s, ceiling m.places length x - s⟩ ⟨rank m.places s, rank m.places x - rank m.places s⟩ := by
  have hr : rank m.places s ≤ rank m.places x := by
    rw [← rank_ceiling hm.sorted hx]
    exact rank_mono _ hle
  have hb := rank_le_length m.places x
  have hu : NSRange.upper ⟨rank m.places s, rank m.places x - rank m.places s⟩ = rank m.places x :=
    Nat.add_sub_cancel' hr
  obtain ⟨q, hq⟩ : ∃ q, m.places[rank m.places x - 1]? = some q := ⟨_, List.getElem?_eq_getElem (by omega)⟩
  have hl := rank_last hm.sorted hp hq
  have h := hm.answers_glyphs ⟨rank m.places s, rank m.places x - rank m.places s⟩
    (by rw [hu]; exact hp) (getElem_rank hm.sorted hs) (by rw [hu]; exact hq)
  rwa [hl, ceiling, hl] at h

theorem coupled_iff (hs : s ∈ m.places) (hx : x ≤ length) (hp : 0 < rank m.places x)
    (hle : s ≤ ceiling m.places length x) :
    m.Coupled length ⟨s, ceiling m.places length x - s⟩ ⟨rank m.places s, rank m.places x - rank m.places s⟩ ↔
      m.Meets x := by
  have hu : NSRange.upper ⟨s, ceiling m.places length x - s⟩ = ceiling m.places length x := Nat.add_sub_cancel' hle
  have hxp : 0 < x := by
    by_contra hz
    rw [Nat.eq_zero_of_not_pos hz, rank_eq_zero fun _ _ => Nat.zero_le _] at hp
    exact Nat.lt_irrefl 0 hp
  have hcl := le_ceiling hm.sorted hx
  have ha : ∀ e, m.EndsAt length (ceiling m.places length x) e →
      m.Answers length (.characters ⟨s, ceiling m.places length x - s⟩)
        ⟨rank m.places s, rank m.places x - rank m.places s⟩ ⟨s, e - s⟩ := by
    intro e he
    have h := hm.answers_characters ⟨s, ceiling m.places length x - s⟩ (by rw [hu]; omega)
      (by rw [hu]; exact hm.ceiling_le x) (hm.place_lt s hs) (hm.startsAt_self hs) (by rw [hu]; exact he)
    rwa [hu, rank_ceiling hm.sorted hx] at h
  constructor
  · intro hc
    obtain ⟨e, he⟩ := exists_endsAt m length (ceiling m.places length x)
    have hl := congrArg NSRange.length ((ha e he).unique hc.characters).2
    have hend := hm.le_of_endsAt (hm.ceiling_le x) he
    simp only at hl
    obtain rfl : e = ceiling m.places length x := by omega
    exact (hm.endsAt_ceiling_iff hx).mp he
  · intro hmts
    exact ⟨hm.answers_span hs hx hp hle, ha _ ((hm.endsAt_ceiling_iff hx).mpr hmts)⟩

/-! ## From glyphs -/

omit hm in
theorem place_of_lt {k : Nat} (hk : k < m.places.length) : ∃ p, m.places[k]? = some p :=
  ⟨_, List.getElem?_eq_getElem hk⟩

theorem glyphCoherent_zero_iff : m.GlyphCoherent length ⟨0, 0⟩ ↔ m.Meets 0 := by
  have hr : rank m.places 0 = 0 := rank_eq_zero fun _ _ => Nat.zero_le _
  constructor
  · rintro ⟨charRange, actual, ha, -, -, hmn⟩ p hp
    rw [hr] at hp
    obtain ⟨rfl, rfl⟩ := answers_zero.1.unique ha
    have hl := hm.answers_glyphs ⟨0, 1⟩ (Nat.succ_pos _) hp hp
    have hle := (hmn ⟨0, 1⟩ _ _ ⟨Nat.le_refl _, Nat.zero_le _⟩
      (by rw [hm.top_glyphLength_eq]; exact (List.getElem?_eq_some_iff.mp hp).1) hl).1.1
    obtain rfl : p = 0 := Nat.le_zero.mp hle
    exact hm.hasGlyphs_of_mem (List.mem_of_getElem? hp)
  · intro hmts
    refine ⟨_, _, answers_zero.1, ⟨Nat.le_refl _, Nat.le_refl _⟩, ⟨answers_zero.1, answers_zero.2⟩,
      fun larger charRange' actual' hw hu ha => ?_⟩
    have hloc : larger.location = 0 := Nat.le_zero.mp hw.1
    by_cases hpos : larger.upper = 0
    · obtain rfl : larger = ⟨0, 0⟩ := eq_zero_of_upper hpos
      obtain ⟨rfl, rfl⟩ := answers_zero.1.unique ha
      exact ⟨⟨Nat.le_refl _, Nat.le_refl _⟩, ⟨Nat.le_refl _, Nat.le_refl _⟩⟩
    · rw [hm.top_glyphLength_eq] at hu
      obtain ⟨p, hp⟩ := place_of_lt (by omega : 0 < m.places.length)
      obtain ⟨q, hq⟩ := place_of_lt (by omega : larger.upper - 1 < m.places.length)
      -- the first glyph is of the first character
      have hz : p = 0 := by
        obtain ⟨start, hs, hle, -⟩ := hm.start_of_hasGlyphs (hmts p (by rw [hr]; exact hp))
        obtain ⟨k, hk⟩ := List.getElem?_of_mem hs
        have := le_of_getElem hm.sorted (Nat.zero_le k) hp hk
        omega
      obtain ⟨rfl, rfl⟩ := (hm.answers_glyphs larger (by omega) (by rw [hloc]; exact hp) hq).unique ha
      rw [hz, hr]
      exact ⟨⟨Nat.le_refl _, Nat.zero_le _⟩, ⟨Nat.le_refl _, Nat.zero_le _⟩⟩

theorem glyphCoherent_iff {glyphRange : NSRange} (hu : glyphRange.upper ≤ m.top.glyphLength) :
    m.GlyphCoherent length glyphRange ↔ m.GlyphsMeet glyphRange := by
  rw [GlyphsMeet]
  by_cases hpos : glyphRange.upper = 0
  · rw [if_pos hpos, eq_zero_of_upper hpos]
    exact hm.glyphCoherent_zero_iff
  rw [if_neg hpos]
  rw [hm.top_glyphLength_eq] at hu ⊢
  obtain ⟨q, hq⟩ := place_of_lt (by omega : glyphRange.upper - 1 < m.places.length)
  have hqlt : q + 1 ≤ length := hm.place_lt q (List.mem_of_getElem? hq)
  have hcn : glyphRange.upper - 1 < rank m.places (q + 1) := (lt_rank_iff hm.sorted hq).mpr (Nat.lt_succ_self q)
  by_cases hl : glyphRange.location < m.places.length
  · obtain ⟨p, hp⟩ := place_of_lt hl
    have hmem := List.mem_of_getElem? hp
    have ha := hm.answers_glyphs glyphRange (Nat.pos_of_ne_zero hpos) hp hq
    have hle : p ≤ ceiling m.places length (q + 1) := by
      by_cases hpq : p ≤ q
      · exact Nat.le_trans hpq (Nat.le_of_succ_le (le_ceiling hm.sorted hqlt))
      · -- an empty range, at the first glyph of a cluster
        have hn : ¬ glyphRange.location < rank m.places (q + 1) := by
          rw [lt_rank_iff hm.sorted hp]
          exact fun h => hpq (Nat.le_of_lt_succ h)
        have hrn : rank m.places (q + 1) = glyphRange.location := by
          unfold NSRange.upper at hcn
          omega
        rw [ceiling, hrn, hp]
        exact Nat.le_refl p
    have hs : rank m.places p ≤ glyphRange.location := Nat.le_of_not_lt fun hlt =>
      Nat.lt_irrefl p ((lt_rank_iff hm.sorted hp).mp hlt)
    have hr : rank m.places p ≤ rank m.places (q + 1) := by
      rw [← rank_ceiling hm.sorted hqlt]
      exact rank_mono _ hle
    have hc := hm.coupled_iff hmem hqlt (by omega) hle
    constructor
    · rintro ⟨charRange, actual, ha', -, hc', -⟩
      obtain ⟨rfl, rfl⟩ := ha.unique ha'
      refine ⟨hl, fun q' hq' => ?_⟩
      obtain rfl := Option.some.inj (hq.symm.trans hq')
      exact hc.mp hc'
    · rintro ⟨-, hmts⟩
      refine ⟨_, _, ha, ⟨hs, ?_⟩, hc.mpr (hmts q hq), ?_⟩
      · show glyphRange.upper ≤ rank m.places p + (rank m.places (q + 1) - rank m.places p)
        omega
      · intro larger charRange' actual' hw hlar ha'
        rw [hm.top_glyphLength_eq] at hlar
        have hup := hw.2
        obtain ⟨p', hp'⟩ := place_of_lt (Nat.lt_of_le_of_lt hw.1 hl)
        obtain ⟨q', hq'⟩ := place_of_lt (by omega : larger.upper - 1 < m.places.length)
        obtain ⟨rfl, rfl⟩ := (hm.answers_glyphs larger (by omega) hp' hq').unique ha'
        have hpp := le_of_getElem hm.sorted hw.1 hp' hp
        have hqq := le_of_getElem hm.sorted (by omega : glyphRange.upper - 1 ≤ larger.upper - 1) hq hq'
        have hq'lt : q' + 1 ≤ length := hm.place_lt q' (List.mem_of_getElem? hq')
        exact ⟨NSRange.span_within hle hpp (ceiling_mono hm.sorted hm.place_lt (by omega) hq'lt),
          NSRange.span_within hr (rank_mono _ hpp) (rank_mono _ (by omega))⟩
  · constructor
    · rintro ⟨charRange, actual, ha, -⟩
      have he := (hm.characterRange_at_end (Nat.pos_of_ne_zero hpos) (Nat.le_of_not_lt hl)).symm.trans (ha [])
      cases he
    · rintro ⟨hlt, -⟩
      exact absurd hlt hl

/-! ## From characters -/

theorem characterCoherent_zero : m.CharacterCoherent length ⟨0, 0⟩ := by
  refine ⟨_, _, answers_zero.2, ⟨Nat.le_refl _, Nat.le_refl _⟩, ⟨answers_zero.1, answers_zero.2⟩,
    fun larger glyphRange' actual' hw hu ha => ?_, fun k p _ => ⟨fun h => ?_, fun h => ?_⟩⟩
  · have hl : larger.location = 0 := Nat.le_zero.mp hw.1
    by_cases hp : larger.upper = 0
    · obtain rfl : larger = ⟨0, 0⟩ := eq_zero_of_upper hp
      obtain ⟨rfl, rfl⟩ := answers_zero.2.unique ha
      exact ⟨⟨Nat.le_refl _, Nat.le_refl _⟩, ⟨Nat.le_refl _, Nat.le_refl _⟩⟩
    · obtain ⟨s, hs⟩ := hm.exists_startsAt (by omega : larger.location < length)
      obtain ⟨e, he⟩ := exists_endsAt m length larger.upper
      obtain ⟨rfl, rfl⟩ := (hm.answers_characters larger (Nat.pos_of_ne_zero hp) hu (by omega) hs he).unique ha
      obtain rfl : s = 0 := by
        have := hs.le
        omega
      rw [rank_eq_zero fun _ _ => Nat.zero_le _]
      exact ⟨⟨Nat.le_refl _, Nat.zero_le _⟩, ⟨Nat.le_refl _, Nat.zero_le _⟩⟩
  · exact absurd h.2 (Nat.not_lt_zero k)
  · obtain hmem | ⟨x, hmem, -⟩ := h
    · exact absurd hmem.2 (Nat.not_lt_zero p)
    · exact absurd hmem.2 (Nat.not_lt_zero x)

theorem mem_iff_belongsTo {s x k p : Nat} (hs : s ∈ m.places) (hx : x ≤ length) (hp : m.places[k]? = some p) :
    k ∈ (⟨rank m.places s, rank m.places x - rank m.places s⟩ : NSRange) ↔
      m.BelongsTo ⟨s, ceiling m.places length x - s⟩ p := by
  have hmem := List.mem_of_getElem? hp
  have hfst : rank m.places s ≤ k ↔ s ≤ p := by rw [← Nat.not_lt, lt_rank_iff hm.sorted hp, Nat.not_lt]
  have hl : k < rank m.places x ↔ p < ceiling m.places length x := by
    rw [← rank_ceiling hm.sorted hx, lt_rank_iff hm.sorted hp]
  have hsp : p ∈ (⟨s, ceiling m.places length x - s⟩ : NSRange) ↔ s ≤ p ∧ p < ceiling m.places length x := by
    rw [NSRange.mem_iff]
    simp only
    omega
  have hg : k ∈ (⟨rank m.places s, rank m.places x - rank m.places s⟩ : NSRange) ↔
      rank m.places s ≤ k ∧ k < rank m.places x := by
    rw [NSRange.mem_iff]
    simp only
    omega
  rw [hg, hfst, hl, ← hsp]
  refine ⟨Or.inl, fun h => h.elim id ?_⟩
  rintro ⟨i, hi, hf⟩
  rw [NSRange.mem_iff] at hi
  simp only at hi
  have hle := hf.2 ⟨hs, hi.1⟩
  have hup := hf.1.2
  exact hsp.mpr ⟨hle, by omega⟩

theorem mem_of_answers_back {charRange : NSRange} {s e : Nat} (hpos : 0 < charRange.upper)
    (hu : charRange.upper ≤ length) (hs : m.StartsAt charRange.location s) (he : m.EndsAt length charRange.upper e)
    (hg : m.Answers length (.glyphs ⟨rank m.places s, rank m.places charRange.upper - rank m.places s⟩)
      ⟨s, e - s⟩ ⟨rank m.places s, rank m.places charRange.upper - rank m.places s⟩) :
    s ∈ m.places ∧ 0 < rank m.places charRange.upper := by
  have hend := hm.le_of_endsAt hu he
  have hst := hs.le
  have hbn := rank_le_length m.places charRange.upper
  have hmn : rank m.places s ≤ rank m.places charRange.upper := rank_mono _ (Nat.le_trans hst (Nat.le_add_right _ _))
  have hgly : NSRange.upper ⟨rank m.places s, rank m.places charRange.upper - rank m.places s⟩ =
      rank m.places charRange.upper := Nat.add_sub_cancel' hmn
  by_cases hn : rank m.places charRange.upper = 0
  · -- no glyphs up to the end of the range: the map back gives the empty range
    have hz := eq_zero_of_upper (hgly.trans hn)
    rw [hz] at hg
    have heq := (answers_zero.1.unique hg).1
    rw [NSRange.mk.injEq] at heq
    omega
  · by_cases hlt : rank m.places s < m.places.length
    · obtain ⟨p, hp⟩ := place_of_lt hlt
      obtain ⟨q, hq⟩ := place_of_lt (by omega : rank m.places charRange.upper - 1 < m.places.length)
      have hb := hm.answers_glyphs _ (by rw [hgly]; omega) hp (by rw [hgly]; exact hq)
      have hsm := congrArg NSRange.location (hb.unique hg).1
      simp only at hsm
      exact ⟨hsm ▸ List.mem_of_getElem? hp, Nat.pos_of_ne_zero hn⟩
    · have herr := (hm.characterRange_at_end (by rw [hgly]; omega) (Nat.le_of_not_lt hlt)).symm.trans (hg [])
      cases herr

theorem rank_pos (hs : s ∈ m.places) (hp : x ≠ 0) (hmts : m.Meets x) (hle : s ≤ x) : 0 < rank m.places x := by
  by_cases hlt : s < x
  · exact Nat.lt_of_le_of_lt (Nat.zero_le _) ((lt_rank_iff hm.sorted (getElem_rank hm.sorted hs)).mpr hlt)
  · obtain rfl : s = x := by omega
    obtain ⟨start, hst, hb, -⟩ := hm.start_of_hasGlyphs (hmts s (getElem_rank hm.sorted hs))
    exact Nat.lt_of_le_of_lt (Nat.zero_le _)
      ((lt_rank_iff hm.sorted (getElem_rank hm.sorted hst)).mpr (by omega))

theorem characterCoherent_iff {charRange : NSRange} (hu : charRange.upper ≤ length) :
    m.CharacterCoherent length charRange ↔ m.CharactersMeet length charRange := by
  rw [CharactersMeet]
  by_cases hpos : charRange.upper = 0
  · rw [eq_zero_of_upper hpos]
    exact ⟨fun _ => .inl rfl, fun _ => hm.characterCoherent_zero⟩
  rw [or_iff_right hpos]
  by_cases hl : charRange.location < length
  · obtain ⟨s, hs⟩ := hm.exists_startsAt hl
    obtain ⟨e, he⟩ := exists_endsAt m length charRange.upper
    have ha := hm.answers_characters charRange (Nat.pos_of_ne_zero hpos) hu hl hs he
    have hst := hs.le
    have hin : charRange.location ≤ charRange.upper := Nat.le_add_right _ _
    have hle : s ≤ ceiling m.places length charRange.upper :=
      Nat.le_trans (Nat.le_trans hst hin) (le_ceiling hm.sorted hu)
    constructor
    · rintro ⟨glyphRange, actual, ha', -, hc, -⟩
      obtain ⟨rfl, rfl⟩ := ha.unique ha'
      obtain ⟨hmem, hrn⟩ := hm.mem_of_answers_back (Nat.pos_of_ne_zero hpos) hu hs he hc.glyphs
      have hb := (hm.answers_span hmem hu hrn hle).unique hc.glyphs
      have hend := hm.le_of_endsAt hu he
      have hlen := congrArg NSRange.length hb.1
      simp only at hlen
      obtain rfl : e = ceiling m.places length charRange.upper := by omega
      refine ⟨hl, ?_, (hm.coupled_iff hmem hu hrn hle).mp hc⟩
      by_contra hn
      obtain ⟨run, r, hr, hsc, hg, -, hlt⟩ := hm.not_hasGlyphs hl hn
      cases hs with
      | cluster hh => exact hn hh
      | run _ run' hsc' hst' =>
        obtain rfl := Option.some.inj (hsc.symm.trans hsc')
        have := hm.no_place hr hg hmem (Nat.le_of_eq hst'.symm) hlt
        omega
    · rintro ⟨-, hh, hmts⟩
      obtain rfl := hm.endsAt_of_meets (Nat.pos_of_ne_zero hpos) hmts he
      have hmem : s ∈ m.places := by
        cases hs with
        | cluster _ hf => exact hf.1.1
        | run hn => exact absurd hh hn
      have hrn := hm.rank_pos hmem hpos hmts (Nat.le_trans hst hin)
      refine ⟨_, _, ha, ⟨hst, ?_⟩, (hm.coupled_iff hmem hu hrn hle).mpr hmts,
        fun larger glyphRange' actual' hw hlar ha' => ?_, fun k p hp => hm.mem_iff_belongsTo hmem hu hp⟩
      · have hend : charRange.upper ≤ ceiling m.places length charRange.upper := le_ceiling hm.sorted hu
        show charRange.upper ≤ s + (ceiling m.places length charRange.upper - s)
        omega
      · have hl' := Nat.lt_of_le_of_lt hw.1 hl
        have hup := hw.2
        obtain ⟨s', hs'⟩ := hm.exists_startsAt hl'
        obtain ⟨e', he'⟩ := exists_endsAt m length larger.upper
        obtain ⟨rfl, rfl⟩ := (hm.answers_characters larger (by omega) hlar hl' hs' he').unique ha'
        have hss := hm.startsAt_mono hw.1 hs' hs hh
        have hee : ceiling m.places length charRange.upper ≤ e' := by
          cases he' with
          | cluster _ hcl' => exact hcl' ▸ ceiling_mono hm.sorted hm.place_lt hup hlar
          | text _ hend' => exact hend' ▸ hm.ceiling_le _
        exact ⟨NSRange.span_within (rank_mono _ (Nat.le_trans hst hin)) (rank_mono _ hss) (rank_mono _ hup),
          NSRange.span_within hle hss hee⟩
  · constructor
    · rintro ⟨glyphRange, actual, ha, -, hc, -⟩
      have hend := (hm.glyphRange_at_end (Nat.pos_of_ne_zero hpos) (Nat.le_of_not_lt hl)).symm.trans (ha [])
      obtain ⟨rfl, rfl⟩ := Prod.mk.inj (Except.ok.inj hend)
      by_cases hemp : m.places.length = 0
      · have hg := hc.glyphs
        rw [hemp] at hg
        have heq := congrArg NSRange.location (answers_zero.1.unique hg).1
        simp only at heq
        omega
      · have hg : 0 < NSRange.upper ⟨m.places.length, 0⟩ := Nat.pos_of_ne_zero hemp
        have herr := (hm.characterRange_at_end hg (Nat.le_refl _)).symm.trans (hc.glyphs [])
        cases herr
    · rintro ⟨hlt, -⟩
      exact absurd hlt hl

end FullyGenerated

/-- The runs of the text `a`, U+00E9, `b`, in a font that has glyphs for the letters only. -/
def bareRun : GSLayoutManager where
  glyphs := ⟨14, fun level => if level = 0 then ⟨0, 0, true⟩ else ⟨2, 3, true⟩, none⟩
  rest := [generatedRun 0 0 1 [⟨⟨0x61, 0, 1⟩, 0, 0⟩], generatedRun 0 1 1 [], generatedRun 0 2 1 [⟨⟨0x62, 0, 1⟩, 1, 2⟩]]
  cached := none

theorem bareRun_wellFormed : bareRun.WellFormed := by
  have hs : ∀ level, 0 < level → stop GlyphRun.level bareRun.runs level 0 = 4 := fun level hp =>
    stop_of_forall_lt (by simpa [bareRun, runs, generatedRun] using hp)
  refine ⟨rfl, by simp [bareRun, generatedRun, SKIP_LIST_DEPTH], fun i r level hr hp hl => ?_⟩
  cases i with
  | zero =>
    obtain rfl := Option.some.inj hr
    have hh : bareRun.glyphs.heads level = ⟨2, 3, true⟩ := if_neg (Nat.ne_of_gt hp)
    have ha : bareRun.Generated 0 4 := by
      intro k r _ hk hr
      have hmem := List.mem_of_getElem? hr
      simp only [bareRun, runs, List.mem_cons, List.not_mem_nil, or_false] at hmem
      obtain rfl | rfl | rfl | rfl := hmem <;> rfl
    rw [hh]
    constructor
    · rw [hs level hp]
      rfl
    · rw [hs level hp]
      exact ⟨fun _ => ha, fun _ => rfl⟩
    · rw [hs level hp]
      exact ⟨4, by decide, by decide, ha, rfl, fun _ => rfl⟩
  | succ i =>
    have hmem := List.mem_of_getElem? (l := bareRun.rest) hr
    simp only [bareRun, List.mem_cons, List.not_mem_nil, or_false] at hmem
    obtain rfl | rfl | rfl := hmem <;> exact absurd hp (Nat.not_lt.mpr hl)

theorem bareRun_fullyGenerated : bareRun.FullyGenerated 3 := by
  refine ⟨bareRun_wellFormed, fun found h => absurd h (Option.not_mem_none found), ?_, rfl, ?_⟩
  · intro r hr
    simp only [bareRun, runs, List.mem_cons, List.not_mem_nil, or_false] at hr
    obtain rfl | rfl | rfl | rfl := hr <;> rfl
  · intro r hr
    simp only [bareRun, runs, List.mem_cons, List.not_mem_nil, or_false] at hr
    obtain rfl | rfl | rfl | rfl := hr
    · exact ⟨rfl, by decide, by decide, List.Pairwise.nil, by decide⟩
    · exact ⟨rfl, by decide, by decide, by decide, by decide⟩
    · exact ⟨rfl, by decide, by decide, List.Pairwise.nil, by decide⟩
    · exact ⟨rfl, by decide, by decide, by decide, by decide⟩

end GSLayoutManager

end GnustepGui.LayoutManager
