import GnustepGui.LayoutManager.RunSearch
import GnustepGui.LayoutManager.Mapping
import GnustepGui.Library.Clusters

/-!
# The characters of the glyphs

In a run whose glyphs have been generated they are in the order of their characters, and the first one is of the first
character. So are all glyphs, one run after the other: `places` are the characters of all of them.
-/

namespace GnustepGui.LayoutManager

open SkipLists Clusters

/-! ## Nominal runs -/

def GlyphRun.offsets (r : GlyphRun) : List Nat := (r.glyphs.getD []).map Glyph.charOffset

/-- A run as glyph generation leaves it: without glyphs, or with those of its characters in order from the first. -/
structure GlyphRun.Nominal (r : GlyphRun) : Prop where
  length_eq : r.offsets.length = r.glyphLength
  glyphs_ne : r.glyphs ≠ some []
  head_eq : ∀ o ∈ r.offsets.head?, o = 0
  sorted : r.offsets.Pairwise (· ≤ ·)
  offset_lt : ∀ o ∈ r.offsets, o < r.charLength

/-- The glyphs of all characters of the text storage, which has this length, have been generated. -/
structure GSLayoutManager.FullyGenerated (m : GSLayoutManager) (length : Nat) : Prop where
  wellFormed : m.WellFormed
  cacheFits : m.CacheFits
  complete : ∀ r ∈ m.runs, r.head.complete = true
  charLength : m.top.charLength = length
  nominal : ∀ r ∈ m.runs, r.Nominal

/-- The characters of the glyphs of runs that start at a character. -/
def placesFrom : Nat → List GlyphRun → List Nat
  | _, [] => []
  | cpos, r :: runs => r.offsets.map (· + cpos) ++ placesFrom (cpos + r.charLength) runs

def GSLayoutManager.places (m : GSLayoutManager) : List Nat := placesFrom 0 m.runs

variable {runs : List GlyphRun} {r : GlyphRun} {run cpos : Nat}

theorem GlyphRun.offsets_of_glyphs {glyphs : List Glyph} (h : r.glyphs = some glyphs) :
    r.offsets = glyphs.map Glyph.charOffset := by
  rw [offsets, h]
  rfl

theorem GlyphRun.offsets_of_none (h : r.glyphs = none) : r.offsets = [] := by
  rw [offsets, h]
  rfl

theorem GlyphRun.Nominal.offsets_ne (hr : r.Nominal) (h : r.glyphs ≠ none) : r.offsets ≠ [] := by
  obtain ⟨glyphs, hg⟩ := Option.ne_none_iff_exists'.mp h
  rw [offsets_of_glyphs hg]
  intro he
  rw [List.map_eq_nil_iff] at he
  exact hr.glyphs_ne (he ▸ hg)

theorem GlyphRun.Nominal.zero_mem (hr : r.Nominal) (h : r.glyphs ≠ none) : 0 ∈ r.offsets := by
  obtain ⟨o, rest, hof⟩ := List.exists_cons_of_ne_nil (hr.offsets_ne h)
  have ho : o = 0 := hr.head_eq o (by rw [hof]; rfl)
  rw [hof, ho]
  exact List.mem_cons_self

/-! ## Their order -/

section

variable (hnominal : ∀ r ∈ runs, r.Nominal)
include hnominal

theorem length_placesFrom (cpos : Nat) :
    (placesFrom cpos runs).length = before GlyphRun.glyphLength runs runs.length := by
  induction runs generalizing cpos with
  | nil => rfl
  | cons r runs ih =>
    obtain ⟨hr, hrn⟩ := List.forall_mem_cons.mp hnominal
    rw [placesFrom, List.length_append, List.length_map, hr.length_eq, ih hrn, List.length_cons, before_cons_succ]

theorem placesFrom_bounds (cpos : Nat) :
    ∀ p ∈ placesFrom cpos runs, cpos ≤ p ∧ p < cpos + before GlyphRun.charLength runs runs.length := by
  induction runs generalizing cpos with
  | nil => nofun
  | cons r runs ih =>
    obtain ⟨hr, hrn⟩ := List.forall_mem_cons.mp hnominal
    intro p hp
    rw [List.length_cons, before_cons_succ]
    obtain hf | hrs := List.mem_append.mp hp
    · obtain ⟨o, ho, rfl⟩ := List.mem_map.mp hf
      have := hr.offset_lt o ho
      omega
    · have := ih hrn _ p hrs
      omega

theorem sorted_placesFrom (cpos : Nat) : (placesFrom cpos runs).Pairwise (· ≤ ·) := by
  induction runs generalizing cpos with
  | nil => exact List.Pairwise.nil
  | cons r runs ih =>
    obtain ⟨hr, hrn⟩ := List.forall_mem_cons.mp hnominal
    refine List.pairwise_append.mpr ⟨?_, ih hrn _, fun p hp q hq => ?_⟩
    · exact hr.sorted.map _ fun _ _ hle => Nat.add_le_add_right hle cpos
    · obtain ⟨o, ho, rfl⟩ := List.mem_map.mp hp
      have hlt := hr.offset_lt o ho
      have hle := (placesFrom_bounds hrn _ q hq).1
      omega

/-- The glyphs before a character of a run are those of the runs before, and those before it in the run. -/
theorem rank_placesFrom (cpos : Nat) {o : Nat} (hrun : runs[run]? = some r) (ho : o ≤ r.charLength) :
    rank (placesFrom cpos runs) (cpos + before GlyphRun.charLength runs run + o) =
      before GlyphRun.glyphLength runs run + rank r.offsets o := by
  induction runs generalizing cpos run with
  | nil => cases hrun
  | cons r' runs ih =>
    obtain ⟨hr', hrn⟩ := List.forall_mem_cons.mp hnominal
    rw [placesFrom, rank_append]
    cases run with
    | zero =>
      obtain rfl := Option.some.inj hrun
      have hrs : rank (placesFrom (cpos + r'.charLength) runs) (cpos + o) = 0 :=
        rank_eq_zero fun p hp => by
          have := (placesFrom_bounds hrn _ p hp).1
          omega
      rw [before_zero, before_zero, Nat.add_zero, hrs, Nat.add_comm cpos o, rank_map_add]
      omega
    | succ run =>
      have hf : rank (r'.offsets.map (· + cpos))
          (cpos + before GlyphRun.charLength (r' :: runs) (run + 1) + o) = r'.glyphLength := by
        rw [← hr'.length_eq, rank_eq_length, List.length_map]
        intro p hp
        obtain ⟨o', ho', rfl⟩ := List.mem_map.mp hp
        have := hr'.offset_lt o' ho'
        rw [before_cons_succ]
        omega
      have hrs := ih hrn (cpos + r'.charLength) hrun
      rw [hf, before_cons_succ, before_cons_succ, ← Nat.add_assoc cpos, hrs, Nat.add_assoc]

theorem getElem_placesFrom (cpos : Nat) {i : Nat} (hrun : runs[run]? = some r) (hi : i < r.glyphLength) :
    (placesFrom cpos runs)[before GlyphRun.glyphLength runs run + i]? =
      r.offsets[i]?.map (· + (cpos + before GlyphRun.charLength runs run)) := by
  induction runs generalizing cpos run with
  | nil => cases hrun
  | cons r' runs ih =>
    obtain ⟨hr', hrn⟩ := List.forall_mem_cons.mp hnominal
    rw [placesFrom]
    cases run with
    | zero =>
      obtain rfl := Option.some.inj hrun
      have hlt : i < (r'.offsets.map (· + cpos)).length := by rw [List.length_map, hr'.length_eq]; exact hi
      rw [before_zero, before_zero, Nat.zero_add, List.getElem?_append_left hlt, List.getElem?_map]
      rfl
    | succ run =>
      have hle : (r'.offsets.map (· + cpos)).length ≤ r'.glyphLength + before GlyphRun.glyphLength runs run + i := by
        rw [List.length_map, hr'.length_eq]
        omega
      have hidx : r'.glyphLength + before GlyphRun.glyphLength runs run + i - (r'.offsets.map (· + cpos)).length =
          before GlyphRun.glyphLength runs run + i := by
        rw [List.length_map, hr'.length_eq]
        omega
      rw [before_cons_succ, before_cons_succ, List.getElem?_append_right hle, hidx, ih hrn _ hrun, Nat.add_assoc cpos]

end

/-! ## In a layout manager -/

namespace GSLayoutManager

/-- The run that a character is in has glyphs. -/
def HasGlyphs (m : GSLayoutManager) (charIndex : Nat) : Prop :=
  ∃ run r, scan GlyphRun.charLength charIndex m.runs = some run ∧ m.runs[run]? = some r ∧ r.glyphs ≠ none

namespace FullyGenerated

variable {m : GSLayoutManager} {length : Nat} (hm : m.FullyGenerated length)
include hm

theorem length_eq : length = before GlyphRun.charLength m.runs m.runs.length := by
  rw [← hm.charLength, top_charLength hm.wellFormed]

theorem generated (i j : Nat) : m.Generated i j := fun _ _ _ _ hr => hm.complete _ (List.mem_of_getElem? hr)

theorem sorted : m.places.Pairwise (· ≤ ·) := sorted_placesFrom hm.nominal 0

theorem place_lt : ∀ p ∈ m.places, p < length := by
  intro p hp
  have := (placesFrom_bounds hm.nominal 0 p hp).2
  rw [hm.length_eq]
  omega

theorem length_places : m.places.length = before GlyphRun.glyphLength m.runs m.runs.length :=
  length_placesFrom hm.nominal 0

theorem top_complete : m.top.complete = true :=
  (complete_iff hm.wellFormed (runs_zero hm.wellFormed).1 (runs_zero hm.wellFormed).2).mpr (hm.generated _ _)

theorem top_glyphLength_eq : m.top.glyphLength = m.places.length := by
  have hs := glyphLength_sum hm.wellFormed (runs_zero hm.wellFormed).1 (runs_zero hm.wellFormed).2 hm.top_complete
  rw [stop_of_forall_lt hm.wellFormed.level_lt, before_zero, Nat.zero_add] at hs
  rw [hm.length_places]
  exact hs.symm

theorem misses_nothing : m.missesGlyphs length = false := by
  rw [missesGlyphs, hm.charLength, hm.top_complete]
  simp

theorem rank_run {o : Nat} (hr : m.runs[run]? = some r) (ho : o ≤ r.charLength) :
    rank m.places (before GlyphRun.charLength m.runs run + o) =
      before GlyphRun.glyphLength m.runs run + rank r.offsets o := by
  have h := rank_placesFrom hm.nominal 0 hr ho
  rwa [Nat.zero_add] at h

theorem getElem_run {i : Nat} (hr : m.runs[run]? = some r) (hi : i < r.glyphLength) :
    m.places[before GlyphRun.glyphLength m.runs run + i]? =
      r.offsets[i]?.map (· + before GlyphRun.charLength m.runs run) := by
  have h := getElem_placesFrom hm.nominal 0 hr hi
  rwa [Nat.zero_add] at h

theorem place_of_offset {o : Nat} (hr : m.runs[run]? = some r) (ho : o ∈ r.offsets) :
    before GlyphRun.charLength m.runs run + o ∈ m.places := by
  obtain ⟨i, hi⟩ := List.getElem?_of_mem ho
  have hlt : i < r.glyphLength := by
    rw [← (hm.nominal r (List.mem_of_getElem? hr)).length_eq]
    exact (List.getElem?_eq_some_iff.mp hi).1
  have hg := hm.getElem_run hr hlt
  rw [hi, Option.map_some, Nat.add_comm o] at hg
  exact List.mem_of_getElem? hg

end FullyGenerated

end GSLayoutManager

end GnustepGui.LayoutManager
