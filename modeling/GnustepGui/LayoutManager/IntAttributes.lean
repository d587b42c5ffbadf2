import GnustepGui.LayoutManager.RunSearch

/-!
# Integer attributes of glyphs

`setIntAttribute:value:forGlyphAtIndex:` and `intAttribute:forGlyphAtIndex:` look up the run of the glyph and then
compare the offset with the run's length the wrong way round. A run that has been looked up contains the glyph, so
neither of them gets to it.
-/

namespace GnustepGui.LayoutManager

/-- The attributes that a glyph stores. -/
inductive AttributeTag where
  | inscribe
  | soft
  | elastic
  | bidiLevel
  deriving DecidableEq, Repr

namespace Glyph

def value (g : Glyph) : AttributeTag → Int
  | .inscribe => g.inscription.toNat
  | .soft => g.soft.toNat
  | .elastic => g.elasitc.toNat
  | .bidiLevel => g.bidilevel.toNat

def setValue (g : Glyph) (anInt : Int) : AttributeTag → Glyph
  | .inscribe => { g with inscription := BitVec.ofInt 3 anInt }
  | .soft => { g with soft := BitVec.ofInt 1 anInt }
  | .elastic => { g with elasitc := BitVec.ofInt 1 anInt }
  | .bidiLevel => { g with bidilevel := BitVec.ofInt 7 anInt }

end Glyph

namespace GSLayoutManager

/-- A write to the run that has been found. -/
def modifyRun (m : GSLayoutManager) (run : Nat) (f : GlyphRun → GlyphRun) : GSLayoutManager :=
  match run with
  | 0 => { m with glyphs := f m.glyphs }
  | run + 1 => { m with rest := m.rest.modify run f }

/-- The glyphs of a run, if it is not `NULL` and has some. -/
def glyphsOf (m : GSLayoutManager) (found : Option Found) : Option (Found × GlyphRun × List Glyph) := do
  let found ← found
  let run ← m.runs[found.run]?
  let glyphs ← run.glyphs
  some (found, run, glyphs)

/-- `setIntAttribute:value:forGlyphAtIndex:` -/
def setIntAttribute (m : GSLayoutManager) (attributeTag : AttributeTag) (anInt : Int) (glyphIndex : Nat) :
    GSLayoutManager :=
  let (found, m) := m.runForGlyphIndex glyphIndex
  match m.glyphsOf found with
  | some (found, run, glyphs) =>
    if run.glyphLength < glyphIndex - found.pos then
      m.modifyRun found.run fun r =>
        { r with glyphs := some (glyphs.modify (glyphIndex - found.pos) fun g => g.setValue anInt attributeTag) }
    else m
  | none => m

/-- `intAttribute:forGlyphAtIndex:` -/
def intAttribute (m : GSLayoutManager) (attributeTag : AttributeTag) (glyphIndex : Nat) : Int × GSLayoutManager :=
  let (found, m) := m.runForGlyphIndex glyphIndex
  match m.glyphsOf found with
  | some (found, run, glyphs) =>
    if run.glyphLength < glyphIndex - found.pos then
      ((glyphs[glyphIndex - found.pos]?).elim 0 fun g => g.value attributeTag, m)
    else (0, m)
  | none => (0, m)

/-! ## The run contains the glyph -/

variable {m : GSLayoutManager}

theorem searchGlyph_contains (glyphIndex level i pos cpos : Nat) (hle : pos ≤ glyphIndex) {found : Found}
    (h : m.searchGlyph glyphIndex level i pos cpos = some found) :
    found.pos ≤ glyphIndex ∧ ∃ r, m.runs[found.run]? = some r ∧ glyphIndex < found.pos + r.glyphLength := by
  fun_induction searchGlyph m glyphIndex level i pos cpos with
  | case1 => cases h
  | case2 => cases h
  | case3 i pos cpos r hr level hi ih => exact ih hle h
  | case4 => cases h
  | case5 level i pos cpos r hr hc hp j hn ih => exact ih hp h
  | case6 i pos cpos r hr hc hin =>
    obtain rfl := Option.some.inj h
    exact ⟨hle, r, hr, Nat.lt_of_not_le hin⟩
  | case7 i pos cpos r hr level hc hin ih => exact ih hle h

theorem cachedFor_contains {glyphIndex : Nat} {found : Found}
    (h : m.cachedFor Found.pos GlyphRun.glyphLength glyphIndex = some found) :
    found.pos ≤ glyphIndex ∧ ∃ r, m.runs[found.run]? = some r ∧ glyphIndex < found.pos + r.glyphLength := by
  obtain ⟨-, hin⟩ := Option.filter_eq_some_iff.mp h
  cases hr : m.runs[found.run]? with
  | none =>
    rw [hr] at hin
    cases hin
  | some r =>
    rw [hr, Option.elim_some, decide_eq_true_iff] at hin
    exact ⟨hin.1, r, rfl, hin.2⟩

/-- What is found contains the index, and the runs are as before. -/
theorem runForGlyphIndex_contains (m : GSLayoutManager) (glyphIndex : Nat) :
    (m.runForGlyphIndex glyphIndex).2.glyphs = m.glyphs ∧ (m.runForGlyphIndex glyphIndex).2.rest = m.rest ∧
      ∀ found ∈ (m.runForGlyphIndex glyphIndex).1, found.pos ≤ glyphIndex ∧
        ∃ r, m.runs[found.run]? = some r ∧ glyphIndex < found.pos + r.glyphLength := by
  rw [runForGlyphIndex]
  split
  · exact ⟨rfl, rfl, fun found h => absurd h (Option.not_mem_none found)⟩
  · cases hc : m.cachedFor Found.pos GlyphRun.glyphLength glyphIndex with
    | some found =>
      refine ⟨rfl, rfl, fun found' hf => ?_⟩
      obtain rfl := Option.some.inj hf
      exact cachedFor_contains hc
    | none =>
      dsimp only
      cases hs : m.searchGlyph glyphIndex (SKIP_LIST_DEPTH - 1) 0 0 0 with
      | none => exact ⟨rfl, rfl, fun found h => absurd h (Option.not_mem_none found)⟩
      | some found =>
        refine ⟨rfl, rfl, fun found' hf => ?_⟩
        obtain rfl := Option.some.inj hf
        exact searchGlyph_contains _ _ _ _ _ (Nat.zero_le _) hs

theorem not_length_lt {glyphIndex : Nat} {found : Found} {run : GlyphRun} {glyphs : List Glyph}
    (h : (m.runForGlyphIndex glyphIndex).2.glyphsOf (m.runForGlyphIndex glyphIndex).1 = some (found, run, glyphs)) :
    ¬ run.glyphLength < glyphIndex - found.pos := by
  obtain ⟨hg, hrs, hc⟩ := runForGlyphIndex_contains m glyphIndex
  have hrn : (m.runForGlyphIndex glyphIndex).2.runs = m.runs := by rw [runs, runs, hg, hrs]
  cases hf : (m.runForGlyphIndex glyphIndex).1 with
  | none =>
    rw [hf] at h
    cases h
  | some found' =>
    obtain ⟨hle, r, hr, hlt⟩ := hc found' hf
    rw [hf, glyphsOf, hrn] at h
    simp only [Option.bind_eq_bind, Option.bind_some, hr] at h
    obtain ⟨glyphs', -, heq⟩ := Option.bind_eq_some_iff.mp h
    cases heq
    omega

theorem setIntAttribute_eq (m : GSLayoutManager) (attributeTag : AttributeTag) (anInt : Int) (glyphIndex : Nat) :
    m.setIntAttribute attributeTag anInt glyphIndex = (m.runForGlyphIndex glyphIndex).2 := by
  rw [setIntAttribute]
  cases h : (m.runForGlyphIndex glyphIndex).2.glyphsOf (m.runForGlyphIndex glyphIndex).1 with
  | none => simp only [h]
  | some t => simp only [h, if_neg (not_length_lt h)]

theorem intAttribute_eq_zero (m : GSLayoutManager) (attributeTag : AttributeTag) (glyphIndex : Nat) :
    (m.intAttribute attributeTag glyphIndex).1 = 0 := by
  rw [intAttribute]
  cases h : (m.runForGlyphIndex glyphIndex).2.glyphsOf (m.runForGlyphIndex glyphIndex).1 with
  | none => simp only [h]
  | some t => simp only [h, if_neg (not_length_lt h)]

/-! ## Reading back -/

/-- The glyph at an offset of a run. -/
def glyphAt (m : GSLayoutManager) (run offset : Nat) : Option Glyph :=
  (m.runs[run]?).bind fun r => r.glyphs.bind fun glyphs => glyphs[offset]?

/-- The value is read back, and the attributes of all other glyphs are as before. -/
def ReadsBack (m : GSLayoutManager) (attributeTag : AttributeTag) (anInt : Int) (glyphIndex : Nat) : Prop :=
  let after := m.setIntAttribute attributeTag anInt glyphIndex
  (after.intAttribute attributeTag glyphIndex).1 = anInt ∧
    ∀ run offset, (∀ found, m.linearScan GlyphRun.glyphLength glyphIndex = some found →
        ¬ (run = found.run ∧ found.pos + offset = glyphIndex)) →
      ∀ tag, (after.glyphAt run offset).map (·.value tag) = (m.glyphAt run offset).map (·.value tag)

/-- Zero is what is read back, whatever has been set. -/
theorem intAttribute_readsBack_iff (m : GSLayoutManager) (attributeTag : AttributeTag) (anInt : Int) (glyphIndex : Nat) :
    m.ReadsBack attributeTag anInt glyphIndex ↔ anInt = 0 := by
  have hg := intAttribute_eq_zero (m.setIntAttribute attributeTag anInt glyphIndex) attributeTag glyphIndex
  constructor
  · intro h
    exact h.1.symm.trans hg
  · rintro rfl
    refine ⟨hg, fun run offset _ tag => ?_⟩
    obtain ⟨hgls, hr, -⟩ := runForGlyphIndex_contains m glyphIndex
    rw [setIntAttribute_eq, glyphAt, glyphAt, runs, runs, hgls, hr]

/-- A soft glyph does not stay soft. -/
theorem soft_lost : halfGenerated.WellFormed ∧ 0 < halfGenerated.top.glyphLength ∧
    ¬ halfGenerated.ReadsBack .soft 1 0 := by
  refine ⟨halfGenerated_wellFormed, by decide, fun h => ?_⟩
  have hg := h.1
  rw [intAttribute_eq_zero] at hg
  cases hg

end GSLayoutManager

end GnustepGui.LayoutManager
