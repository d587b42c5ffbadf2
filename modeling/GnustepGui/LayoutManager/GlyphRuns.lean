import GnustepGui.Library.SkipLists

/-!
# The glyph runs of a layout manager

The runs are the elements of a skip list. A run has a head at each level up to its own; the head at level zero is its
own, and one further up sums up the runs from this one to the next that reaches its level. Lengths and indexes are
numbers below 2 ^ 32.
-/

namespace GnustepGui.LayoutManager

open SkipLists

def SKIP_LIST_DEPTH : Nat := 15

/-- `glyph_run_head_t`; `next` is given by the levels of the runs. -/
structure RunHead where
  /-- The number of valid glyphs, counting from the start. -/
  glyphLength : Nat
  charLength : Nat
  /-- Glyph generation is complete for all created runs. -/
  complete : Bool
  deriving DecidableEq, Repr

/-- `glyph_t` -/
structure Glyph where
  g : UInt32
  charOffset : Nat
  inscription : BitVec 3 := 0
  soft : BitVec 1 := 0
  elasitc : BitVec 1 := 0
  bidilevel : BitVec 7 := 0
  deriving DecidableEq, Repr

/-- `glyph_run_t`, with the heads that lie before it. -/
structure GlyphRun where
  level : Nat
  heads : Nat → RunHead
  glyphs : Option (List Glyph)

namespace GlyphRun

def head (r : GlyphRun) : RunHead := r.heads 0

def glyphLength (r : GlyphRun) : Nat := r.head.glyphLength

def charLength (r : GlyphRun) : Nat := r.head.charLength

end GlyphRun

/-- A run, by its place among the runs, with the indexes of its first glyph and of its first character. -/
structure Found where
  run : Nat
  pos : Nat
  cpos : Nat
  deriving DecidableEq, Repr

structure GSLayoutManager where
  /-- The head of the skip list. -/
  glyphs : GlyphRun
  rest : List GlyphRun
  cached : Option Found

namespace GSLayoutManager

def runs (m : GSLayoutManager) : List GlyphRun := m.glyphs :: m.rest

/-- What `glyphs->` reads. -/
def top (m : GSLayoutManager) : RunHead := m.glyphs.heads (SKIP_LIST_DEPTH - 1)

/-- `h->next` at a level -/
def next (m : GSLayoutManager) (level i : Nat) : Option Nat := nextAt GlyphRun.level m.runs level i

theorem next_bounds {m : GSLayoutManager} {level i j : Nat} (h : m.next level i = some j) :
    i < j ∧ j < m.runs.length := by
  obtain ⟨hlt, r, hr, -⟩ := nextAt_spec h
  exact ⟨hlt, (List.getElem?_eq_some_iff.mp hr).1⟩

/-! ## By glyph index -/

/-- The loop of `run_for_glyph_index`. -/
def searchGlyph (m : GSLayoutManager) (glyphIndex level i pos cpos : Nat) : Option Found :=
  match m.runs[i]? with
  | none => none
  | some r =>
    -- a head whose glyphs are already created
    if (r.heads level).complete = false then
      match level with
      | 0 => none
      | level + 1 => m.searchGlyph glyphIndex level i pos cpos
    else if pos + (r.heads level).glyphLength ≤ glyphIndex then
      match _hnext : m.next level i with
      | none => none
      | some j => m.searchGlyph glyphIndex level j (pos + (r.heads level).glyphLength) (cpos + (r.heads level).charLength)
    else
      match level with
      | 0 => some ⟨i, pos, cpos⟩
      | level + 1 => m.searchGlyph glyphIndex level i pos cpos
termination_by (m.runs.length - i) + level
decreasing_by
  · omega
  · have := next_bounds _hnext
    omega
  · omega

/-- The cached run, if the index is in it. -/
def cachedFor (m : GSLayoutManager) (start : Found → Nat) (length : GlyphRun → Nat) (index : Nat) : Option Found :=
  m.cached.filter fun found =>
    (m.runs[found.run]?).elim false fun r => start found ≤ index ∧ index < start found + length r

/-- `run_for_glyph_index` -/
def runForGlyphIndex (m : GSLayoutManager) (glyphIndex : Nat) : Option Found × GSLayoutManager :=
  if m.top.glyphLength ≤ glyphIndex then (none, m)
  else
    match m.cachedFor Found.pos GlyphRun.glyphLength glyphIndex with
    | some found => (some found, m)
    | none =>
      match m.searchGlyph glyphIndex (SKIP_LIST_DEPTH - 1) 0 0 0 with
      | none => (none, m)
      | some found => (some found, { m with cached := some found })

/-! ## By character index -/

/-- Where the search is, and whether the position may be cached. -/
structure Searching where
  found : Found
  cache : Bool

/-- The inner loop of `run_for_character_index`. -/
def advance (m : GSLayoutManager) (charIndex level : Nat) (s : Searching) : Option Searching :=
  match m.runs[s.found.run]? with
  | none => none
  | some r =>
    if s.found.cpos + (r.heads level).charLength ≤ charIndex then
      match _hnext : m.next level s.found.run with
      | none => none
      | some j =>
        m.advance charIndex level
          ⟨⟨j, s.found.pos + (r.heads level).glyphLength, s.found.cpos + (r.heads level).charLength⟩, s.cache && (r.heads level).complete⟩
    else some s
termination_by m.runs.length - s.found.run
decreasing_by
  have := next_bounds _hnext
  show _ - j < _
  omega

/-- The outer loop, from a level down. -/
def searchCharacter (m : GSLayoutManager) (charIndex : Nat) : Nat → Searching → Option Searching
  | 0, s => m.advance charIndex 0 s
  | level + 1, s => (m.advance charIndex (level + 1) s).bind (m.searchCharacter charIndex level)

/-- `run_for_character_index` -/
def runForCharacterIndex (m : GSLayoutManager) (charIndex : Nat) : Option Found × GSLayoutManager :=
  if m.top.charLength ≤ charIndex then (none, m)
  else
    match m.cachedFor Found.cpos GlyphRun.charLength charIndex with
    | some found => (some found, m)
    | none =>
      match m.searchCharacter charIndex (SKIP_LIST_DEPTH - 1) ⟨⟨0, 0, 0⟩, true⟩ with
      | none => (none, m)
      | some s => (some s.found, if s.cache then { m with cached := some s.found } else m)

end GSLayoutManager

end GnustepGui.LayoutManager
