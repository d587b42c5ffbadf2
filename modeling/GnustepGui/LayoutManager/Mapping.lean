import GnustepGui.LayoutManager.GlyphRuns
import GnustepGui.LayoutManager.SelectedRange

/-!
# Between characters and glyphs

`characterRangeForGlyphRange:actualGlyphRange:` and `glyphRangeForCharacterRange:actualCharacterRange:`. Both look up
the runs of the two ends of a range, and scan from there to the ends of the clusters. Glyph generation is not
modelled: where the code would create glyphs, the result is `generates`. The results are the range asked for and the
actual range.
-/

namespace GnustepGui.LayoutManager

inductive Fault
  | rangeException (reason : String)
  /-- A glyph is read that is not in the run. -/
  | outOfBounds
  | generates
  deriving DecidableEq, Repr

/-- `NSMaxRange` of a range within a text. -/
def NSRange.upper (range : NSRange) : Nat := range.location + range.length

/-- A glyph of a run, by its index in the run, with the indexes of the first glyph and the first character of the run.
In a scan backwards `i` is one more, so that it is zero before the first glyph. -/
structure Position where
  run : Nat
  i : Nat
  pos : Nat
  cpos : Nat
  deriving DecidableEq, Repr

namespace GSLayoutManager

/-- `r->head.glyph_length` -/
def glyphLengthOf (m : GSLayoutManager) (run : Nat) : Nat := (m.runs[run]?).elim 0 GlyphRun.glyphLength

/-- `r->head.char_length` -/
def charLengthOf (m : GSLayoutManager) (run : Nat) : Nat := (m.runs[run]?).elim 0 GlyphRun.charLength

/-- `r->glyphs[i].char_offset + cpos` -/
def characterAt (m : GSLayoutManager) (run i cpos : Nat) : Except Fault Nat :=
  match (m.runs[run]?).bind fun r => r.glyphs.bind fun glyphs => glyphs[i]? with
  | some glyph => .ok (glyph.charOffset + cpos)
  | none => .error .outOfBounds

/-! ## Stepping -/

/-- The inner loop of `GLYPH_STEP_FORWARD`. -/
def nextGlyph (m : GSLayoutManager) (length run i pos cpos : Nat) : Except Fault Position :=
  if run < m.runs.length ∧ i = m.glyphLengthOf run then
    if ((m.runs[run + 1]?).elim true fun next => !next.head.complete) = true then
      if cpos + m.charLengthOf run = length then .ok ⟨run, i, pos, cpos⟩ else .error .generates
    else m.nextGlyph length (run + 1) 0 (pos + m.glyphLengthOf run) (cpos + m.charLengthOf run)
  else .ok ⟨run, i, pos, cpos⟩
termination_by m.runs.length - run

/-- `GLYPH_STEP_FORWARD` -/
def stepForward (m : GSLayoutManager) (length : Nat) (p : Position) : Except Fault Position :=
  m.nextGlyph length p.run (p.i + 1) p.pos p.cpos

theorem nextGlyph_run_le {m : GSLayoutManager} {length run i pos cpos : Nat} {p : Position}
    (h : m.nextGlyph length run i pos cpos = .ok p) : run < p.run ∨ p.run = run ∧ p.i = i := by
  fun_induction nextGlyph m length run i pos cpos with
  | case1 run i pos cpos he hls hl =>
    obtain rfl := Except.ok.inj h
    exact .inr ⟨rfl, rfl⟩
  | case2 => cases h
  | case3 run i pos cpos he hn ih =>
    obtain hlt | ⟨heq, -⟩ := ih h
    · exact .inl (by omega)
    · exact .inl (by omega)
  | case4 run i pos cpos hin =>
    obtain rfl := Except.ok.inj h
    exact .inr ⟨rfl, rfl⟩

theorem characterAt_lt {m : GSLayoutManager} {run i cpos c : Nat} (h : m.characterAt run i cpos = .ok c) :
    run < m.runs.length ∧ i < ((m.runs[run]?).bind GlyphRun.glyphs).elim 0 List.length := by
  unfold characterAt at h
  cases hr : m.runs[run]? with
  | none =>
    rw [hr] at h
    cases h
  | some r =>
    refine ⟨(List.getElem?_eq_some_iff.mp hr).1, ?_⟩
    rw [hr] at h
    cases hg : r.glyphs with
    | none => simp [hg] at h
    | some glyphs =>
      by_contra hlt
      simp only [Option.bind_some, hg, Option.elim_some, Nat.not_lt] at hlt h
      rw [List.getElem?_eq_none hlt] at h
      cases h

/-- `GLYPH_SCAN_FORWARD`: to the first glyph for which the condition does not hold; if there is none, to the end of the
last run. -/
def scanForward (m : GSLayoutManager) (length : Nat) (condition : Nat → Bool) (p : Position) : Except Fault Position :=
  match _hat : m.characterAt p.run p.i p.cpos with
  | .error fault => .error fault
  | .ok c =>
    if condition c then
      match _hstep : m.stepForward length p with
      | .error fault => .error fault
      | .ok p' => if p'.i = m.glyphLengthOf p'.run then .ok p' else m.scanForward length condition p'
    else .ok p
termination_by (m.runs.length - p.run, ((m.runs[p.run]?).bind GlyphRun.glyphs).elim 0 List.length - p.i)
decreasing_by
  obtain ⟨hrun, hi⟩ := characterAt_lt _hat
  obtain hlt | ⟨heq, hsucc⟩ := nextGlyph_run_le _hstep
  · exact Prod.Lex.left _ _ (by omega)
  · rw [heq, hsucc]
    exact Prod.Lex.right _ (by omega)

/-- The inner loop of the scan backwards, which leaves the runs without glyphs. -/
def previousGlyph (m : GSLayoutManager) : Nat → Nat → Nat → Nat → Position
  | 0, i, pos, cpos => ⟨0, i, pos, cpos⟩
  | run + 1, 0, pos, cpos =>
    m.previousGlyph run (m.glyphLengthOf run) (pos - m.glyphLengthOf run) (cpos - m.charLengthOf run)
  | run + 1, i + 1, pos, cpos => ⟨run + 1, i + 1, pos, cpos⟩

theorem previousGlyph_run_le (m : GSLayoutManager) (run i pos cpos : Nat) : (m.previousGlyph run i pos cpos).run < run ∨
      (m.previousGlyph run i pos cpos).run = run ∧ (m.previousGlyph run i pos cpos).i = i := by
  fun_induction previousGlyph m run i pos cpos with
  | case1 i pos cpos => exact .inr ⟨rfl, rfl⟩
  | case2 pos cpos run ih =>
    obtain hlt | ⟨heq, -⟩ := ih
    · exact .inl (by omega)
    · exact .inl (by omega)
  | case3 => exact .inr ⟨rfl, rfl⟩

/-- The scan backwards over the glyphs of a character, to the index of the first one. -/
def scanBackward (m : GSLayoutManager) (character : Nat) (p : Position) : Except Fault Nat :=
  match _hi : p.i with
  | 0 => .ok p.pos
  | i + 1 =>
    if m.glyphLengthOf p.run < i + 1 then .ok (i + 1 + p.pos)
    else
      match m.characterAt p.run i p.cpos with
      | .error fault => .error fault
      | .ok c =>
        if c = character then m.scanBackward character (m.previousGlyph p.run i p.pos p.cpos)
        else .ok (i + 1 + p.pos)
termination_by (p.run, p.i)
decreasing_by
  obtain hlt | ⟨heq, hsame⟩ := m.previousGlyph_run_le p.run i p.pos p.cpos
  · exact Prod.Lex.left _ _ hlt
  · rw [heq, hsame]
    exact Prod.Lex.right _ (by omega)

/-! ## From glyphs to characters -/

def glyphRangeOutOfRange : Fault := .rangeException "%s glyph range out of range"

/-- There are characters without a run, or runs without glyphs. -/
def missesGlyphs (m : GSLayoutManager) (length : Nat) : Bool := m.top.charLength < length || !m.top.complete

/-- The character of a glyph, and the first glyph of that character. -/
def clusterStart (m : GSLayoutManager) (found : Found) (glyphIndex : Nat) : Except Fault (Nat × Nat) :=
  if m.glyphLengthOf found.run ≤ glyphIndex - found.pos then .ok (found.cpos, glyphIndex + 1)
  else do
    let character ← m.characterAt found.run (glyphIndex - found.pos) found.cpos
    let first ← m.scanBackward character ⟨found.run, glyphIndex - found.pos + 1, found.pos, found.cpos⟩
    return (character, first)

/-- The first character and the first glyph behind those of the character of a glyph. -/
def clusterEnd (m : GSLayoutManager) (length : Nat) (found : Found) (glyphIndex : Nat) : Except Fault (Nat × Nat) :=
  if m.glyphLengthOf found.run ≤ glyphIndex - found.pos then .ok (found.cpos, glyphIndex)
  else do
    let character ← m.characterAt found.run (glyphIndex - found.pos) found.cpos
    let p ← m.scanForward length (· == character) ⟨found.run, glyphIndex - found.pos, found.pos, found.cpos⟩
    if p.i = m.glyphLengthOf p.run then return (p.cpos + m.charLengthOf p.run, p.i + p.pos)
    else
      let last ← m.characterAt p.run p.i p.cpos
      return (last, p.i + p.pos)

/-- `characterRangeForGlyphRange:actualGlyphRange:` -/
def characterRangeForGlyphRange (m : GSLayoutManager) (length : Nat) (glyphRange : NSRange) :
    Except Fault (NSRange × NSRange) × GSLayoutManager :=
  if glyphRange.upper = 0 then (.ok (⟨0, 0⟩, glyphRange), m)
  else if m.top.glyphLength ≤ glyphRange.upper - 1 then
    (.error (if m.missesGlyphs length then .generates else glyphRangeOutOfRange), m)
  else
    match m.runForGlyphIndex glyphRange.location with
    | (none, m) => (.error glyphRangeOutOfRange, m)
    | (some found, m) =>
      match m.clusterStart found glyphRange.location with
      | .error fault => (.error fault, m)
      | .ok (charLocation, realLocation) =>
        match m.runForGlyphIndex (glyphRange.upper - 1) with
        | (none, m) => (.error glyphRangeOutOfRange, m)
        | (some found, m) =>
          match m.clusterEnd length found (glyphRange.upper - 1) with
          | .error fault => (.error fault, m)
          | .ok (last, realEnd) =>
            (.ok (⟨charLocation, last - charLocation⟩, ⟨realLocation, realEnd - realLocation⟩), m)

/-! ## From characters to glyphs -/

/-- `glyphs[i].char_offset` -/
def offsetAt (glyphs : List Glyph) (i : Int) : Except Fault Nat :=
  match if 0 ≤ i then glyphs[i.toNat]? else none with
  | some glyph => .ok glyph.charOffset
  | none => .error .outOfBounds

/-- The binary search of `_glyphForCharacter:index:positions:`. -/
def bisect (glyphs : List Glyph) (target : Nat) (lo hi : Int) : Except Fault Int :=
  if lo < hi then
    match offsetAt glyphs ((lo + hi) / 2) with
    | .error fault => .error fault
    | .ok offset =>
      if target < offset then bisect glyphs target lo ((lo + hi) / 2 - 1)
      else if offset < target then bisect glyphs target ((lo + hi) / 2 + 1) hi
      else .ok ((lo + hi) / 2)
  else .ok lo
termination_by (hi - lo).toNat

/-- The glyphs before this one may be of characters before the target. -/
def stepToTarget (glyphs : List Glyph) (target : Nat) : Nat → Except Fault Nat
  | 0 => do
    let offset ← offsetAt glyphs 0
    if target < offset then .error .outOfBounds else return 0
  | i + 1 => do
    let offset ← offsetAt glyphs ↑(i + 1)
    if target < offset then stepToTarget glyphs target i else return i + 1

/-- The first glyph of the character. -/
def stepToFirst (glyphs : List Glyph) : Nat → Except Fault Nat
  | 0 => .ok 0
  | i + 1 => do
    let before ← offsetAt glyphs i
    let offset ← offsetAt glyphs ↑(i + 1)
    if before = offset then stepToFirst glyphs i else return i + 1

/-- The glyph of a run that a character belongs to. -/
def glyphIndexFor (glyphs : List Glyph) (glyphLength target : Nat) : Except Fault Nat := do
  let lo ← bisect glyphs target 0 (glyphLength - 1)
  let i ← stepToTarget glyphs target lo.toNat
  stepToFirst glyphs i

/-- `_glyphForCharacter:index:positions:` -/
def glyphForCharacter (m : GSLayoutManager) (target : Nat) : Except Fault Position × GSLayoutManager :=
  match m.runForCharacterIndex target with
  | (none, m) => (.error (.rangeException "%s character index %d out of range"), m)
  | (some found, m) =>
    match (m.runs[found.run]?).bind GlyphRun.glyphs with
    | none => (.ok ⟨found.run, 0, found.pos, found.cpos⟩, m)
    | some glyphs =>
      (do
        let i ← glyphIndexFor glyphs (m.glyphLengthOf found.run) (target - found.cpos)
        return ⟨found.run, i, found.pos, found.cpos⟩, m)

/-- The first character of the glyph of a position, if there is one. -/
def characterLocation (m : GSLayoutManager) (p : Position) : Except Fault Nat :=
  if p.i < m.glyphLengthOf p.run then m.characterAt p.run p.i p.cpos else .ok p.cpos

/-- The first character and the first glyph behind those up to a character. -/
def rangeEnd (m : GSLayoutManager) (length target : Nat) (p : Position) : Except Fault (Nat × Nat) := do
  let p ← if p.i < m.glyphLengthOf p.run then m.scanForward length (· ≤ target) p else .ok p
  if m.glyphLengthOf p.run ≤ p.i then return (m.top.charLength, p.i + p.pos)
  else
    let last ← m.characterAt p.run p.i p.cpos
    return (last, p.i + p.pos)

/-- `glyphRangeForCharacterRange:actualCharacterRange:` -/
def glyphRangeForCharacterRange (m : GSLayoutManager) (length : Nat) (charRange : NSRange) :
    Except Fault (NSRange × NSRange) × GSLayoutManager :=
  if charRange.length = 0 ∧ charRange.location = 0 then (.ok (⟨0, 0⟩, charRange), m)
  else if m.missesGlyphs length then (.error .generates, m)
  else if m.top.charLength ≤ charRange.upper - 1 ∨ m.top.charLength ≤ charRange.location then
    (.ok (⟨m.top.glyphLength, 0⟩, ⟨length, 0⟩), m)
  else
    match m.glyphForCharacter charRange.location with
    | (.error fault, m) => (.error fault, m)
    | (.ok first, m) =>
      match m.characterLocation first with
      | .error fault => (.error fault, m)
      | .ok charLocation =>
        match m.glyphForCharacter (charRange.upper - 1) with
        | (.error fault, m) => (.error fault, m)
        | (.ok last, m) =>
          match m.rangeEnd length (charRange.upper - 1) last with
          | .error fault => (.error fault, m)
          | .ok (charEnd, glyphEnd) =>
            (.ok (⟨first.i + first.pos, glyphEnd - (first.i + first.pos)⟩, ⟨charLocation, charEnd - charLocation⟩), m)

end GSLayoutManager

end GnustepGui.LayoutManager
