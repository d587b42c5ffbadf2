import Mathlib.Data.List.Basic

/-!
# The glyph generator

`generateGlyphsForGlyphStorage:desiredNumberOfCharacters:glyphIndex:characterIndex:` of `NSGlyphGenerator`. The loop
collects glyphs, each of one character, and sends them to the storage when a glyph stands for several characters or a
character has no glyph of its own. Control characters and decompositions come from the base library and are parameters,
as is the font.
-/

namespace GnustepGui.GlyphGenerator

def NSNullGlyph : Nat := 0x0
def NSControlGlyph : Nat := 0x00ffffff
def GSAttachmentGlyph : Nat := 0x00fffffe
def NSAttachmentCharacter : Nat := 0xfffc

/-- What the loop looks up. -/
structure Tables where
  /-- Of `controlCharacterSet`. -/
  characterIsMember : Nat → Bool
  uniIsDecomp : Nat → Option (List Nat)
  glyphForCharacter : Nat → Nat
  ligature : Int

/-- A glyph, and the characters it has been made for: the offset of the first in the run, and how many. The buffer of
the code has the glyph only. -/
structure Drawn where
  glyph : Nat
  source : Nat
  width : Nat
  deriving DecidableEq, Repr

/-- A glyph in the storage. -/
structure Insertion where
  drawn : Drawn
  glyphIndex : Nat
  characterIndex : Nat
  deriving DecidableEq, Repr

structure State where
  i : Nat
  cstart : Nat
  glyph : Nat
  index : Nat
  /-- The buffer up to `g`. -/
  glyphs : List Drawn
  storage : List Insertion
  fallback : Nat
  deriving DecidableEq, Repr

/-- `insertGlyphs:length:forStartingGlyphAtIndex:characterIndex:`, where each glyph is that of one character. -/
def insertGlyphs (glyphIndex characterIndex : Nat) : List Drawn → List Insertion
  | [] => []
  | d :: glyphs => ⟨d, glyphIndex, characterIndex⟩ :: insertGlyphs (glyphIndex + 1) (characterIndex + 1) glyphs

namespace State

def put (s : State) (d : Drawn) : State := { s with glyphs := s.glyphs ++ [d] }

/-- `SEND_GLYPHS` -/
def sendGlyphs (s : State) : State :=
  if s.glyphs.length ≠ 0 then
    { s with
      storage := s.storage ++ insertGlyphs s.glyph s.index s.glyphs
      index := s.index + (s.i + 1 - s.cstart)
      glyph := s.glyph + s.glyphs.length
      glyphs := []
      cstart := s.i + 1 }
  else s

end State

namespace Tables

def glyph? (t : Tables) (ch : Nat) : Option Nat :=
  if t.glyphForCharacter ch ≠ NSNullGlyph then some (t.glyphForCharacter ch) else none

/-- The glyph of a ligature that starts with a character, and how many further characters are in it. -/
def ligatureGlyph (t : Tables) (ch : Nat) (rest : List Nat) : Option (Nat × Nat) :=
  match rest with
  | [] => none
  | ch2 :: more =>
    if t.ligature ≥ 1 ∧ ch = 0x66 then
      let ffl := if ch2 = 0x66 ∧ more.head? = some 0x6c then (t.glyph? 0xfb04).map (·, 2) else none
      let ffi := if ch2 = 0x66 ∧ more.head? = some 0x69 then (t.glyph? 0xfb03).map (·, 2) else none
      let ff := if ch2 = 0x66 then (t.glyph? 0xfb00).map (·, 1) else none
      let fi := if ch2 = 0x69 then (t.glyph? 0xfb01).map (·, 1) else none
      let fl := if ch2 = 0x6c then (t.glyph? 0xfb02).map (·, 1) else none
      ffl <|> ffi <|> ff <|> fi <|> fl
    else none

/-- The character of a surrogate pair, and that there is one; what is not part of a pair is replaced. -/
def surrogate (ch : Nat) (rest : List Nat) : Nat × Bool :=
  if 0xd800 ≤ ch ∧ ch ≤ 0xdfff then
    match rest with
    | [] => (0xfffd, false)
    | ch2 :: _ =>
      if ch < 0xdc00 ∧ 0xdc00 ≤ ch2 ∧ ch2 ≤ 0xdfff then
        ((ch % 0x400) * 0x400 + ch2 % 0x400 + 0x10000, true)
      else (0xfffd, false)
  else (ch, false)

/-- The pieces of a decomposition, up to the first that has no glyph. -/
def sendPieces (t : Tables) (source : Nat) : List Nat → State → State
  | [], s => s
  | piece :: decomp, s =>
    if t.glyphForCharacter piece = NSNullGlyph then s
    else sendPieces t source decomp (s.put ⟨t.glyphForCharacter piece, source, 1⟩).sendGlyphs

/-- The glyph of a character that is not part of a ligature. The lookup takes 16 bits. -/
def lone (t : Tables) (ch : Nat) (surr : Bool) (source : Nat) (s : State) : State :=
  let width := if surr then 2 else 1
  if t.glyphForCharacter (ch % 0x10000) ≠ NSNullGlyph then
    let s := s.put ⟨t.glyphForCharacter (ch % 0x10000), source, width⟩
    if surr then s.sendGlyphs else s
  else
    match if ch < 0x10000 then t.uniIsDecomp ch else none with
    | some decomp => t.sendPieces source decomp s
    | none =>
      let fallback := if s.fallback = NSNullGlyph then t.glyphForCharacter 0x3f else s.fallback
      (State.put { s with fallback := fallback } ⟨fallback, source, width⟩).sendGlyphs

/-- The body of the loop; `i` is left at the last character that has been read. -/
def character (t : Tables) (ch : Nat) (rest : List Nat) (s : State) : State :=
  if t.characterIsMember ch then s.put ⟨NSControlGlyph, s.i, 1⟩
  else if ch = NSAttachmentCharacter then s.put ⟨GSAttachmentGlyph, s.i, 1⟩
  else
    match t.ligatureGlyph ch rest with
    | some (gl, n) => State.sendGlyphs { s.put ⟨gl, s.i, n + 1⟩ with i := s.i + n }
    | none =>
      match surrogate ch rest with
      | (ch, true) => t.lone ch true s.i { s with i := s.i + 1 }
      | (ch, false) => t.lone ch false s.i s

/-- The loop over the characters that are left, of which the first ones may have been read. -/
def generate (t : Tables) : Nat → List Nat → State → State
  | _, [], s => s
  | skip + 1, _ :: rest, s => generate t skip rest s
  | 0, ch :: rest, s =>
    let s' := t.character ch rest s
    generate t (s'.i - s.i) rest { s' with i := s'.i + 1 }

end Tables

inductive GlyphError
  | rangeException
  | genericException (reason : String)
  deriving DecidableEq, Repr

/-- What there is for the run: the `NSLigatureAttributeName` of its attributes and its font. -/
structure Attributes where
  ligature : Option Int
  /-- `glyphForCharacter:` of the font. -/
  fontInfo : Option (Nat → Nat)

/-- `generateGlyphsForGlyphStorage:desiredNumberOfCharacters:glyphIndex:characterIndex:`; both indexes are in the state
that is left. -/
def generateGlyphsForGlyphStorage (characterIsMember : Nat → Bool) (uniIsDecomp : Nat → Option (List Nat))
    (attributes : Attributes) (string : List Nat) (num glyph index : Nat) : Except GlyphError State :=
  if string.length < index + num then .error .rangeException
  else
    match attributes.fontInfo with
    | none => .error (.genericException "Glyph generation with no font.")
    | some glyphForCharacter =>
      let t : Tables := ⟨characterIsMember, uniIsDecomp, glyphForCharacter, attributes.ligature.getD 1⟩
      .ok (t.generate 0 ((string.drop index).take num) ⟨0, 0, glyph, index, [], [], NSNullGlyph⟩).sendGlyphs

end GnustepGui.GlyphGenerator
