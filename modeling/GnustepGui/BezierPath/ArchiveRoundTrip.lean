import GnustepGui.BezierPath.Archive

/-!
# Decoding what was encoded

Both formats give the elements back one by one. What does not come back: the dash pattern, which
neither format holds; a line attribute that is no `float`; and more elements than the counters hold.
-/

namespace GnustepGui.BezierPath

variable {α : Type}

/-! ## Adding an element -/

/-- What the decoder does for an element. -/
def NSBezierPath.append (self : NSBezierPath α) : PathElement α → NSBezierPath α
  | .moveTo p => self.moveToPoint p
  | .lineTo p => self.lineToPoint p
  | .curveTo cp1 cp2 p => self.curveToPoint p cp1 cp2
  | .closePath => self.closePath

def NSBezierPath.appendAll (self : NSBezierPath α) (elements : List (PathElement α)) : NSBezierPath α :=
  elements.foldl .append self

/-- The same elements, winding rule, line attributes and dash pattern. -/
structure SameDrawing (a b : NSBezierPath α) : Prop where
  pathElements : a.pathElements = b.pathElements
  windingRule : a.windingRule = b.windingRule
  lineCapStyle : a.lineCapStyle = b.lineCapStyle
  lineJoinStyle : a.lineJoinStyle = b.lineJoinStyle
  lineWidth : a.lineWidth = b.lineWidth
  flatness : a.flatness = b.flatness
  miterLimit : a.miterLimit = b.miterLimit
  lineDash : a.lineDash = b.lineDash

theorem append_sameDrawing (self : NSBezierPath α) (e : PathElement α) :
    SameDrawing (self.append e) { self with pathElements := self.pathElements ++ [e] } := by
  cases e <;> constructor <;> rfl

theorem appendAll_sameDrawing (self : NSBezierPath α) (elements : List (PathElement α)) :
    SameDrawing (self.appendAll elements)
      { self with pathElements := self.pathElements ++ elements } := by
  induction elements generalizing self with
  | nil => constructor <;> simp [NSBezierPath.appendAll]
  | cons e elements ih =>
    have he := append_sameDrawing self e
    have hr := ih (self.append e)
    constructor
    · rw [NSBezierPath.appendAll, List.foldl_cons, ← NSBezierPath.appendAll, hr.pathElements, he.pathElements]
      simp
    · exact hr.windingRule.trans he.windingRule
    · exact hr.lineCapStyle.trans he.lineCapStyle
    · exact hr.lineJoinStyle.trans he.lineJoinStyle
    · exact hr.lineWidth.trans he.lineWidth
    · exact hr.flatness.trans he.flatness
    · exact hr.miterLimit.trans he.miterLimit
    · exact hr.lineDash.trans he.lineDash

/-- The points that the element has are in the array. -/
def PathElement.Filled (pts : AssociatedPoints α) : PathElement α → Prop
  | .moveTo p => pts.p0 = p
  | .lineTo p => pts.p0 = p
  | .curveTo cp1 cp2 p => pts = ⟨cp1, cp2, p⟩
  | .closePath => True

theorem elementAtIndex_of_lt {elements : List (PathElement α)} {i : Nat} (h : i < elements.length)
    (pts : AssociatedPoints α) :
    ∃ pts', elementAtIndex elements i pts = some (elements[i].type, pts') ∧ elements[i].Filled pts' := by
  unfold elementAtIndex
  rw [List.getElem?_eq_getElem h]
  cases elements[i] with
  | moveTo p => exact ⟨_, rfl, rfl⟩
  | lineTo p => exact ⟨_, rfl, rfl⟩
  | curveTo c d p => exact ⟨_, rfl, rfl⟩
  | closePath =>
    cases lastMoveBefore elements i with
    | none => exact ⟨_, rfl, trivial⟩
    | some p => exact ⟨_, rfl, trivial⟩

/-! ## Reading bytes -/

/-- From the cursor on the data holds `bytes`; its length fits in the cursor. -/
structure Ahead (data : List UInt8) (cursor : UInt32) (bytes : List UInt8) : Prop where
  drop : data.drop cursor.toNat = bytes
  length : data.length < 2 ^ 32

theorem Ahead.advance {data xs rest : List UInt8} {cursor k : UInt32} (h : Ahead data cursor (xs ++ rest))
    (hk : xs.length = k.toNat) (hp : xs ≠ []) : Ahead data (cursor + k) rest := by
  have hl := congrArg List.length h.drop
  have hx := List.length_pos_iff.2 hp
  have hb := h.length
  rw [List.length_drop, List.length_append] at hl
  refine ⟨?_, h.length⟩
  rw [UInt32.toNat_add, Nat.mod_eq_of_lt (by omega), ← List.drop_drop, h.drop, ← hk]
  exact List.drop_left

theorem serializeFloat_join (f : BitVec 32) :
    (f.extractLsb' 24 8 ++ f.extractLsb' 16 8) ++ (f.extractLsb' 8 8 ++ f.extractLsb' 0 8) = f := by
  have hh : f.extractLsb' 24 8 ++ f.extractLsb' 16 8 = f.extractLsb' 16 16 :=
    BitVec.extractLsb'_append_extractLsb'_eq_extractLsb' rfl
  have hl : f.extractLsb' 8 8 ++ f.extractLsb' 0 8 = f.extractLsb' 0 16 :=
    BitVec.extractLsb'_append_extractLsb'_eq_extractLsb' rfl
  have ha : f.extractLsb' 16 16 ++ f.extractLsb' 0 16 = f.extractLsb' 0 32 :=
    BitVec.extractLsb'_append_extractLsb'_eq_extractLsb' rfl
  rw [hh, hl]
  exact ha.trans BitVec.extractLsb'_eq_self

variable {cursor : UInt32} {data rest : List UInt8}

theorem deserializeFloat_serialize (f : BitVec 32) (h : Ahead data cursor (serializeFloat f ++ rest)) :
    deserializeFloat data cursor = some (f, cursor + 4) ∧ Ahead data (cursor + 4) rest := by
  refine ⟨?_, h.advance rfl (by simp [serializeFloat])⟩
  rw [deserializeFloat, h.drop]
  simp only [serializeFloat, List.cons_append, List.nil_append]
  exact congrArg (fun g => some (g, cursor + 4)) (serializeFloat_join f)

theorem deserializeChar_serialize (type : NSBezierPathElement) (h : Ahead data cursor (serializeType type ++ rest)) :
    deserializeChar data cursor = some (UInt8.ofNat type.rawValue, cursor + 1) ∧ Ahead data (cursor + 1) rest := by
  refine ⟨?_, h.advance rfl (by simp [serializeType])⟩
  rw [deserializeChar, h.drop]
  rfl

variable {conv : FloatConversion α}

def NSPoint.Representable (conv : FloatConversion α) (p : NSPoint α) : Prop :=
  conv.Representable p.x ∧ conv.Representable p.y

theorem deserializePoint_serialize (p : NSPoint α) (h : Ahead data cursor (serializePoint conv p ++ rest)) :
    ∃ q, deserializePoint conv data cursor = some (q, cursor + 4 + 4) ∧
      Ahead data (cursor + 4 + 4) rest ∧ (p.Representable conv → q = p) := by
  rw [serializePoint, List.append_assoc] at h
  obtain ⟨hx, h⟩ := deserializeFloat_serialize _ h
  obtain ⟨hy, h⟩ := deserializeFloat_serialize _ h
  refine ⟨⟨conv.widen (conv.narrow p.x), conv.widen (conv.narrow p.y)⟩, ?_, h, ?_⟩
  · simp only [deserializePoint, hx, hy, Option.bind_eq_bind, Option.bind_some]
  · rintro ⟨hp, hpy⟩
    show NSPoint.mk _ _ = p
    rw [hp, hpy]

/-! ## The keyed format -/

def PathElement.Representable (conv : FloatConversion α) : PathElement α → Prop
  | .moveTo p => p.Representable conv
  | .lineTo p => p.Representable conv
  | .curveTo cp1 cp2 p => cp1.Representable conv ∧ cp2.Representable conv ∧ p.Representable conv
  | .closePath => True

theorem ofRawValue_serialized (type : NSBezierPathElement) :
    NSBezierPathElement.ofRawValue (UInt8.ofNat type.rawValue).toNat = some type := by
  cases type <;> rfl

/-- The loop reads one element. -/
theorem decodeSegment_encoded {e : PathElement α}
    {pts : AssociatedPoints α} (hf : e.Filled pts) (he : e.Representable conv)
    (h : Ahead data cursor (segmentBytes conv e.type pts ++ rest)) (self : NSBezierPath α) :
    ∃ cursor', decodeSegment conv data cursor self = some (cursor', self.append e) ∧ Ahead data cursor' rest := by
  cases e with
  | moveTo p =>
    simp only [PathElement.type, segmentBytes, List.append_assoc] at h
    obtain ⟨hc, h⟩ := deserializeChar_serialize _ h
    obtain ⟨q, hp, h, hq⟩ := deserializePoint_serialize _ h
    obtain rfl : pts.p0 = p := hf
    refine ⟨_, ?_, h⟩
    simp only [decodeSegment, hc, hp, hq he, ofRawValue_serialized, Option.bind_eq_bind, Option.bind_some]
    rfl
  | lineTo p =>
    simp only [PathElement.type, segmentBytes, List.append_assoc] at h
    obtain ⟨hc, h⟩ := deserializeChar_serialize _ h
    obtain ⟨q, hp, h, hq⟩ := deserializePoint_serialize _ h
    obtain rfl : pts.p0 = p := hf
    refine ⟨_, ?_, h⟩
    simp only [decodeSegment, hc, hp, hq he, ofRawValue_serialized, Option.bind_eq_bind, Option.bind_some]
    rfl
  | curveTo cp1 cp2 p =>
    simp only [PathElement.type, segmentBytes, List.append_assoc] at h
    obtain rfl : pts = ⟨cp1, cp2, p⟩ := hf
    obtain ⟨hc₁, h⟩ := deserializeChar_serialize _ h
    obtain ⟨q₁, hp₁, h, hq₁⟩ := deserializePoint_serialize _ h
    obtain ⟨hc₂, h⟩ := deserializeChar_serialize _ h
    obtain ⟨q₂, hp₂, h, hq₂⟩ := deserializePoint_serialize _ h
    obtain ⟨hc₃, h⟩ := deserializeChar_serialize _ h
    obtain ⟨q₃, hp₃, h, hq₃⟩ := deserializePoint_serialize _ h
    refine ⟨_, ?_, h⟩
    simp only [decodeSegment, hc₁, hp₁, hc₂, hp₂, hc₃, hp₃, hq₁ he.1, hq₂ he.2.1, hq₃ he.2.2,
      ofRawValue_serialized, Option.bind_eq_bind, Option.bind_some]
    rfl
  | closePath =>
    simp only [PathElement.type, segmentBytes, List.append_assoc] at h
    obtain ⟨hc₁, h⟩ := deserializeChar_serialize _ h
    obtain ⟨q₁, hp₁, h, -⟩ := deserializePoint_serialize _ h
    obtain ⟨hc₂, h⟩ := deserializeChar_serialize _ h
    obtain ⟨q₂, hp₂, h, -⟩ := deserializePoint_serialize _ h
    refine ⟨_, ?_, h⟩
    simp only [decodeSegment, hc₁, hp₁, hc₂, hp₂, ofRawValue_serialized, Option.bind_eq_bind, Option.bind_some]
    rfl

/-- How many bytes the keyed format takes for an element. -/
def segmentLength : PathElement α → Nat
  | .moveTo _ => 9
  | .lineTo _ => 9
  | .curveTo _ _ _ => 27
  | .closePath => 18

theorem segmentLength_pos (e : PathElement α) : 0 < segmentLength e := by
  cases e <;> simp [segmentLength]

theorem segmentBytes_length (e : PathElement α) (pts : AssociatedPoints α) :
    (segmentBytes conv e.type pts).length = segmentLength e := by
  cases e <;> rfl

theorem encodeSegments_length (elements : List (PathElement α)) (n i : Nat) (pts : AssociatedPoints α)
    (h : i + n = elements.length) :
    (encodeSegments conv elements n i pts).length = ((elements.drop i).map segmentLength).sum := by
  induction n generalizing i pts with
  | zero =>
    rw [List.drop_of_length_le (by omega)]
    rfl
  | succ n ih =>
    have hi : i < elements.length := by omega
    obtain ⟨pts', ha, -⟩ := elementAtIndex_of_lt hi pts
    simp only [encodeSegments, ha]
    rw [List.length_append, segmentBytes_length, ih (i + 1) pts' (by omega), List.drop_eq_getElem_cons hi,
      List.map_cons, List.sum_cons]

/-- The loop reads all elements and stops at the end of the data. -/
theorem decodeSegments_encoded (elements : List (PathElement α))
    (he : ∀ e ∈ elements, e.Representable conv) (data : List UInt8) (n i : Nat)
    (pts : AssociatedPoints α) (hn : i + n = elements.length) (cursor : UInt32)
    (h : Ahead data cursor (encodeSegments conv elements n i pts)) (self : NSBezierPath α) :
    decodeSegments conv data (n + 1) cursor self = some (self.appendAll (elements.drop i)) := by
  induction n generalizing i pts cursor self with
  | zero =>
    have hend : data.length ≤ cursor.toNat := List.drop_eq_nil_iff.1 h.drop
    rw [decodeSegments, if_neg (by omega), List.drop_of_length_le (by omega)]
    rfl
  | succ n ih =>
    have hi : i < elements.length := by omega
    obtain ⟨pts', ha, hf⟩ := elementAtIndex_of_lt hi pts
    simp only [encodeSegments, ha] at h
    obtain ⟨cursor', hd, hah⟩ := decodeSegment_encoded hf (he _ (List.getElem_mem hi)) h self
    have hlt : cursor.toNat < data.length := by
      have hl := congrArg List.length h.drop
      have hp := segmentLength_pos elements[i]
      rw [List.length_drop, List.length_append, segmentBytes_length] at hl
      omega
    rw [decodeSegments, if_pos hlt, hd]
    simp only
    rw [ih (i + 1) pts' (by omega) cursor' hah, List.drop_eq_getElem_cons hi]
    rfl

theorem decodeSegments_of_large (data : List UInt8) (h : 2 ^ 32 ≤ data.length) (fuel : Nat)
    (cursor : UInt32) (self : NSBezierPath α) : decodeSegments conv data fuel cursor self = none := by
  induction fuel generalizing cursor self with
  | zero => rfl
  | succ fuel ih =>
    have hc := cursor.toNat_lt
    rw [decodeSegments, if_pos (by omega)]
    cases decodeSegment conv data cursor self with
    | none => rfl
    | some next => exact ih next.1 next.2

theorem decodeSegments_mono {data : List UInt8} {fuel fuel' : Nat} (hle : fuel ≤ fuel')
    {self path : NSBezierPath α} (h : decodeSegments conv data fuel cursor self = some path) :
    decodeSegments conv data fuel' cursor self = some path := by
  induction fuel generalizing fuel' cursor self with
  | zero => cases h
  | succ fuel ih =>
    obtain ⟨k, rfl⟩ : ∃ k, fuel' = k + 1 := ⟨fuel' - 1, by omega⟩
    rw [decodeSegments] at h ⊢
    by_cases hlt : cursor.toNat < data.length
    · rw [if_pos hlt] at h ⊢
      cases hd : decodeSegment conv data cursor self with
      | none => simp only [hd] at h; cases h
      | some next =>
        simp only [hd] at h ⊢
        exact ih (by omega) h
    · rw [if_neg hlt] at h ⊢
      exact h

/-- What the keyed format has made of the attributes before it comes to the elements. -/
def keyedAttributes (conv : FloatConversion α) (d : Defaults α) (path : NSBezierPath α) :
    NSBezierPath α :=
  { NSBezierPath.init d with
    flatness := conv.widen (conv.narrow path.flatness)
    lineWidth := conv.widen (conv.narrow path.lineWidth)
    lineCapStyle := path.lineCapStyle
    lineJoinStyle := path.lineJoinStyle
    windingRule := path.windingRule
    miterLimit := conv.widen (conv.narrow path.miterLimit) }

theorem initKeyed_encoded (d : Defaults α) (pts : AssociatedPoints α) (path : NSBezierPath α) (fuel : Nat) :
    initKeyed conv d (encodeKeyed conv pts path) fuel =
      decodeSegments conv (encodeSegments conv path.pathElements path.elementCount 0 pts) fuel 0
        (keyedAttributes conv d path) := rfl

/-- The bytes that the elements of a path take. -/
def NSBezierPath.segmentsLength (path : NSBezierPath α) : Nat :=
  (path.pathElements.map segmentLength).sum

theorem encodeKeyed_length (pts : AssociatedPoints α) (path : NSBezierPath α) :
    (encodeSegments conv path.pathElements path.elementCount 0 pts).length = path.segmentsLength :=
  encodeSegments_length path.pathElements path.elementCount 0 pts (Nat.zero_add _)

/-- The decoder returns exactly when the segment data is shorter than the cursor can count. -/
theorem initKeyed_returns_iff (d : Defaults α) (pts : AssociatedPoints α) (path : NSBezierPath α)
    (hp : ∀ e ∈ path.pathElements, e.Representable conv) (path' : NSBezierPath α) :
    (∃ fuel, initKeyed conv d (encodeKeyed conv pts path) fuel = some path') ↔
      path.segmentsLength < 2 ^ 32 ∧ path' = (keyedAttributes conv d path).appendAll path.pathElements := by
  simp only [initKeyed_encoded]
  have hl : (encodeSegments conv path.pathElements path.elementCount 0 pts).length = path.segmentsLength :=
    encodeKeyed_length pts path
  have hr : path.segmentsLength < 2 ^ 32 →
      decodeSegments conv (encodeSegments conv path.pathElements path.elementCount 0 pts)
        (path.elementCount + 1) 0 (keyedAttributes conv d path) =
          some ((keyedAttributes conv d path).appendAll path.pathElements) := fun hs =>
    decodeSegments_encoded path.pathElements hp _ path.elementCount 0 pts (Nat.zero_add _) 0
      ⟨rfl, hl ▸ hs⟩ (keyedAttributes conv d path)
  constructor
  · rintro ⟨fuel, h⟩
    rcases Nat.lt_or_ge path.segmentsLength (2 ^ 32) with hs | hlrg
    · refine ⟨hs, ?_⟩
      have hm := decodeSegments_mono (Nat.le_max_left fuel (path.elementCount + 1)) h
      rw [decodeSegments_mono (Nat.le_max_right fuel (path.elementCount + 1)) (hr hs)] at hm
      exact (Option.some_inj.1 hm).symm
    · rw [decodeSegments_of_large _ (hl ▸ hlrg)] at h
      cases h
  · rintro ⟨hs, rfl⟩
    exact ⟨_, hr hs⟩

/-! ## The unkeyed format -/

theorem decodeElement_encoded {e : PathElement α} {pts : AssociatedPoints α} (hf : e.Filled pts)
    (rest : List (TypedValue α)) (self : NSBezierPath α) :
    (decodeElement self).run (elementValues e.type pts ++ rest) = some (self.append e, rest) := by
  cases e with
  | moveTo p =>
    obtain rfl : pts.p0 = p := hf
    rfl
  | lineTo p =>
    obtain rfl : pts.p0 = p := hf
    rfl
  | curveTo cp1 cp2 p =>
    obtain rfl : pts = ⟨cp1, cp2, p⟩ := hf
    rfl
  | closePath => rfl

theorem decodeElements_encoded (elements : List (PathElement α)) (n i : Nat) (pts : AssociatedPoints α)
    (hn : i + n ≤ elements.length) (self : NSBezierPath α) :
    (decodeElements n self).run (encodeElements elements n i pts) =
      some (self.appendAll ((elements.drop i).take n), []) := by
  induction n generalizing i pts self with
  | zero => rfl
  | succ n ih =>
    have hi : i < elements.length := by omega
    obtain ⟨pts', ha, hf⟩ := elementAtIndex_of_lt hi pts
    have hd := decodeElement_encoded hf (encodeElements elements n (i + 1) pts') self
    simp only [encodeElements, ha, decodeElements, StateT.run_bind, hd, Option.bind_eq_bind,
      Option.bind_some, ih (i + 1) pts' (by omega)]
    rw [List.drop_eq_getElem_cons hi]
    rfl

theorem intTurns_ofNat (n : Nat) :
    intTurns (UInt32.ofNat n) = if n % 2 ^ 32 < 2 ^ 31 then n % 2 ^ 32 else 0 := by
  have ht : (UInt32.ofNat n).toBitVec.toNat = n % 2 ^ 32 := UInt32.toNat_ofNat
  unfold intTurns
  rw [BitVec.toInt_eq_toNat_cond, ht]
  split <;> split <;> omega

theorem intTurns_le (n : Nat) : intTurns (UInt32.ofNat n) ≤ n := by
  have hm := Nat.mod_le n (2 ^ 32)
  rw [intTurns_ofNat]
  split <;> omega

theorem intTurns_eq_iff (n : Nat) : intTurns (UInt32.ofNat n) = n ↔ n < 2 ^ 31 := by
  rw [intTurns_ofNat]
  split <;> omega

/-- What the unkeyed format makes of the attributes before it comes to the elements. -/
def unkeyedAttributes (conv : FloatConversion α) (d : Defaults α) (path : NSBezierPath α) :
    NSBezierPath α :=
  { keyedAttributes conv d path with cachesBezierPath := path.cachesBezierPath }

theorem initUnkeyed_encoded (d : Defaults α) (pts : AssociatedPoints α) (path : NSBezierPath α) :
    initUnkeyed conv d (encodeUnkeyed conv pts path) = some ((unkeyedAttributes conv d path).appendAll
        (path.pathElements.take (intTurns (UInt32.ofNat path.elementCount)))) := by
  have hle : 0 + intTurns (UInt32.ofNat path.elementCount) ≤ path.pathElements.length := by
    rw [Nat.zero_add]
    exact intTurns_le path.elementCount
  have he := decodeElements_encoded path.pathElements _ 0 pts hle (unkeyedAttributes conv d path)
  have hv : (decodeValues conv classVersion (.init d)).run (encodeUnkeyed conv pts path).values =
      (decodeElements (intTurns (UInt32.ofNat path.elementCount)) (unkeyedAttributes conv d path)).run
        (encodeElements path.pathElements (intTurns (UInt32.ofNat path.elementCount)) 0 pts) := rfl
  show ((decodeValues conv classVersion (.init d)).run (encodeUnkeyed conv pts path).values).map Prod.fst = _
  rw [hv, he]
  rfl

/-! ## The round trip -/

/-- Decoding gives the drawing back, in both formats. -/
def RoundTrips (conv : FloatConversion α) (d : Defaults α) (path : NSBezierPath α) : Prop :=
  ∀ pts : AssociatedPoints α,
    (∃ path', (∃ fuel, initKeyed conv d (encodeKeyed conv pts path) fuel = some path') ∧
      SameDrawing path' path) ∧
    ∃ path', initUnkeyed conv d (encodeUnkeyed conv pts path) = some path' ∧ SameDrawing path' path

/-- No dash pattern, line attributes that are floats, and no more elements than the counters hold. -/
structure Archivable (conv : FloatConversion α) (path : NSBezierPath α) : Prop where
  noDash : path.lineDash = none
  lineWidth : conv.Representable path.lineWidth
  flatness : conv.Representable path.flatness
  miterLimit : conv.Representable path.miterLimit
  elementCount : path.elementCount < 2 ^ 31
  segmentsLength : path.segmentsLength < 2 ^ 32

/-- When the attributes that came through the archive, with elements added to them, are the path. -/
theorem appendAll_sameDrawing_iff {d : Defaults α} {path self : NSBezierPath α}
    (hs : SameDrawing self (keyedAttributes conv d path)) (elements : List (PathElement α)) :
    SameDrawing (self.appendAll elements) path ↔
      elements = path.pathElements ∧ path.lineDash = none ∧ conv.Representable path.lineWidth ∧
        conv.Representable path.flatness ∧ conv.Representable path.miterLimit := by
  have ha := appendAll_sameDrawing self elements
  have he : (self.appendAll elements).pathElements = elements := by
    rw [ha.pathElements, hs.pathElements]
    rfl
  have hd : (self.appendAll elements).lineDash = none := ha.lineDash.trans hs.lineDash
  have hwd := ha.lineWidth.trans hs.lineWidth
  have hfl := ha.flatness.trans hs.flatness
  have hmit := ha.miterLimit.trans hs.miterLimit
  constructor
  · intro h
    exact ⟨he.symm.trans h.pathElements, (hd.symm.trans h.lineDash).symm,
      hwd.symm.trans h.lineWidth, hfl.symm.trans h.flatness, hmit.symm.trans h.miterLimit⟩
  · rintro ⟨hsm, hn, hw, hf, hm⟩
    exact ⟨he.trans hsm, ha.windingRule.trans hs.windingRule,
      ha.lineCapStyle.trans hs.lineCapStyle, ha.lineJoinStyle.trans hs.lineJoinStyle,
      hwd.trans hw, hfl.trans hf, hmit.trans hm, hd.trans hn.symm⟩

theorem unkeyedAttributes_sameDrawing (d : Defaults α) (path : NSBezierPath α) :
    SameDrawing (unkeyedAttributes conv d path) (keyedAttributes conv d path) :=
  ⟨rfl, rfl, rfl, rfl, rfl, rfl, rfl, rfl⟩

theorem keyed_roundTrips_iff (d : Defaults α) (pts : AssociatedPoints α) (path : NSBezierPath α)
    (hp : ∀ e ∈ path.pathElements, e.Representable conv) :
    (∃ path', (∃ fuel, initKeyed conv d (encodeKeyed conv pts path) fuel = some path') ∧ SameDrawing path' path) ↔
      path.segmentsLength < 2 ^ 32 ∧ path.lineDash = none ∧ conv.Representable path.lineWidth ∧
        conv.Representable path.flatness ∧ conv.Representable path.miterLimit := by
  simp only [initKeyed_returns_iff d pts path hp]
  have ha : SameDrawing (keyedAttributes conv d path) (keyedAttributes conv d path) :=
    ⟨rfl, rfl, rfl, rfl, rfl, rfl, rfl, rfl⟩
  have hs := appendAll_sameDrawing_iff ha path.pathElements
  constructor
  · rintro ⟨path', ⟨hl, rfl⟩, h⟩
    exact ⟨hl, (hs.1 h).2⟩
  · rintro ⟨hl, h⟩
    exact ⟨_, ⟨hl, rfl⟩, hs.2 ⟨rfl, h⟩⟩

theorem unkeyed_roundTrips_iff (d : Defaults α) (pts : AssociatedPoints α) (path : NSBezierPath α) :
    (∃ path', initUnkeyed conv d (encodeUnkeyed conv pts path) = some path' ∧ SameDrawing path' path) ↔
      path.elementCount < 2 ^ 31 ∧ path.lineDash = none ∧ conv.Representable path.lineWidth ∧
        conv.Representable path.flatness ∧ conv.Representable path.miterLimit := by
  have hc : path.pathElements.take (intTurns (UInt32.ofNat path.elementCount)) = path.pathElements ↔
      path.elementCount < 2 ^ 31 := by
    rw [← intTurns_eq_iff, List.take_eq_self_iff]
    have hle := intTurns_le path.elementCount
    exact ⟨fun h => Nat.le_antisymm hle h, fun h => Nat.le_of_eq h.symm⟩
  simp only [initUnkeyed_encoded, Option.some_inj, exists_eq_left']
  rw [appendAll_sameDrawing_iff (unkeyedAttributes_sameDrawing d path), hc]

/-- A path whose coordinates are floats comes back from both archives exactly when it is `Archivable`. -/
theorem roundTrips_iff (conv : FloatConversion α) (d : Defaults α) (path : NSBezierPath α)
    (hpath : ∀ e ∈ path.pathElements, e.Representable conv) :
    RoundTrips conv d path ↔ Archivable conv path := by
  constructor
  · intro h
    let p : NSPoint α := ⟨path.lineWidth, path.lineWidth⟩
    obtain ⟨hk, hu⟩ := h ⟨p, p, p⟩
    obtain ⟨hl, hd, hw, hf, hm⟩ := (keyed_roundTrips_iff d _ path hpath).1 hk
    exact ⟨hd, hw, hf, hm, ((unkeyed_roundTrips_iff d _ path).1 hu).1, hl⟩
  · rintro ⟨hd, hw, hf, hm, hc, hl⟩ pts
    exact ⟨(keyed_roundTrips_iff d pts path hpath).2 ⟨hl, hd, hw, hf, hm⟩,
      (unkeyed_roundTrips_iff d pts path).2 ⟨hc, hd, hw, hf, hm⟩⟩

/-- Where `CGFloat` is `float`, as on a 32 bit platform, the conversions do nothing. -/
def floatCGFloat : FloatConversion (BitVec 32) := ⟨id, id⟩

/-- The defaults of the class as floats: 1.0, 0.6 and 10.0. -/
def classDefaults : Defaults (BitVec 32) where
  lineWidth := 0x3f800000
  flatness := 0x3f19999a
  lineCapStyle := 0
  lineJoinStyle := 0
  miterLimit := 0x41200000
  windingRule := 0
  zero := 0

/-- A dash of length 1.0 and nothing to draw. -/
def dashedPath : NSBezierPath (BitVec 32) := (NSBezierPath.init classDefaults).setLineDash [0x3f800000] 0

/-- A path that draws: a move, a line, a curve, a close, and a trailing move. -/
def plainPath : NSBezierPath (BitVec 32) :=
  ((NSBezierPath.init classDefaults).appendAll [.moveTo ⟨0, 0⟩, .lineTo ⟨0x3f800000, 0⟩,
    .curveTo ⟨0, 0⟩ ⟨0x3f800000, 0⟩ ⟨0, 0x3f800000⟩, .closePath, .moveTo ⟨0, 0⟩])

theorem roundTrips_plainPath :
    (∀ e ∈ plainPath.pathElements, e.Representable floatCGFloat) ∧
      (RoundTrips floatCGFloat classDefaults plainPath ↔ Archivable floatCGFloat plainPath) := by
  have hp : ∀ e ∈ plainPath.pathElements, e.Representable floatCGFloat := by
    intro e _
    cases e with
    | closePath => trivial
    | moveTo p => exact ⟨rfl, rfl⟩
    | lineTo p => exact ⟨rfl, rfl⟩
    | curveTo cp1 cp2 p => exact ⟨⟨rfl, rfl⟩, ⟨rfl, rfl⟩, rfl, rfl⟩
  exact ⟨hp, roundTrips_iff floatCGFloat classDefaults plainPath hp⟩

/-- Neither format holds the dash pattern. -/
theorem not_roundTrips_dashedPath :
    (∀ e ∈ dashedPath.pathElements, e.Representable floatCGFloat) ∧
      ¬ RoundTrips floatCGFloat classDefaults dashedPath := by
  refine ⟨(fun e he => nomatch he), fun h => ?_⟩
  obtain ⟨-, path', hd, hs⟩ := h ⟨⟨0, 0⟩, ⟨0, 0⟩, ⟨0, 0⟩⟩
  obtain rfl : NSBezierPath.init classDefaults = path' := Option.some_inj.1 hd
  exact absurd hs.lineDash (by decide)

end GnustepGui.BezierPath
