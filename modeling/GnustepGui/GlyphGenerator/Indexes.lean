import GnustepGui.GlyphGenerator.Generator

/-!
# Character indexes of generated glyphs

How a run is drawn is known from its characters: some keep their glyph in the buffer, some are sent at once with what is
in it, and some are decomposed. A cursor follows the index that the next glyph is given beside the character that is
read. They stay together, and the run ends where it has to, exactly when every decomposition gives one glyph and
something is sent with the last character.
-/

namespace GnustepGui.GlyphGenerator

/-! ## How characters are drawn -/

inductive Drawing
  /-- One character, whose glyph stays in the buffer. -/
  | kept
  /-- One glyph for a character and some more, sent at once. -/
  | sent (more : Nat)
  /-- The glyphs of the pieces that are found, sent one by one. -/
  | decomposed (found : Nat)
  deriving DecidableEq, Repr

/-- The characters that are read with the first. -/
def Drawing.more : Drawing → Nat
  | sent more => more
  | _ => 0

namespace Tables

/-- The pieces of a decomposition that get a glyph. -/
def found (t : Tables) (decomp : List Nat) : Nat :=
  (decomp.takeWhile fun piece => t.glyphForCharacter piece ≠ NSNullGlyph).length

def loneDrawing (t : Tables) (ch : Nat) (surr : Bool) : Drawing :=
  if t.glyphForCharacter (ch % 0x10000) ≠ NSNullGlyph then if surr then .sent 1 else .kept
  else
    match if ch < 0x10000 then t.uniIsDecomp ch else none with
    | some decomp => .decomposed (t.found decomp)
    | none => .sent (if surr then 1 else 0)

def drawing (t : Tables) (ch : Nat) (rest : List Nat) : Drawing :=
  if t.characterIsMember ch then .kept
  else if ch = NSAttachmentCharacter then .kept
  else
    match t.ligatureGlyph ch rest with
    | some (_, n) => .sent n
    | none => t.loneDrawing (surrogate ch rest).1 (surrogate ch rest).2

/-- Of the characters that are left, of which the first ones may have been read. -/
def drawings (t : Tables) : Nat → List Nat → List Drawing
  | _, [] => []
  | skip + 1, _ :: rest => drawings t skip rest
  | 0, ch :: rest => t.drawing ch rest :: drawings t (t.drawing ch rest).more rest

end Tables

/-! ## A cursor -/

/-- The index that a glyph is given, and the characters it is for; both are counted from the start of the run. -/
structure Entry where
  given : Nat
  source : Nat
  width : Nat

structure Cursor where
  /-- The index that the next glyph will be given. -/
  next : Nat
  /-- The character that is read next. -/
  place : Nat
  /-- There are glyphs in the buffer. -/
  pending : Bool
  entries : List Entry

namespace Cursor

def start : Cursor := ⟨0, 0, false, []⟩

def step (c : Cursor) : Drawing → Cursor
  | .kept => ⟨c.next + 1, c.place + 1, true, c.entries ++ [⟨c.next, c.place, 1⟩]⟩
  | .sent more => ⟨c.place + more + 1, c.place + more + 1, false, c.entries ++ [⟨c.next, c.place, more + 1⟩]⟩
  | .decomposed 0 => { c with place := c.place + 1 }
  | .decomposed (n + 1) =>
    ⟨c.place + 1, c.place + 1, false,
      c.entries ++ ⟨c.next, c.place, 1⟩ :: List.replicate n ⟨c.place + 1, c.place, 1⟩⟩

def run (c : Cursor) (ds : List Drawing) : Cursor := ds.foldl step c

theorem run_cons (c : Cursor) (d : Drawing) (ds : List Drawing) : c.run (d :: ds) = (c.step d).run ds := rfl

theorem place_step (c : Cursor) (d : Drawing) : (c.step d).place = c.place + d.more + 1 := by
  cases d with
  | decomposed found => cases found <;> rfl
  | _ => rfl

/-! ### Cursors that are exact -/

/-- Each glyph has been given the index of its character, and each character is that of a glyph. -/
structure Exact (c : Cursor) : Prop where
  next : c.next = c.place
  given : ∀ e ∈ c.entries, e.given = e.source
  lt : ∀ e ∈ c.entries, e.given < c.place
  ordered : c.entries.Pairwise fun e e' => e.given ≤ e'.given
  covered : ∀ o < c.place, ∃ e ∈ c.entries, e.source ≤ o ∧ o < e.source + e.width

/-- A decomposition gives one glyph. -/
def Single (d : Drawing) : Prop := ∀ found, d = .decomposed found → found = 1

variable {c : Cursor}

theorem exact_start : start.Exact := ⟨rfl, nofun, nofun, List.Pairwise.nil, nofun⟩

/-- One more glyph of some characters. -/
theorem Exact.push (h : c.Exact) (more : Nat) (pending : Bool) :
    Exact ⟨c.place + more + 1, c.place + more + 1, pending, c.entries ++ [⟨c.next, c.place, more + 1⟩]⟩ := by
  refine ⟨rfl, ?_, ?_, ?_, ?_⟩
  · rw [List.forall_mem_append, List.forall_mem_singleton]
    exact ⟨h.given, h.next⟩
  · rw [List.forall_mem_append, List.forall_mem_singleton]
    refine ⟨fun e he => ?_, ?_⟩
    · have hlt := h.lt e he
      show e.given < c.place + more + 1
      omega
    · show c.next < c.place + more + 1
      rw [h.next]
      omega
  · rw [List.pairwise_append]
    refine ⟨h.ordered, List.pairwise_singleton _ _, fun e he e' he' => ?_⟩
    obtain rfl := List.mem_singleton.mp he'
    have hlt := h.lt e he
    show e.given ≤ c.next
    rw [h.next]
    omega
  · intro o ho
    by_cases hin : o < c.place
    · obtain ⟨e, he, hc⟩ := h.covered o hin
      exact ⟨e, List.mem_append_left _ he, hc⟩
    · refine ⟨_, List.mem_append_right _ (List.mem_singleton_self _), Nat.le_of_not_lt hin, ?_⟩
      show o < c.place + (more + 1)
      exact ho

theorem Exact.step (h : c.Exact) {d : Drawing} (hd : Single d) : (c.step d).Exact := by
  cases d with
  | kept =>
    have hp := h.push 0 true
    show Exact ⟨c.next + 1, c.place + 1, true, _⟩
    rwa [show c.next + 1 = c.place + 0 + 1 by rw [h.next, Nat.add_zero]]
  | sent more => exact h.push more false
  | decomposed found =>
    obtain rfl := hd found rfl
    exact h.push 0 false

/-! ### Cursors that are not -/

/-- A glyph has been given the index of another character, or the next one will be. -/
def Spoiled (c : Cursor) : Prop := (∃ e ∈ c.entries, e.given ≠ e.source) ∨ c.next < c.place

theorem entries_step (c : Cursor) (d : Drawing) : (∀ e ∈ c.entries, e ∈ (c.step d).entries) ∧
      (d = .decomposed 0 ∨ ⟨c.next, c.place, d.more + 1⟩ ∈ (c.step d).entries) := by
  cases d with
  | kept => exact ⟨fun e he => List.mem_append_left _ he, .inr (List.mem_append_right _ (List.mem_singleton_self _))⟩
  | sent more => exact ⟨fun e he => List.mem_append_left _ he, .inr (List.mem_append_right _ (List.mem_singleton_self _))⟩
  | decomposed found =>
    cases found with
    | zero => exact ⟨fun e he => he, .inl rfl⟩
    | succ n => exact ⟨fun e he => List.mem_append_left _ he, .inr (List.mem_append_right _ List.mem_cons_self)⟩

theorem Spoiled.step (h : c.Spoiled) (d : Drawing) : (c.step d).Spoiled := by
  obtain ⟨hk, ha⟩ := c.entries_step d
  rcases h with ⟨e, he, hne⟩ | hlt
  · exact .inl ⟨e, hk e he, hne⟩
  · rcases ha with rfl | hm
    · exact .inr (Nat.lt_succ_of_lt hlt)
    · exact .inl ⟨_, hm, Nat.ne_of_lt hlt⟩

theorem spoiled_of_not_single (hle : c.next ≤ c.place) {d : Drawing} (hd : ¬ Single d) : (c.step d).Spoiled := by
  cases d with
  | kept => exact absurd nofun hd
  | sent more => exact absurd nofun hd
  | decomposed found =>
    match found with
    | 0 => exact .inr (Nat.lt_succ_of_le hle)
    | 1 =>
      refine absurd (fun found hf => ?_) hd
      cases hf
      rfl
    | n + 2 =>
      refine .inl ⟨⟨c.place + 1, c.place, 1⟩, ?_, Nat.succ_ne_self _⟩
      exact List.mem_append_right _ (List.mem_cons_of_mem _ (List.mem_replicate.mpr ⟨Nat.succ_ne_zero n, rfl⟩))

theorem Spoiled.run (h : c.Spoiled) (ds : List Drawing) : (c.run ds).Spoiled := by
  induction ds generalizing c with
  | nil => exact h
  | cons d ds ih => exact ih (h.step d)

theorem run_cases (ds : List Drawing) (h : c.Exact) :
    ((∀ d ∈ ds, Single d) ∧ (c.run ds).Exact) ∨ ((¬ ∀ d ∈ ds, Single d) ∧ (c.run ds).Spoiled) := by
  induction ds generalizing c with
  | nil => exact .inl ⟨nofun, h⟩
  | cons d ds ih =>
    rw [List.forall_mem_cons, run_cons]
    by_cases hd : Single d
    · rcases ih (h.step hd) with ⟨ha, hexact⟩ | ⟨hn, hs⟩
      · exact .inl ⟨⟨hd, ha⟩, hexact⟩
      · exact .inr ⟨fun ha => hn ha.2, hs⟩
    · exact .inr ⟨fun ha => hd ha.1, (spoiled_of_not_single (Nat.le_of_eq h.next) hd).run ds⟩

theorem pending_run (ds : List Drawing) (hds : ∀ d ∈ ds, Single d) :
    (c.run ds).pending = ds.getLast?.elim c.pending (· = .kept) := by
  induction ds generalizing c with
  | nil => rfl
  | cons d ds ih =>
    obtain ⟨hd, hds⟩ := List.forall_mem_cons.mp hds
    have hp : (c.step d).pending = decide (d = .kept) := by
      cases d with
      | kept => rfl
      | sent more => rfl
      | decomposed found =>
        obtain rfl := hd found rfl
        rfl
    rw [run_cons, ih hds, hp, List.getLast?_cons]
    cases ds.getLast? <;> rfl

end Cursor

/-! ## The generator follows the cursor -/

/-- The index of an inserted glyph, and the characters it is for. -/
def Insertion.entry (x : Insertion) : Nat × Nat × Nat := (x.characterIndex, x.drawn.source, x.drawn.width)

def Entry.inRun (start : Nat) (e : Entry) : Nat × Nat × Nat := (start + e.given, e.source, e.width)

namespace State

/-- What is in the storage, or will be when the buffer is sent. -/
def inserted (s : State) : List Insertion := s.storage ++ insertGlyphs s.glyph s.index s.glyphs

variable {s : State}

theorem insertGlyphs_append (glyphIndex characterIndex : Nat) (glyphs : List Drawn) (d : Drawn) :
    insertGlyphs glyphIndex characterIndex (glyphs ++ [d]) = insertGlyphs glyphIndex characterIndex glyphs ++
      [⟨d, glyphIndex + glyphs.length, characterIndex + glyphs.length⟩] := by
  induction glyphs generalizing glyphIndex characterIndex with
  | nil => rfl
  | cons d' glyphs ih =>
    rw [List.cons_append, insertGlyphs, insertGlyphs, ih, List.length_cons, List.cons_append, Nat.add_right_comm _ 1,
      Nat.add_right_comm _ 1]
    rfl

theorem inserted_put (d : Drawn) :
    (s.put d).inserted = s.inserted ++ [⟨d, s.glyph + s.glyphs.length, s.index + s.glyphs.length⟩] := by
  rw [inserted, put, insertGlyphs_append, inserted, List.append_assoc]

theorem sendGlyphs_put (s : State) (d : Drawn) :
    (s.put d).sendGlyphs =
      { s with
        storage := (s.put d).inserted
        index := s.index + (s.i + 1 - s.cstart)
        glyph := s.glyph + (s.put d).glyphs.length
        glyphs := []
        cstart := s.i + 1 } := by
  have hl : (s.put d).glyphs.length ≠ 0 := by simp [put]
  rw [sendGlyphs, if_pos hl]
  rfl

theorem inserted_sendGlyphs (s : State) : s.sendGlyphs.inserted = s.inserted := by
  unfold sendGlyphs
  split
  · exact List.append_nil _
  · rfl

/-- The state of the loop that a cursor stands for. -/
structure Follows (s : State) (start : Nat) (c : Cursor) : Prop where
  i : s.i = c.place
  cstart : s.cstart ≤ s.i
  index : s.index = start + s.cstart
  next : s.cstart + s.glyphs.length = c.next
  pending : s.glyphs ≠ [] ↔ c.pending = true
  entries : s.inserted.map Insertion.entry = c.entries.map (Entry.inRun start)

variable {start : Nat} {c : Cursor}

theorem Follows.kept (h : Follows s start c) (gl : Nat) :
    Follows { s.put ⟨gl, s.i, 1⟩ with i := s.i + 1 } start (c.step .kept) where
  i := congrArg (· + 1) h.i
  cstart := Nat.le_succ_of_le h.cstart
  index := h.index
  next := by
    show s.cstart + (s.glyphs ++ [_]).length = c.next + 1
    rw [List.length_append, List.length_singleton, ← Nat.add_assoc, h.next]
  pending := iff_of_true (List.append_ne_nil_of_right_ne_nil _ (List.cons_ne_nil _ _)) rfl
  entries := by
    show (s.put ⟨gl, s.i, 1⟩).inserted.map _ = (c.entries ++ [_]).map _
    rw [inserted_put, List.map_append, List.map_append, h.entries, List.map_singleton, List.map_singleton]
    show _ ++ [(s.index + s.glyphs.length, s.i, 1)] = _
    rw [h.index, Nat.add_assoc, h.next, h.i]
    rfl

/-- A glyph that is sent with the buffer. -/
theorem Follows.sent (h : Follows s start c) (gl more : Nat) :
    Follows { (State.put { s with i := s.i + more } ⟨gl, s.i, more + 1⟩).sendGlyphs with i := s.i + more + 1 } start
      (c.step (.sent more)) := by
  rw [sendGlyphs_put]
  have hc := h.cstart
  refine ⟨?_, Nat.le_refl _, ?_, ?_, iff_of_false (fun hne => hne rfl) Bool.false_ne_true, ?_⟩
  · show s.i + more + 1 = c.place + more + 1
    rw [h.i]
  · show s.index + (s.i + more + 1 - s.cstart) = start + (s.i + more + 1)
    rw [h.index]
    omega
  · show s.i + more + 1 + 0 = c.place + more + 1
    rw [h.i, Nat.add_zero]
  · show ((State.put { s with i := s.i + more } ⟨gl, s.i, more + 1⟩).inserted ++ []).map _ = (c.entries ++ [_]).map _
    rw [List.append_nil, inserted_put, List.map_append, List.map_append]
    show s.inserted.map _ ++ _ = _
    rw [h.entries, List.map_singleton, List.map_singleton]
    show _ ++ [(s.index + s.glyphs.length, s.i, more + 1)] = _
    rw [h.index, Nat.add_assoc, h.next, h.i]
    rfl

theorem found_cons_of_null {t : Tables} {piece : Nat} (decomp : List Nat)
    (hp : t.glyphForCharacter piece = NSNullGlyph) : t.found (piece :: decomp) = 0 := by
  rw [Tables.found, List.takeWhile_cons_of_neg (by simpa using hp)]
  rfl

theorem found_cons_of_ne {t : Tables} {piece : Nat} (decomp : List Nat)
    (hp : t.glyphForCharacter piece ≠ NSNullGlyph) : t.found (piece :: decomp) = t.found decomp + 1 := by
  rw [Tables.found, List.takeWhile_cons_of_pos (by simpa using hp)]
  rfl

theorem sendPieces_rest (t : Tables) (source : Nat) (decomp : List Nat) (hg : s.glyphs = []) (hc : s.cstart = s.i + 1) :
    (t.sendPieces source decomp s).i = s.i ∧ (t.sendPieces source decomp s).cstart = s.cstart ∧
      (t.sendPieces source decomp s).index = s.index ∧ (t.sendPieces source decomp s).glyphs = [] ∧
      (t.sendPieces source decomp s).inserted.map Insertion.entry =
        s.inserted.map Insertion.entry ++ List.replicate (t.found decomp) (s.index, source, 1) := by
  induction decomp generalizing s with
  | nil => exact ⟨rfl, rfl, rfl, hg, (List.append_nil _).symm⟩
  | cons piece decomp ih =>
    rw [Tables.sendPieces]
    by_cases hp : t.glyphForCharacter piece = NSNullGlyph
    · rw [if_pos hp, found_cons_of_null decomp hp]
      exact ⟨rfl, rfl, rfl, hg, (List.append_nil _).symm⟩
    · have hidx : s.index + (s.i + 1 - s.cstart) = s.index := by omega
      rw [if_neg hp, found_cons_of_ne decomp hp]
      have he := inserted_sendGlyphs (s.put ⟨t.glyphForCharacter piece, source, 1⟩)
      have hs := sendGlyphs_put s ⟨t.glyphForCharacter piece, source, 1⟩
      generalize (s.put ⟨t.glyphForCharacter piece, source, 1⟩).sendGlyphs = s1 at he hs ⊢
      have hg1 : s1.glyphs = [] := by rw [hs]
      have hi1 : s1.i = s.i := by rw [hs]
      have hc1 : s1.cstart = s.i + 1 := by rw [hs]
      have hidx1 : s1.index = s.index := by rw [hs, hidx]
      obtain ⟨hi, hc', hidx', hg', hr⟩ := ih hg1 (by rw [hc1, hi1])
      refine ⟨hi.trans hi1, ?_, hidx'.trans hidx1, hg', ?_⟩
      · rw [hc', hc1, hc]
      · rw [hr, he, inserted_put, List.map_append, List.append_assoc, hg, hidx1, List.replicate_succ]
        rfl

theorem Follows.decomposed (h : Follows s start c) (t : Tables) (decomp : List Nat) :
    Follows { t.sendPieces s.i decomp s with i := s.i + 1 } start (c.step (.decomposed (t.found decomp))) ∧
      (t.sendPieces s.i decomp s).i = s.i := by
  cases decomp with
  | nil =>
    refine ⟨⟨congrArg (· + 1) h.i, Nat.le_succ_of_le h.cstart, h.index, h.next, h.pending, h.entries⟩, rfl⟩
  | cons piece decomp =>
    rw [Tables.sendPieces]
    by_cases hp : t.glyphForCharacter piece = NSNullGlyph
    · rw [if_pos hp, found_cons_of_null decomp hp]
      exact ⟨⟨congrArg (· + 1) h.i, Nat.le_succ_of_le h.cstart, h.index, h.next, h.pending, h.entries⟩, rfl⟩
    · rw [if_neg hp, found_cons_of_ne decomp hp]
      have hf : Follows { (s.put ⟨t.glyphForCharacter piece, s.i, 1⟩).sendGlyphs with i := s.i + 1 } start
          (c.step (.sent 0)) := h.sent (t.glyphForCharacter piece) 0
      have hs := sendGlyphs_put s ⟨t.glyphForCharacter piece, s.i, 1⟩
      generalize (s.put ⟨t.glyphForCharacter piece, s.i, 1⟩).sendGlyphs = s1 at hf hs ⊢
      have hg1 : s1.glyphs = [] := by rw [hs]
      have hi1 : s1.i = s.i := by rw [hs]
      have hc1 : s1.cstart = s1.i + 1 := by rw [hs]
      obtain ⟨hi, hc, hidx, hg, he⟩ := sendPieces_rest t s.i decomp hg1 hc1
      have hidx1 : s1.index = start + s1.cstart := hf.index
      refine ⟨⟨congrArg (· + 1) h.i, ?_, ?_, ?_, iff_of_false (fun hne => hne hg) Bool.false_ne_true, ?_⟩,
        hi.trans hi1⟩
      · show (t.sendPieces s.i decomp s1).cstart ≤ s.i + 1
        exact Nat.le_of_eq (by rw [hc, hc1, hi1])
      · show (t.sendPieces s.i decomp s1).index = start + (t.sendPieces s.i decomp s1).cstart
        rw [hidx, hc, hidx1]
      · show (t.sendPieces s.i decomp s1).cstart + (t.sendPieces s.i decomp s1).glyphs.length = c.place + 1
        rw [hg, hc, hc1, hi1, h.i]
        rfl
      · show (t.sendPieces s.i decomp s1).inserted.map _ = (c.entries ++ _ :: _).map _
        have he1 : s1.inserted.map Insertion.entry = (c.entries ++ [_]).map (Entry.inRun start) := hf.entries
        rw [he, he1, hidx1, hc1, hi1, h.i, List.map_append, List.map_append, List.map_singleton,
          List.append_assoc, List.map_cons, List.map_replicate]
        rfl

theorem Follows.withFallback (h : Follows s start c) (fallback : Nat) :
    Follows { s with fallback := fallback } start c := ⟨h.i, h.cstart, h.index, h.next, h.pending, h.entries⟩

theorem i_sendGlyphs (s : State) : s.sendGlyphs.i = s.i := by
  unfold sendGlyphs
  split <;> rfl

end State

namespace Tables

open State

variable {s : State} {start : Nat} {c : Cursor} (t : Tables)

theorem lone_false_follows (h : Follows s start c) (ch : Nat) :
    Follows { t.lone ch false s.i s with i := (t.lone ch false s.i s).i + 1 } start
        (c.step (t.loneDrawing ch false)) ∧
      (t.lone ch false s.i s).i = s.i + (t.loneDrawing ch false).more := by
  unfold lone loneDrawing
  by_cases hg : t.glyphForCharacter (ch % 0x10000) ≠ NSNullGlyph
  · rw [if_pos hg, if_pos hg]
    exact ⟨h.kept _, rfl⟩
  · rw [if_neg hg, if_neg hg]
    cases if ch < 0x10000 then t.uniIsDecomp ch else none with
    | some decomp =>
      obtain ⟨hf, hi⟩ := h.decomposed t decomp
      refine ⟨?_, hi⟩
      dsimp only
      rw [hi]
      exact hf
    | none =>
      dsimp only
      generalize (if s.fallback = NSNullGlyph then t.glyphForCharacter 0x3f else s.fallback) = fallback
      refine ⟨?_, i_sendGlyphs _⟩
      rw [i_sendGlyphs]
      exact (h.withFallback fallback).sent fallback 0

theorem lone_true_follows (h : Follows s start c) {ch : Nat} (hc : 0x10000 ≤ ch) :
    Follows { t.lone ch true s.i { s with i := s.i + 1 } with
        i := (t.lone ch true s.i { s with i := s.i + 1 }).i + 1 } start (c.step (t.loneDrawing ch true)) ∧
      (t.lone ch true s.i { s with i := s.i + 1 }).i = s.i + (t.loneDrawing ch true).more := by
  unfold lone loneDrawing
  by_cases hg : t.glyphForCharacter (ch % 0x10000) ≠ NSNullGlyph
  · rw [if_pos hg, if_pos hg]
    dsimp only
    rw [if_pos rfl, if_pos rfl]
    refine ⟨?_, i_sendGlyphs _⟩
    rw [i_sendGlyphs]
    exact h.sent _ 1
  · rw [if_neg hg, if_neg hg, if_neg (Nat.not_lt.mpr hc)]
    dsimp only
    generalize (if s.fallback = NSNullGlyph then t.glyphForCharacter 0x3f else s.fallback) = fallback
    rw [if_pos rfl]
    refine ⟨?_, i_sendGlyphs _⟩
    rw [i_sendGlyphs]
    exact (h.withFallback fallback).sent fallback 1

theorem le_of_surrogate {ch ch' : Nat} {rest : List Nat} (h : surrogate ch rest = (ch', true)) : 0x10000 ≤ ch' := by
  unfold surrogate at h
  split at h
  · cases rest with
    | nil => cases h
    | cons ch2 more =>
      dsimp only at h
      split at h
      · obtain rfl := congrArg Prod.fst h
        exact Nat.le_add_left _ _
      · cases h
  · cases h

theorem character_follows (h : Follows s start c) (ch : Nat) (rest : List Nat) :
    Follows { t.character ch rest s with i := (t.character ch rest s).i + 1 } start (c.step (t.drawing ch rest)) ∧
      (t.character ch rest s).i = s.i + (t.drawing ch rest).more := by
  unfold character drawing
  split
  · exact ⟨h.kept _, rfl⟩
  · split
    · exact ⟨h.kept _, rfl⟩
    · cases t.ligatureGlyph ch rest with
      | some ligature =>
        obtain ⟨gl, n⟩ := ligature
        refine ⟨?_, i_sendGlyphs _⟩
        dsimp only
        rw [i_sendGlyphs]
        exact h.sent gl n
      | none =>
        cases hp : surrogate ch rest with
        | mk ch' surr =>
          cases surr with
          | false => exact t.lone_false_follows h ch'
          | true => exact t.lone_true_follows h (le_of_surrogate hp)

theorem generate_follows (skip : Nat) (chars : List Nat) (h : Follows s start c) :
    Follows (t.generate skip chars s) start (c.run (t.drawings skip chars)) := by
  induction chars generalizing skip s c with
  | nil =>
    rw [generate, drawings]
    exact h
  | cons ch rest ih =>
    cases skip with
    | succ skip => exact ih skip h
    | zero =>
      obtain ⟨hf, hi⟩ := t.character_follows h ch rest
      rw [generate, drawings, Cursor.run_cons]
      have hm : (t.character ch rest s).i - s.i = (t.drawing ch rest).more := by omega
      rw [← hm]
      exact ih _ hf

/-! ## The characters of the run -/

theorem ligatureGlyph_le {ch gl n : Nat} {rest : List Nat} (h : t.ligatureGlyph ch rest = some (gl, n)) :
    n ≤ rest.length := by
  have hm {gl' m : Nat} {p : Prop} [Decidable p] {x : Option Nat}
      (hx : (if p then x.map (·, m) else none) = some (gl', n)) : p ∧ m = n := by
    split at hx
    · next hp =>
      obtain ⟨_, _, heq⟩ := Option.map_eq_some_iff.mp hx
      exact ⟨hp, congrArg Prod.snd heq⟩
    · cases hx
  unfold ligatureGlyph at h
  cases rest with
  | nil => cases h
  | cons ch2 more =>
    dsimp only at h
    split at h
    · have ht {a : Nat} (hh : ch2 = 0x66 ∧ more.head? = some a) : 2 ≤ (ch2 :: more).length := by
        cases more with
        | nil => exact absurd hh.2 nofun
        | cons _ _ => exact Nat.le_add_left _ _
      have ho : 1 ≤ (ch2 :: more).length := Nat.le_add_left _ _
      simp only [Option.orElse_eq_orElse, Option.orElse_eq_or, Option.or_eq_some_iff] at h
      rcases h with hf | ⟨-, hffi | ⟨-, hff | ⟨-, hfi | ⟨-, hfl⟩⟩⟩⟩
      · obtain ⟨hh, rfl⟩ := hm hf
        exact ht hh
      · obtain ⟨hh, rfl⟩ := hm hffi
        exact ht hh
      · exact (hm hff).2 ▸ ho
      · exact (hm hfi).2 ▸ ho
      · exact (hm hfl).2 ▸ ho
    · cases h

theorem more_le (ch : Nat) (rest : List Nat) : (t.drawing ch rest).more ≤ rest.length := by
  unfold drawing
  split
  · exact Nat.zero_le _
  · split
    · exact Nat.zero_le _
    · cases hl : t.ligatureGlyph ch rest with
      | some ligature => exact t.ligatureGlyph_le hl
      | none =>
        cases hp : surrogate ch rest with
        | mk ch' surr =>
          have hm : (t.loneDrawing ch' surr).more ≤ if surr then 1 else 0 := by
            unfold loneDrawing
            split
            · cases surr <;> exact Nat.le_refl _
            · split
              · exact Nat.zero_le _
              · cases surr <;> exact Nat.le_refl _
          refine Nat.le_trans hm ?_
          cases surr with
          | false => exact Nat.zero_le _
          | true =>
            cases rest with
            | nil =>
              unfold surrogate at hp
              split at hp <;> cases hp
            | cons _ _ => exact Nat.le_add_left _ _

theorem place_run (skip : Nat) (chars : List Nat) (hs : skip ≤ chars.length) :
    (c.run (t.drawings skip chars)).place + skip = c.place + chars.length := by
  induction chars generalizing skip c with
  | nil =>
    obtain rfl := Nat.le_zero.mp hs
    rfl
  | cons ch rest ih =>
    cases skip with
    | succ skip =>
      have hr := ih skip (Nat.le_of_succ_le_succ hs) (c := c)
      rw [drawings, List.length_cons]
      omega
    | zero =>
      have hr := ih _ (t.more_le ch rest) (c := c.step (t.drawing ch rest))
      rw [Cursor.place_step] at hr
      rw [drawings, Cursor.run_cons, List.length_cons]
      omega

end Tables

/-! ## Runs of text -/

/-- Glyphs are in the run, in the order of their characters, each at the character it is for; every character is that of
a glyph, and the index that is left is behind the run. -/
structure Coherent (start num : Nat) (s : State) : Prop where
  inRun : ∀ x ∈ s.storage, start ≤ x.characterIndex ∧ x.characterIndex < start + num
  ordered : s.storage.Pairwise fun x y => x.characterIndex ≤ y.characterIndex
  sources : ∀ x ∈ s.storage, x.characterIndex = start + x.drawn.source
  covered : ∀ o < num, ∃ x ∈ s.storage, x.drawn.source ≤ o ∧ o < x.drawn.source + x.drawn.width
  index : s.index = start + num

variable {s : State} {start num : Nat} {c : Cursor}

theorem State.storage_sendGlyphs (s : State) : s.sendGlyphs.storage = s.inserted := by
  unfold State.sendGlyphs State.inserted
  split
  · rfl
  · next hl =>
    rw [List.eq_nil_of_length_eq_zero (not_not.mp hl)]
    exact (List.append_nil _).symm

theorem State.Follows.index_sendGlyphs (h : s.Follows start c) :
    s.sendGlyphs.index = if c.pending then start + c.place + 1 else start + c.next := by
  have hcst := h.cstart
  have hn := h.next
  unfold State.sendGlyphs
  by_cases hg : s.glyphs = []
  · have hp : c.pending = false := Bool.eq_false_iff.mpr fun hc => h.pending.mpr hc hg
    rw [hg] at hn
    rw [if_neg (by rw [hg]; exact not_not.mpr rfl), hp, if_neg Bool.false_ne_true, h.index, ← hn]
    rfl
  · rw [if_pos (fun hl => hg (List.eq_nil_of_length_eq_zero hl)), h.pending.mp hg, if_pos rfl]
    show s.index + (s.i + 1 - s.cstart) = _
    rw [h.index, ← h.i]
    omega

/-- The end of a run, as it is known from the cursor. -/
theorem coherent_iff (h : s.Follows start c) (hp : c.place = num) :
    Coherent start num s.sendGlyphs ↔ c.Exact ∧ c.pending = false := by
  have hf (p : Nat × Nat × Nat → Prop) : (∀ x ∈ s.inserted, p x.entry) ↔ ∀ e ∈ c.entries, p (e.inRun start) := by
    rw [← List.forall_mem_map, h.entries, List.forall_mem_map]
  have hpr (r : Nat × Nat × Nat → Nat × Nat × Nat → Prop) : (s.inserted.Pairwise fun x y => r x.entry y.entry) ↔
        c.entries.Pairwise fun e e' => r (e.inRun start) (e'.inRun start) := by
    rw [← List.pairwise_map, h.entries, List.pairwise_map]
  have hexists (p : Nat × Nat × Nat → Prop) : (∃ x ∈ s.inserted, p x.entry) ↔ ∃ e ∈ c.entries, p (e.inRun start) := by
    refine not_iff_not.mp ?_
    push Not
    exact hf fun t => ¬ p t
  have hi := h.index_sendGlyphs
  have hs := s.storage_sendGlyphs
  constructor
  · rintro ⟨hin, hord, hsr, hcov, hend⟩
    rw [hs] at hin hord hsr hcov
    have hpn : c.pending = false := by
      refine Bool.eq_false_iff.mpr fun hc => ?_
      rw [hc, if_pos rfl] at hi
      omega
    rw [hpn, if_neg Bool.false_ne_true] at hi
    have hg := (hf fun t => t.1 = start + t.2.1).mp hsr
    have hlt := (hf fun t => start ≤ t.1 ∧ t.1 < start + num).mp hin
    have hle := (hpr fun t t' => t.1 ≤ t'.1).mp hord
    refine ⟨⟨by omega, fun e he => ?_, fun e he => ?_, ?_, fun o ho => ?_⟩, hpn⟩
    · exact Nat.add_left_cancel (hg e he)
    · have hb := (hlt e he).2
      rw [hp]
      exact Nat.lt_of_add_lt_add_left hb
    · exact hle.imp fun hle => Nat.le_of_add_le_add_left hle
    · rw [hp] at ho
      exact (hexists fun t => t.2.1 ≤ o ∧ o < t.2.1 + t.2.2).mp (hcov o ho)
  · rintro ⟨hexact, hpn⟩
    rw [hpn, if_neg Bool.false_ne_true, hexact.next, hp] at hi
    refine ⟨?_, ?_, ?_, fun o ho => ?_, hi⟩
    · rw [hs]
      refine (hf fun t => start ≤ t.1 ∧ t.1 < start + num).mpr fun e he => ?_
      have hlt := hexact.lt e he
      rw [hp] at hlt
      exact ⟨Nat.le_add_right _ _, Nat.add_lt_add_left hlt _⟩
    · rw [hs]
      exact (hpr fun t t' => t.1 ≤ t'.1).mpr (hexact.ordered.imp fun hle => Nat.add_le_add_left hle _)
    · rw [hs]
      exact (hf fun t => t.1 = start + t.2.1).mpr fun e he => congrArg (start + ·) (hexact.given e he)
    · rw [hs]
      exact (hexists fun t => t.2.1 ≤ o ∧ o < t.2.1 + t.2.2).mpr (hexact.covered o (hp ▸ ho))

/-- The decompositions of a run have one glyph each, and something is sent with the last character. -/
def Suited (ds : List Drawing) : Prop := (∀ found, .decomposed found ∈ ds → found = 1) ∧ ds.getLast? ≠ some .kept

theorem start_follows (glyph start : Nat) : State.Follows ⟨0, 0, glyph, start, [], [], NSNullGlyph⟩ start .start :=
  ⟨rfl, Nat.le_refl _, rfl, rfl, iff_of_false (fun hne => hne rfl) Bool.false_ne_true, rfl⟩

theorem Cursor.Spoiled.not_exact (h : c.Spoiled) : ¬ c.Exact := by
  intro hexact
  rcases h with ⟨e, he, hne⟩ | hlt
  · exact hne (hexact.given e he)
  · exact Nat.ne_of_lt hlt hexact.next

theorem Cursor.exact_run_iff (ds : List Drawing) :
    (Cursor.start.run ds).Exact ∧ (Cursor.start.run ds).pending = false ↔ Suited ds := by
  have hs : (∀ found, .decomposed found ∈ ds → found = 1) ↔ ∀ d ∈ ds, Single d := by
    constructor
    · rintro h d hd found rfl
      exact h found hd
    · exact fun h found hf => h _ hf found rfl
  rw [Suited, hs]
  rcases run_cases ds exact_start with ⟨ha, hexact⟩ | ⟨hn, hsp⟩
  · rw [and_iff_right hexact, and_iff_right ha, pending_run ds ha]
    cases ds.getLast? with
    | none => exact iff_of_true rfl nofun
    | some d =>
      show decide (d = .kept) = false ↔ some d ≠ some .kept
      rw [decide_eq_false_iff_not, ne_eq, Option.some.injEq]
  · exact iff_of_false (fun h => hsp.not_exact h.1) fun h => hn h.1

/-- A run of a text, for any font and any tables. -/
theorem generateGlyphs_coherent_iff (characterIsMember : Nat → Bool) (uniIsDecomp : Nat → Option (List Nat))
    (ligature : Option Int) (glyphForCharacter : Nat → Nat) (string : List Nat) (num glyph index : Nat)
    (hrange : index + num ≤ string.length) :
    (∃ s, generateGlyphsForGlyphStorage characterIsMember uniIsDecomp ⟨ligature, some glyphForCharacter⟩ string num
        glyph index = .ok s ∧ Coherent index num s) ↔
      Suited (Tables.drawings ⟨characterIsMember, uniIsDecomp, glyphForCharacter, ligature.getD 1⟩ 0
        ((string.drop index).take num)) := by
  unfold generateGlyphsForGlyphStorage
  rw [if_neg (Nat.not_lt.mpr hrange)]
  dsimp only
  generalize (⟨characterIsMember, uniIsDecomp, glyphForCharacter, ligature.getD 1⟩ : Tables) = t
  have hl : ((string.drop index).take num).length = num := by
    rw [List.length_take, List.length_drop]
    omega
  generalize (string.drop index).take num = chars at hl
  have hf := t.generate_follows 0 chars (start_follows glyph index)
  have hp : (Cursor.start.run (t.drawings 0 chars)).place = num :=
    (t.place_run 0 chars (Nat.zero_le _)).trans ((Nat.zero_add _).trans hl)
  have hm : (∃ s, (Except.ok
      (t.generate 0 chars ⟨0, 0, glyph, index, [], [], NSNullGlyph⟩).sendGlyphs : Except GlyphError State) = .ok s ∧
        Coherent index num s) ↔
        Coherent index num (t.generate 0 chars ⟨0, 0, glyph, index, [], [], NSNullGlyph⟩).sendGlyphs := by
    constructor
    · rintro ⟨s, hok, hc⟩
      obtain rfl := Except.ok.inj hok
      exact hc
    · exact fun hc => ⟨_, rfl, hc⟩
  rw [hm, coherent_iff hf hp]
  exact Cursor.exact_run_iff _

/-- Two characters, the second of which has no glyph of its own and is drawn by the first piece of its decomposition,
between others. -/
theorem generateGlyphs_coherent_iff_accent :
    (∃ s, generateGlyphsForGlyphStorage (fun ch => ch < 0x20) (fun ch => if ch = 0xe9 then some [0x65, 0x301] else none)
        ⟨none, some fun ch => if ch < 0x80 then ch else 0⟩ [0x62, 0x61, 0xe9, 0x63] 2 5 1 = .ok s ∧ Coherent 1 2 s) ↔
      Suited (Tables.drawings ⟨fun ch => ch < 0x20, fun ch => if ch = 0xe9 then some [0x65, 0x301] else none,
        fun ch => if ch < 0x80 then ch else 0, 1⟩ 0 [0x61, 0xe9]) :=
  generateGlyphs_coherent_iff _ _ none _ [0x62, 0x61, 0xe9, 0x63] 2 5 1 (by decide)

/-- A letter leaves an index that is too far, and the second piece of a decomposition is given an index that is behind
the run. -/
theorem letter_and_pieces :
    (∃ s, generateGlyphsForGlyphStorage (fun _ => false) (fun _ => none) ⟨none, some id⟩ [0x61] 1 0 0 = .ok s ∧
        s.index = 2 ∧ ¬ Coherent 0 1 s) ∧
      ∃ s, generateGlyphsForGlyphStorage (fun _ => false) (fun _ => some [0x65, 0x301])
          ⟨none, some fun ch => if ch = 0xe9 then 0 else ch⟩ [0xe9] 1 0 0 = .ok s ∧
        s.storage.map Insertion.characterIndex = [0, 1] ∧ ¬ Coherent 0 1 s := by
  refine ⟨⟨_, rfl, rfl, fun h => ?_⟩, ⟨_, rfl, rfl, fun h => ?_⟩⟩
  · exact absurd h.index (by decide)
  · exact absurd h.inRun (by decide)

end GnustepGui.GlyphGenerator
