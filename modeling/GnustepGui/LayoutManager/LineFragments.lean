import Mathlib.Algebra.Order.Ring.Rat

/-!
# Line fragments

A text container has its line fragments in one array: those of the current layout, the hard ones, and behind them the
soft ones, which an edit has invalidated and which may be used again. `setLineFragmentRect:forGlyphRange:usedRect:` puts
a new hard one between the two and drops the soft ones that it makes out of date.

    hard ++ soft  ↦  hard ++ [new] ++ those of soft from the end of new on
-/

namespace GnustepGui.LayoutManager

/-- The text of an exception, or an access outside of an array. -/
inductive LayoutFailure
  | rangeException (format : String)
  | outsideOfArray
  deriving DecidableEq, Repr

def inconsistent : LayoutFailure := .rangeException "%s: glyph range not consistent with existing layout"

/-- The origin and the size. -/
abbrev FragmentRect := (ℚ × ℚ) × (ℚ × ℚ)

/-- A `linefrag_point_t` or a `linefrag_attachment_t`, with its point or size. -/
structure LinefragPart where
  pos : Nat
  length : Nat
  p : ℚ × ℚ
  deriving DecidableEq, Repr

/-- `linefrag_t`; `NULL` is `none`. -/
structure Linefrag where
  rect : FragmentRect
  usedRect : FragmentRect
  pos : Nat
  length : Nat
  points : Option (List LinefragPart)
  attachments : Option (List LinefragPart)
  deriving DecidableEq, Repr

/-- What `textcontainer_t` has for the layout; `size_linefrags` is the length of the array. -/
structure Container where
  pos : Nat
  length : Nat
  numLinefrags : Nat
  numSoft : Nat
  linefrags : List Linefrag
  deriving DecidableEq, Repr

section Arrays

variable {α : Type*}

/-- What is in new memory is arbitrary. -/
def enlarge (xs : List α) (n : Nat) (junk : Nat → α) : List α := xs ++ (List.range n).map junk

def memmove (xs : List α) (dst src n : Nat) : Option (List α) :=
  if dst + n ≤ xs.length ∧ src + n ≤ xs.length then
    some (xs.take dst ++ (xs.drop src).take n ++ xs.drop (dst + n))
  else none

end Arrays

def Linefrag.freed (lf : Linefrag) : Linefrag :=
  { lf with points := none, attachments := none }

/-- The loop over the soft fragments, of which there are `n` from `i` on. It frees what those before `max` have, and
gives the index of the first one to be kept. -/
def scanSoft (max : Nat) (frags : List Linefrag) (i : Nat) :
    Nat → Option (Nat × List Linefrag)
  | 0 => some (i, frags)
  | n + 1 =>
    match frags[i]? with
    | none => none
    | some lf => if max ≤ lf.pos then some (i, frags) else scanSoft max (frags.set i lf.freed) (i + 1) n

namespace Container

def hard (tc : Container) : List Linefrag :=
  tc.linefrags.take tc.numLinefrags

def soft (tc : Container) : List Linefrag :=
  (tc.linefrags.drop tc.numLinefrags).take tc.numSoft

/-- The glyph that the next fragment has to start at. -/
def next (tc : Container) : Option Nat :=
  if tc.numLinefrags = 0 then some tc.pos
  else tc.linefrags[tc.numLinefrags - 1]?.map fun lf => lf.pos + lf.length

/-- The part of `setLineFragmentRect:…` that counts the new fragment and makes room for it. -/
def makeRoom (tc : Container) (max : Nat) (junk : Nat → Linefrag) :
    Option Container :=
  let num := tc.numLinefrags
  let grow := fun frags => enlarge frags (frags.length / 2) junk
  if num + tc.numSoft = 0 then
    let frags := if tc.linefrags.length = 0 then enlarge [] 16 junk else tc.linefrags
    some { tc with linefrags := frags, numLinefrags := 1 }
  else if tc.numSoft = 0 then
    let frags := if tc.linefrags.length ≤ num then grow tc.linefrags else tc.linefrags
    some { tc with linefrags := frags, numLinefrags := num + 1 }
  else
    match scanSoft max tc.linefrags num tc.numSoft with
    | none => none
    | some (i, frags) =>
      if i = num then
        let frags := if frags.length ≤ num + tc.numSoft then grow frags else frags
        (memmove frags (num + 1) num tc.numSoft).map fun frags =>
          { tc with linefrags := frags, numLinefrags := num + 1 }
      else if num + 1 < i then
        let numSoft := tc.numSoft - (i - num)
        (memmove frags (num + 1) i numSoft).map fun frags =>
          { tc with linefrags := frags, numSoft, numLinefrags := num + 1 }
      else
        -- everything already lines up
        some { tc with linefrags := frags, numSoft := tc.numSoft - 1, numLinefrags := num + 1 }

/-- What `setLineFragmentRect:…` does in the text container that it has found. -/
def setLineFragment (tc : Container) (rect : FragmentRect) (location length : Nat) (usedRect : FragmentRect)
    (junk : Nat → Linefrag) : Except LayoutFailure Container :=
  match tc.next with
  | none => .error .outsideOfArray
  | some next =>
    if location ≠ next then .error inconsistent
    else
      match tc.makeRoom (location + length) junk with
      | none => .error .outsideOfArray
      | some tc =>
        let k := tc.numLinefrags - 1
        if k < tc.linefrags.length then
          .ok { tc with linefrags := tc.linefrags.set k ⟨rect, usedRect, location, length, none, none⟩ }
        else .error .outsideOfArray

def Covers (tc : Container) (location length : Nat) : Prop :=
  tc.pos ≤ location ∧ location + length ≤ tc.pos + tc.length

instance (tc : Container) (location length : Nat) : Decidable (tc.Covers location length) :=
  inferInstanceAs (Decidable (_ ∧ _))

end Container

/-- The fragment goes to the first of the text containers that the range is in. -/
def setInContainers (rect : FragmentRect) (location length : Nat) (usedRect : FragmentRect)
    (junk : Nat → Linefrag) :
    List Container → Except LayoutFailure (List Container)
  | [] => .error inconsistent
  | tc :: rest =>
    if tc.Covers location length then
      (tc.setLineFragment rect location length usedRect junk).map fun tc => tc :: rest
    else (setInContainers rect location length usedRect junk rest).map fun rest => tc :: rest

structure Layout where
  textcontainers : List Container
  layoutGlyph : Nat
  layoutChar : Nat
  deriving DecidableEq, Repr

/-- `setLineFragmentRect:forGlyphRange:usedRect:`; `glyphLength` glyphs are there once those of the range have been
asked for. -/
def Layout.setLineFragmentRect (l : Layout) (glyphLength : Nat) (rect : FragmentRect)
    (location length : Nat) (usedRect : FragmentRect) (junk : Nat → Linefrag) :
    Except LayoutFailure Layout :=
  if glyphLength < location + length then .error (.rangeException "%s: glyph range out of range")
  else
    (setInContainers rect location length usedRect junk l.textcontainers).map fun textcontainers =>
      { l with textcontainers }

/-- The array holds the fragments, in the order of the glyphs, and has been made with 16 cells. -/
structure TextContainer extends Container where
  fits : numLinefrags + numSoft ≤ linefrags.length
  size : linefrags = [] ∨ 16 ≤ linefrags.length
  ordered : (linefrags.take (numLinefrags + numSoft)).Pairwise fun lf lf' => lf.pos ≤ lf'.pos

/-! ## The array -/

section Arrays

variable {α : Type*}

/-- The cells behind `gap` are moved, up or down, to one behind `pre`. -/
theorem memmove_eq (pre gap moved rest : List α)
    (hf : pre.length + 1 + moved.length ≤ (pre ++ (gap ++ (moved ++ rest))).length) :
    ∃ x rest', memmove (pre ++ (gap ++ (moved ++ rest))) (pre.length + 1) (pre.length + gap.length) moved.length =
      some (pre ++ x :: (moved ++ rest')) ∧
    (pre ++ x :: (moved ++ rest')).length = (pre ++ (gap ++ (moved ++ rest))).length := by
  have hs : pre.length + gap.length + moved.length ≤ (pre ++ (gap ++ (moved ++ rest))).length := by
    simp only [List.length_append]
    omega
  have hd : (pre ++ (gap ++ (moved ++ rest))).drop (pre.length + gap.length) = moved ++ rest := by
    rw [← List.drop_drop, List.drop_left, List.drop_left]
  obtain ⟨x, post, hp⟩ : ∃ x post, gap ++ (moved ++ rest) = x :: post := by
    refine List.exists_cons_of_length_pos ?_
    rw [List.length_append] at hf
    omega
  have ht : (pre ++ (gap ++ (moved ++ rest))).take (pre.length + 1) = pre ++ [x] := by
    rw [hp, List.take_length_add_append, List.take_succ_cons, List.take_zero]
  refine ⟨x, (pre ++ (gap ++ (moved ++ rest))).drop (pre.length + 1 + moved.length), ?_, ?_⟩
  · rw [memmove, if_pos ⟨hf, hs⟩, hd, List.take_left, ht, List.append_assoc, List.append_assoc]
    rfl
  · rw [List.length_append, List.length_cons, List.length_append, List.length_drop]
    omega

theorem enlarge_eq (xs : List α) (n : Nat) (junk : Nat → α) :
    ∃ extra, enlarge xs n junk = xs ++ extra ∧ extra.length = n :=
  ⟨(List.range n).map junk, rfl, by rw [List.length_map, List.length_range]⟩

/-- One half more is at least one cell more. -/
theorem grown_eq (xs : List α) (k : Nat) (junk : Nat → α) (hk : k ≤ xs.length) (hs : 16 ≤ xs.length) :
    ∃ extra, (if xs.length ≤ k then enlarge xs (xs.length / 2) junk else xs) = xs ++ extra ∧
      k < (xs ++ extra).length := by
  split
  · obtain ⟨extra, hextra, hl⟩ := enlarge_eq xs (xs.length / 2) junk
    refine ⟨extra, hextra, ?_⟩
    rw [List.length_append, hl]
    omega
  · rename_i hlt
    refine ⟨[], (List.append_nil xs).symm, ?_⟩
    rw [List.append_nil]
    omega

theorem dropWhile_eq_filter (pos : α → Nat) (max : Nat) {xs : List α} (h : xs.Pairwise fun x y => pos x ≤ pos y) :
    xs.dropWhile (fun x => pos x < max) = xs.filter (fun x => max ≤ pos x) := by
  induction xs with
  | nil => rfl
  | cons x xs ih =>
    obtain ⟨hx, hxs⟩ := List.pairwise_cons.mp h
    by_cases hlt : pos x < max
    · rw [List.dropWhile_cons_of_pos (by simpa using hlt), List.filter_cons_of_neg (by simpa using hlt)]
      exact ih hxs
    · rw [List.dropWhile_cons_of_neg (by simpa using hlt), eq_comm, List.filter_eq_self]
      intro y hy
      rcases List.mem_cons.mp hy with rfl | hy
      · simpa using hlt
      · have := hx y hy
        simpa using Nat.le_trans (Nat.le_of_not_lt hlt) this

end Arrays

variable {max : Nat} {junk : Nat → Linefrag}

theorem scanSoft_eq (max : Nat) (pre soft rest : List Linefrag) :
    scanSoft max (pre ++ (soft ++ rest)) pre.length soft.length =
      some (pre.length + (soft.takeWhile fun lf => lf.pos < max).length,
        pre ++ ((soft.takeWhile fun lf => lf.pos < max).map Linefrag.freed ++
          ((soft.dropWhile fun lf => lf.pos < max) ++ rest))) := by
  induction soft generalizing pre with
  | nil => rfl
  | cons lf soft ih =>
    have hg : (pre ++ (lf :: soft ++ rest))[pre.length]? = some lf := by simp
    rw [List.length_cons, scanSoft, hg]
    by_cases hlt : lf.pos < max
    · have hs : (pre ++ (lf :: soft ++ rest)).set pre.length lf.freed = (pre ++ [lf.freed]) ++ (soft ++ rest) := by
        simp
      have hn : pre.length + 1 = (pre ++ [lf.freed]).length := by simp
      rw [List.takeWhile_cons_of_pos (by simpa using hlt), List.dropWhile_cons_of_pos (by simpa using hlt)]
      simp only [if_neg (Nat.not_le_of_lt hlt)]
      rw [hs, hn, ih (pre ++ [lf.freed])]
      simp [Nat.add_assoc, Nat.add_comm 1]
    · rw [List.takeWhile_cons_of_neg (by simpa using hlt), List.dropWhile_cons_of_neg (by simpa using hlt)]
      simp only [if_pos (Nat.le_of_not_lt hlt)]
      rfl

namespace TextContainer

variable (tc : TextContainer)

theorem linefrags_eq : ∃ rest, tc.linefrags = tc.hard ++ (tc.soft ++ rest) := by
  refine ⟨(tc.linefrags.drop tc.numLinefrags).drop tc.numSoft, ?_⟩
  rw [Container.soft, List.take_append_drop, Container.hard, List.take_append_drop]

theorem length_hard : tc.hard.length = tc.numLinefrags :=
  List.length_take_of_le (Nat.le_trans (Nat.le_add_right _ _) tc.fits)

theorem length_soft : tc.soft.length = tc.numSoft := by
  refine List.length_take_of_le ?_
  rw [List.length_drop]
  have := tc.fits
  omega

theorem ordered_eq : (tc.hard ++ tc.soft).Pairwise fun lf lf' => lf.pos ≤ lf'.pos := by
  rw [Container.hard, Container.soft, ← List.take_add]
  exact tc.ordered

/-- Behind the hard fragments there is a free cell, and then those of the soft ones that are kept. -/
structure HasRoom (max : Nat) (tc' : Container) : Prop where
  frags : ∃ x rest, tc'.linefrags = tc.hard ++ x :: ((tc.soft.dropWhile fun lf => lf.pos < max) ++ rest)
  num : tc'.numLinefrags = tc.numLinefrags + 1
  soft : tc'.numSoft = (tc.soft.dropWhile fun lf => lf.pos < max).length
  pos : tc'.pos = tc.pos
  length : tc'.length = tc.length
  size : 16 ≤ tc'.linefrags.length

variable {tc}

theorem soft_eq_nil (h : tc.numSoft = 0) : tc.soft = [] := List.eq_nil_of_length_eq_zero (tc.length_soft.trans h)

theorem size_of_ne (hne : tc.numLinefrags + tc.numSoft ≠ 0) : 16 ≤ tc.linefrags.length :=
  tc.size.resolve_left fun h => by
    have hf := tc.fits
    rw [h, List.length_nil] at hf
    omega

theorem makeRoom_of_empty (h : tc.numLinefrags + tc.numSoft = 0) :
    ∃ tc', tc.makeRoom max junk = some tc' ∧ tc.HasRoom max tc' := by
  have hh : tc.hard = [] := List.eq_nil_of_length_eq_zero (by rw [tc.length_hard]; omega)
  have hsf : tc.soft = [] := soft_eq_nil (by omega)
  obtain ⟨x, rest, hc, hs⟩ : ∃ x rest,
      (if tc.linefrags.length = 0 then enlarge [] 16 junk else tc.linefrags) = x :: rest ∧ 16 ≤ (x :: rest).length := by
    split
    · exact ⟨_, _, rfl, by simp⟩
    · rename_i hne
      have hs := tc.size.resolve_left fun hn => hne (by rw [hn, List.length_nil])
      obtain ⟨x, rest, hc⟩ := List.exists_cons_of_length_pos (Nat.lt_of_lt_of_le (by omega : 0 < 16) hs)
      exact ⟨x, rest, hc, hc ▸ hs⟩
  refine ⟨_, if_pos h, ⟨x, rest, ?_⟩, ?_, ?_, rfl, rfl, ?_⟩
  · rw [hh, hsf]
    exact hc
  · show 1 = tc.numLinefrags + 1
    omega
  · show tc.numSoft = _
    rw [← tc.length_soft, hsf]
    rfl
  · exact hc ▸ hs

theorem makeRoom_of_hard (hne : tc.numLinefrags + tc.numSoft ≠ 0) (h : tc.numSoft = 0) :
    ∃ tc', tc.makeRoom max junk = some tc' ∧ tc.HasRoom max tc' := by
  obtain ⟨rest, hf⟩ := tc.linefrags_eq
  have hs := size_of_ne hne
  obtain ⟨extra, hextra, hlt⟩ := grown_eq tc.linefrags tc.numLinefrags junk
    (by have := tc.fits; omega) hs
  rw [hf, soft_eq_nil h, List.nil_append, List.append_assoc, List.length_append, tc.length_hard] at hlt
  obtain ⟨x, post, hp⟩ := List.exists_cons_of_length_pos (l := rest ++ extra) (by omega)
  refine ⟨_, (if_neg hne).trans (if_pos h), ⟨x, post, ?_⟩, rfl, ?_, rfl, rfl, ?_⟩
  · dsimp only
    rw [hextra, hf, soft_eq_nil h, List.append_assoc, List.nil_append, hp]
    rfl
  · rw [soft_eq_nil h]
    exact h
  · dsimp only
    rw [hextra, List.length_append]
    omega

theorem makeRoom_of_soft (h : tc.numSoft ≠ 0) : ∃ tc', tc.makeRoom max junk = some tc' ∧ tc.HasRoom max tc' := by
  obtain ⟨rest, hf⟩ := tc.linefrags_eq
  have hsz : 16 ≤ tc.linefrags.length := size_of_ne (by omega)
  have hs := scanSoft_eq max tc.hard tc.soft rest
  rw [← hf, tc.length_hard, tc.length_soft] at hs
  have hsp := List.takeWhile_append_dropWhile (p := fun lf => decide (lf.pos < max)) (l := tc.soft)
  have hl := congrArg List.length hsp
  rw [List.length_append, tc.length_soft] at hl
  have hsm := congrArg List.length hf
  rw [List.length_append, List.length_append, tc.length_hard, tc.length_soft] at hsm
  unfold Container.makeRoom
  simp only [if_neg (show ¬ tc.numLinefrags + tc.numSoft = 0 by omega), if_neg h, hs]
  generalize hg : (tc.soft.takeWhile fun lf => decide (lf.pos < max)) = gone at *
  generalize hk : (tc.soft.dropWhile fun lf => decide (lf.pos < max)) = kept at *
  rcases gone with _ | ⟨lf, _ | ⟨lf', gone⟩⟩
  · -- all are kept, and the array may have to grow
    simp only [List.length_nil, Nat.add_zero, Nat.zero_add, if_true, List.map_nil, List.nil_append] at hl ⊢
    obtain ⟨extra, hextra, hlt⟩ := grown_eq (tc.hard ++ (kept ++ rest)) (tc.numLinefrags + tc.numSoft) junk
      (by rw [List.length_append, List.length_append, tc.length_hard]; omega)
      (by rw [List.length_append, List.length_append, tc.length_hard]; omega)
    rw [List.append_assoc, List.append_assoc] at hextra hlt
    obtain ⟨x, rest', hm, hmn⟩ := memmove_eq tc.hard [] kept (rest ++ extra)
      (by rw [List.nil_append, tc.length_hard]; omega)
    simp only [List.nil_append, List.length_nil, Nat.add_zero, tc.length_hard, hl] at hm hmn
    rw [hextra, hm]
    refine ⟨_, rfl, ⟨x, rest', by rw [hk]⟩, rfl, by rw [hk]; exact hl.symm, rfl, rfl, ?_⟩
    rw [hmn]
    simp only [List.length_append, tc.length_hard]
    omega
  · -- the free cell is that of the only one that goes
    rw [List.length_singleton] at hl
    simp only [List.length_singleton, List.map_singleton, List.singleton_append]
    rw [if_neg (by omega), if_neg (by omega)]
    refine ⟨_, rfl, ⟨lf.freed, rest, by rw [hk]⟩, rfl, ?_, rfl, rfl, ?_⟩
    · rw [hk]
      show tc.numSoft - 1 = kept.length
      omega
    · simp only [List.length_append, List.length_cons, tc.length_hard]
      omega
  · -- the ones that are kept move down
    simp only [List.length_cons] at hl ⊢
    rw [if_neg (by omega), if_pos (by omega)]
    have hc : tc.numSoft - (tc.numLinefrags + (gone.length + 1 + 1) - tc.numLinefrags) = kept.length := by omega
    obtain ⟨x, rest', hm, hmn⟩ := memmove_eq tc.hard ((lf :: lf' :: gone).map Linefrag.freed) kept rest
      (by simp only [List.length_append, List.length_map, List.length_cons]; omega)
    rw [List.length_map, tc.length_hard] at hm
    rw [hc]
    simp only [List.length_cons] at hm
    rw [hm]
    refine ⟨_, rfl, ⟨x, rest', by rw [hk]⟩, rfl, by rw [hk], rfl, rfl, ?_⟩
    rw [hmn]
    simp only [List.length_append, List.length_map, List.length_cons, tc.length_hard]
    omega

theorem makeRoom_eq (tc : TextContainer) (max : Nat) (junk : Nat → Linefrag) :
    ∃ tc', tc.makeRoom max junk = some tc' ∧ tc.HasRoom max tc' := by
  by_cases hne : tc.numLinefrags + tc.numSoft = 0
  · exact makeRoom_of_empty hne
  by_cases h : tc.numSoft = 0
  · exact makeRoom_of_hard hne h
  · exact makeRoom_of_soft h

/-! ## The new fragment -/

variable {location : Nat}

/-- The fragment that the next one follows is the last of the hard ones. -/
theorem pos_le_of_mem_hard {n : Nat} (hn : tc.next = some n) {lf : Linefrag} (hlf : lf ∈ tc.hard) : lf.pos ≤ n := by
  obtain ⟨i, hi, rfl⟩ := List.getElem_of_mem hlf
  have hl := tc.length_hard
  have hlt : tc.numLinefrags - 1 < tc.hard.length := by omega
  have hg : tc.linefrags[tc.numLinefrags - 1]? = some tc.hard[tc.numLinefrags - 1] := by
    rw [← List.getElem?_eq_getElem hlt, Container.hard, List.getElem?_take_of_lt (by omega)]
  rw [Container.next, if_neg (by omega), hg] at hn
  have he : tc.hard[tc.numLinefrags - 1].pos + tc.hard[tc.numLinefrags - 1].length = n := Option.some.inj hn
  have ho : tc.hard[i].pos ≤ tc.hard[tc.numLinefrags - 1].pos := by
    by_cases hls : i = tc.numLinefrags - 1
    · subst hls
      exact Nat.le_refl _
    · have hh := (List.pairwise_append.mp tc.ordered_eq).1
      exact List.pairwise_iff_getElem.mp hh i (tc.numLinefrags - 1) hi hlt (by omega)
  omega

/-- The fragments stay in order: the new one starts where the last hard one ends, and the soft ones behind it. -/
theorem ordered_new {new : Linefrag} (hn : tc.next = some new.pos) (hm : new.pos ≤ max) :
    (tc.hard ++ new :: tc.soft.filter fun lf => max ≤ lf.pos).Pairwise fun lf lf' => lf.pos ≤ lf'.pos := by
  obtain ⟨hh, hs, hb⟩ := List.pairwise_append.mp tc.ordered_eq
  have hk : ∀ lf ∈ tc.soft.filter (fun lf => max ≤ lf.pos), max ≤ lf.pos ∧ lf ∈ tc.soft := by
    intro lf hl
    obtain ⟨hmem, hp⟩ := List.mem_filter.mp hl
    exact ⟨of_decide_eq_true hp, hmem⟩
  refine List.pairwise_append.mpr ⟨hh, List.pairwise_cons.mpr ⟨?_, hs.filter _⟩, ?_⟩
  · intro lf hl
    exact Nat.le_trans hm (hk lf hl).1
  · intro lf hl lf' hl'
    rcases List.mem_cons.mp hl' with rfl | hl'
    · exact pos_le_of_mem_hard hn hl
    · exact hb lf hl lf' (hk lf' hl').2

/-- The array of the new fragment, and that its numbers count what is in it. -/
theorem counted {hard soft rest : List Linefrag} {c : Container}
    (hf : c.linefrags = hard ++ (soft ++ rest)) (hn : c.numLinefrags = hard.length) (hs : c.numSoft = soft.length) :
    c.hard = hard ∧ c.soft = soft ∧ c.linefrags.take (c.numLinefrags + c.numSoft) = hard ++ soft ∧
      c.numLinefrags + c.numSoft ≤ c.linefrags.length := by
  have hh : c.hard = hard := by rw [Container.hard, hf, hn, List.take_left]
  have hsf : c.soft = soft := by rw [Container.soft, hf, hn, List.drop_left, hs, List.take_left]
  refine ⟨hh, hsf, ?_, ?_⟩
  · rw [List.take_add]
    exact congrArg₂ (· ++ ·) hh hsf
  · rw [hf, hn, hs, List.length_append, List.length_append]
    omega

theorem setLineFragment_eq (rect usedRect : FragmentRect) (length : Nat) (junk : Nat → Linefrag)
    (hnx : tc.next = some location) : ∃ tc' : TextContainer,
      tc.setLineFragment rect location length usedRect junk = .ok tc'.toContainer ∧
      tc'.hard = tc.hard ++ [⟨rect, usedRect, location, length, none, none⟩] ∧
      tc'.soft = tc.soft.filter (fun lf => location + length ≤ lf.pos) ∧ tc'.pos = tc.pos ∧ tc'.length = tc.length := by
  obtain ⟨room, hr, hh⟩ := makeRoom_eq tc (location + length) junk
  obtain ⟨x, rest, hf⟩ := hh.frags
  have hfl := dropWhile_eq_filter Linefrag.pos (location + length)
    (List.pairwise_append.mp tc.ordered_eq).2.1
  have hsf := hh.soft
  have hnum := hh.num
  have hsz := hh.size
  rw [hfl] at hf hsf
  generalize hn : (⟨rect, usedRect, location, length, none, none⟩ : Linefrag) = new
  have hk : room.numLinefrags - 1 = tc.hard.length := by rw [hnum, tc.length_hard]; rfl
  have hlt : room.numLinefrags - 1 < room.linefrags.length := by
    rw [hk, hf, List.length_append, List.length_cons]
    omega
  have hs : room.linefrags.set (room.numLinefrags - 1) new =
      (tc.hard ++ [new]) ++ (tc.soft.filter (fun lf => location + length ≤ lf.pos) ++ rest) := by
    rw [hk, hf, List.set_append_right _ _ (Nat.le_refl _), Nat.sub_self, List.append_assoc]
    rfl
  obtain ⟨hhr', hsf', ht, hft⟩ := counted
    (c := { room with linefrags := room.linefrags.set (room.numLinefrags - 1) new }) hs
    (by rw [List.length_append, tc.length_hard]; exact hnum) hsf
  have ho : (tc.hard ++ new :: tc.soft.filter fun lf => location + length ≤ lf.pos).Pairwise fun lf lf' =>
      lf.pos ≤ lf'.pos := ordered_new (by rw [hnx, ← hn]) (by rw [← hn]; exact Nat.le_add_right _ _)
  refine ⟨⟨{ room with linefrags := room.linefrags.set (room.numLinefrags - 1) new }, hft, .inr ?_, ?_⟩, ?_, hhr',
    hsf', hh.pos, hh.length⟩
  · rw [List.length_set]
    exact hsz
  · rw [ht, List.append_assoc]
    exact ho
  · rw [Container.setLineFragment, hnx]
    simp only [ne_eq, not_true_eq_false, if_false, hr, if_pos hlt, hn]

end TextContainer

theorem setInContainers_eq {rect usedRect : FragmentRect} {location length : Nat}
    {before after : List Container} {tc tc' : Container}
    (hb : ∀ c ∈ before, ¬ c.Covers location length) (hcov : tc.Covers location length)
    (hs : tc.setLineFragment rect location length usedRect junk = .ok tc') :
    setInContainers rect location length usedRect junk (before ++ tc :: after) = .ok (before ++ tc' :: after) := by
  induction before with
  | nil =>
    rw [List.nil_append, setInContainers, if_pos hcov, hs]
    rfl
  | cons c before ih =>
    rw [List.cons_append, setInContainers, if_neg (hb c List.mem_cons_self),
      ih fun c' hc' => hb c' (List.mem_cons_of_mem _ hc')]
    rfl

/-- The first text container that the glyphs are in gets the new fragment behind its hard ones, and keeps the soft
ones from its end on. Its numbers are those of its fragments, the next glyph is the one behind the new
fragment, and what has been given to the containers stays as it is. -/
theorem setLineFragmentRect_eq (before after : List Container)
    (tc : TextContainer) (layoutGlyph layoutChar glyphLength : Nat) (rect usedRect : FragmentRect)
    (location length : Nat) (junk : Nat → Linefrag)
    (hb : ∀ c ∈ before, ¬ c.Covers location length) (hc : tc.Covers location length)
    (hnx : tc.next = some location) (hlen : location + length ≤ glyphLength) :
    ∃ tc' : TextContainer,
      Layout.setLineFragmentRect ⟨before ++ tc.toContainer :: after, layoutGlyph, layoutChar⟩ glyphLength rect location
        length usedRect junk = .ok ⟨before ++ tc'.toContainer :: after, layoutGlyph, layoutChar⟩ ∧
      tc'.hard = tc.hard ++ [⟨rect, usedRect, location, length, none, none⟩] ∧
      tc'.soft = tc.soft.filter (fun lf => location + length ≤ lf.pos) ∧
      tc'.numLinefrags = tc'.hard.length ∧ tc'.numSoft = tc'.soft.length ∧
      tc'.next = some (location + length) ∧ tc'.pos = tc.pos ∧ tc'.length = tc.length ∧
      location + length ≤ tc'.pos + tc'.length := by
  obtain ⟨tc', hs, hh, hsf, hp, hl⟩ := TextContainer.setLineFragment_eq rect usedRect length junk hnx
  have hn := tc'.length_hard
  rw [hh, List.length_append, List.length_singleton] at hn
  refine ⟨tc', ?_, hh, hsf, tc'.length_hard.symm, tc'.length_soft.symm, ?_, hp, hl, ?_⟩
  · rw [Layout.setLineFragmentRect, if_neg (Nat.not_lt_of_le hlen), setInContainers_eq hb hc hs]
    rfl
  · have hg : tc'.linefrags[tc'.numLinefrags - 1]? = some ⟨rect, usedRect, location, length, none, none⟩ := by
      rw [← List.getElem?_take_of_lt (j := tc'.numLinefrags) (by omega)]
      show tc'.hard[tc'.numLinefrags - 1]? = _
      rw [hh, ← hn, Nat.add_sub_cancel, List.getElem?_concat_length]
    rw [Container.next, if_neg (by omega), hg]
    rfl
  · rw [hp, hl]
    exact hc.2

def blankLinefrag (pos length : Nat) : Linefrag := ⟨0, 0, pos, length, none, none⟩

/-- One hard fragment, and three soft ones from glyph 3 on. -/
def halfLaid : TextContainer where
  pos := 0
  length := 10
  numLinefrags := 1
  numSoft := 3
  linefrags := [blankLinefrag 0 3, blankLinefrag 3 2, blankLinefrag 5 2, blankLinefrag 7 3] ++
    List.replicate 12 (blankLinefrag 0 0)
  fits := by decide
  size := by decide
  ordered := by decide

/-- The new fragment is longer than the first soft one, and the next one goes as well. -/
theorem setLineFragmentRect_halfLaid : ∃ tc' : TextContainer,
    Layout.setLineFragmentRect ⟨[halfLaid.toContainer], 10, 10⟩ 10 0 3 3 0 (fun _ => blankLinefrag 0 0) =
      .ok ⟨[tc'.toContainer], 10, 10⟩ ∧
    tc'.hard = [blankLinefrag 0 3, blankLinefrag 3 3] ∧ tc'.soft = [blankLinefrag 7 3] ∧ tc'.next = some 6 := by
  obtain ⟨tc', hs, hh, hsf, -, -, hn, -⟩ := setLineFragmentRect_eq [] [] halfLaid 10 10 10 0 0 3 3
    (fun _ => blankLinefrag 0 0) (fun _ h => absurd h List.not_mem_nil) (by decide) rfl (by decide)
  exact ⟨tc', hs, hh, hsf, hn⟩

/-! ## Line after line -/

theorem TextContainer.next_of_hard {tc : TextContainer} {front : List Linefrag} {line : Linefrag}
    (hh : tc.hard = front ++ [line]) : tc.next = some (line.pos + line.length) := by
  obtain ⟨rest, hr⟩ := tc.linefrags_eq
  have hn := tc.length_hard
  rw [hh] at hr hn
  simp [Container.next, hr, ← hn]

/-- Each line starts at the glyph behind the one before. -/
def Follow : Option Nat → List Linefrag → Prop
  | _, [] => True
  | next, line :: lines => next = some line.pos ∧ Follow (some (line.pos + line.length)) lines

def Layout.setLines (l : Layout) (glyphLength : Nat) (junk : Linefrag → Nat → Linefrag) (lines : List Linefrag) :
    Except LayoutFailure Layout :=
  lines.foldlM (fun l line =>
    l.setLineFragmentRect glyphLength line.rect line.pos line.length line.usedRect (junk line)) l

/-- Lines that are set one after another become hard fragments, and the soft ones behind them all are kept. -/
theorem setLines_eq (before after : List Container) (tc : TextContainer) (layoutGlyph layoutChar glyphLength : Nat)
    (junk : Linefrag → Nat → Linefrag) (lines : List Linefrag) (hf : Follow tc.next lines)
    (hin : ∀ line ∈ lines, tc.Covers line.pos line.length ∧ line.pos + line.length ≤ glyphLength ∧
      ∀ c ∈ before, ¬ c.Covers line.pos line.length) : ∃ tc' : TextContainer,
    Layout.setLines ⟨before ++ tc.toContainer :: after, layoutGlyph, layoutChar⟩ glyphLength junk lines =
        .ok ⟨before ++ tc'.toContainer :: after, layoutGlyph, layoutChar⟩ ∧
      tc'.hard = tc.hard ++ lines.map (fun line => { line with points := none, attachments := none }) ∧
      tc'.soft = tc.soft.filter fun lf => ∀ line ∈ lines, line.pos + line.length ≤ lf.pos := by
  induction lines generalizing tc with
  | nil => exact ⟨tc, rfl, by simp, (List.filter_eq_self.mpr (by simp)).symm⟩
  | cons line lines ih =>
    obtain ⟨hnx, hf⟩ := hf
    obtain ⟨⟨hc, hlen, hb⟩, hin⟩ := List.forall_mem_cons.mp hin
    obtain ⟨tc₁, hs, hh, hsf, hp, hl⟩ := tc.setLineFragment_eq line.rect line.usedRect line.length (junk line) hnx
    obtain ⟨tc', hr, hh', hsf'⟩ := ih tc₁ (tc₁.next_of_hard hh ▸ hf) fun line hm => by
      rw [Container.Covers, hp, hl]
      exact hin line hm
    refine ⟨tc', ?_, by simp [hh', hh], by simp [hsf', hsf, List.filter_filter, Bool.and_comm]⟩
    rw [Layout.setLines, List.foldlM_cons, Layout.setLineFragmentRect, if_neg (Nat.not_lt_of_le hlen),
      setInContainers_eq hb hc hs]
    exact hr

theorem setLines_halfLaid : ∃ tc' : TextContainer,
    Layout.setLines ⟨[halfLaid.toContainer], 10, 10⟩ 10 (fun line _ => line) [blankLinefrag 3 1, blankLinefrag 4 2] =
      .ok ⟨[tc'.toContainer], 10, 10⟩ ∧
    tc'.hard = [blankLinefrag 0 3, blankLinefrag 3 1, blankLinefrag 4 2] ∧ tc'.soft = [blankLinefrag 7 3] :=
  setLines_eq [] [] halfLaid 10 10 10 _ _ ⟨rfl, rfl, trivial⟩ (by decide)

end GnustepGui.LayoutManager
