import Mathlib.Data.List.TakeWhile
import GnustepGui.Library.Lines
import GnustepGui.AttributedString.AttributedString

/-!
# Fixing paragraph styles

`fixParagraphStyleAttributeInRange:` gives a paragraph the style at its start. Where there is none it looks
for the first style, and looks one character too far (`FixesWell`).
-/

namespace GnustepGui.AttributedString

namespace NSMutableAttributedString

variable {S A O : Type*} [DecidableEq S]

/-- The characters that end a line; a carriage return in front of a line feed does not. -/
def endsLine (isSeparator : UInt16 → Bool) (c : UInt16) (following : List UInt16) : Bool :=
  isSeparator c && !(c == 13 && following.head? == some 10)

def paragraphs (isSeparator : UInt16 → Bool) (s : NSMutableAttributedString S A O) :
    List (NSMutableAttributedString S A O) :=
  Lines.lines (fun c cs => endsLine isSeparator c.character (cs.map (·.character))) s

/-- `lineRangeForRange:` of the string, for a range of one character. -/
def lineRangeForRange (isSeparator : UInt16 → Bool) (s : NSMutableAttributedString S A O) (loc : Nat) :
    Nat × Nat :=
  (Lines.rangeAt 0 (paragraphs isSeparator s) loc).getD (s.length, s.length)

def styleAt (s : NSMutableAttributedString S A O) (i : Nat) : Option S := s[i]?.bind (·.paragraphStyle)

def setStyle (style : S) (c : AttributedCharacter S A O) : AttributedCharacter S A O :=
  { c with paragraphStyle := some style }

def addStyle (s : NSMutableAttributedString S A O) (style : S) (start stop : Nat) :
    NSMutableAttributedString S A O :=
  s.take start ++ (((s.drop start).take (stop - start)).map (setStyle style) ++ s.drop stop)

/-- Where the longest range of the style at `start` ends, within the paragraph. -/
def foundEnd (s : NSMutableAttributedString S A O) (start stop : Nat) : Nat :=
  start +
    (((s.drop start).take (stop - start)).takeWhile (·.paragraphStyle = s.styleAt start)).length

/-- The body of the loop: the paragraph from `start` to `stop`. -/
def fixParagraph (defaultParagraphStyle : S) (s : NSMutableAttributedString S A O) (start stop : Nat) :
    Except NSException (NSMutableAttributedString S A O) :=
  let found := s.foundEnd start stop
  match s.styleAt start with
  | none =>
    if found + 1 < stop then
      -- `addAttribute:value:range:` takes no nil
      match s.styleAt (found + 1) with
      | none => .error .invalidArgument
      | some style => .ok (s.addStyle style start stop)
    else .ok (s.addStyle defaultParagraphStyle start stop)
  | some style => if found < stop then .ok (s.addStyle style found stop) else .ok s

/-- The loop makes a turn for each paragraph, and there are no more than characters. -/
def fixParagraphsFuel (isSeparator : UInt16 → Bool) (defaultParagraphStyle : S) :
    Nat → NSMutableAttributedString S A O → Nat → Nat →
      Except NSException (NSMutableAttributedString S A O)
  | 0, s, _, _ => .ok s
  | fuel + 1, s, loc, stop =>
    if loc < stop then do
      let r := s.lineRangeForRange isSeparator loc
      let s ← s.fixParagraph defaultParagraphStyle r.1 r.2
      fixParagraphsFuel isSeparator defaultParagraphStyle fuel s r.2 stop
    else .ok s

def fixParagraphStyleAttributeInRange (isSeparator : UInt16 → Bool) (defaultParagraphStyle : S)
    (s : NSMutableAttributedString S A O) (range : NSRange) :
    Except NSException (NSMutableAttributedString S A O) :=
  if range.max > s.length then .error .rangeError
  else s.fixParagraphsFuel isSeparator defaultParagraphStyle range.length range.location range.max

/-! ## One paragraph -/

/-- The style of the first character that has one. -/
def paragraphStyle (defaultParagraphStyle : S) (p : NSMutableAttributedString S A O) : S :=
  (p.findSome? (·.paragraphStyle)).getD defaultParagraphStyle

/-- One style on all characters. -/
def restyled (defaultParagraphStyle : S) (p : NSMutableAttributedString S A O) :
    NSMutableAttributedString S A O :=
  p.map (setStyle (p.paragraphStyle defaultParagraphStyle))

/-- Where a style begins later in the paragraph, the character after the one it begins at has it too; at
the last character it is the default style. -/
def FixesWell (defaultParagraphStyle : S) (p : NSMutableAttributedString S A O) : Prop :=
  ∀ unstyled first following style, p = unstyled ++ first :: following → unstyled ≠ [] →
    (∀ c ∈ unstyled, c.paragraphStyle = none) → first.paragraphStyle = some style →
    match following with
    | [] => style = defaultParagraphStyle
    | next :: _ => next.paragraphStyle = some style

variable {isSeparator : UInt16 → Bool} {defaultParagraphStyle : S}
  {s s' p before after : NSMutableAttributedString S A O} {range : NSRange} {i start stop loc fuel : Nat}
  {style : S}

section

omit [DecidableEq S]

theorem setStyle_self {c : AttributedCharacter S A O} (h : c.paragraphStyle = some style) : setStyle style c = c := by
  cases c
  rw [setStyle]
  simp_all

theorem map_setStyle_self (h : ∀ c ∈ p, c.paragraphStyle = some style) : p.map (setStyle style) = p := by
  have hs := List.map_congr_left fun c hc => setStyle_self (h c hc)
  rw [hs, List.map_id']

theorem paragraphStyle_cons {c : AttributedCharacter S A O} (h : c.paragraphStyle = some style) :
    paragraphStyle defaultParagraphStyle (c :: p) = style := by
  rw [paragraphStyle, List.findSome?_cons, h]
  rfl

end

section

omit [DecidableEq S]

variable (defaultParagraphStyle) in
theorem paragraphStyle_unstyled {unstyled : NSMutableAttributedString S A O}
    (h : ∀ c ∈ unstyled, c.paragraphStyle = none) :
    paragraphStyle defaultParagraphStyle (unstyled ++ p) = paragraphStyle defaultParagraphStyle p := by
  have hn : unstyled.findSome? (·.paragraphStyle) = none := List.findSome?_eq_none_iff.2 h
  rw [paragraphStyle, List.findSome?_append, hn]
  rfl

theorem addStyle_all (p : NSMutableAttributedString S A O) (style : S) :
    p.addStyle style 0 p.length = p.map (setStyle style) := by
  rw [addStyle, List.take_zero, List.drop_zero, Nat.sub_zero, List.take_length, List.drop_length, List.append_nil]
  rfl

theorem styleAt_append (i : Nat) : (before ++ s).styleAt (before.length + i) = s.styleAt i := by
  rw [styleAt, styleAt, List.getElem?_append_right (Nat.le_add_right _ _), Nat.add_sub_cancel_left]

end

theorem foundEnd_zero (p : NSMutableAttributedString S A O) :
    p.foundEnd 0 p.length = (p.takeWhile (·.paragraphStyle = p.styleAt 0)).length := by
  rw [foundEnd, List.drop_zero, Nat.sub_zero, List.take_length, Nat.zero_add]

/-- A paragraph that starts with a style. -/
theorem fixParagraph_styled {c : AttributedCharacter S A O} (h : c.paragraphStyle = some style) :
    fixParagraph defaultParagraphStyle (c :: p) 0 (c :: p).length = .ok (restyled defaultParagraphStyle (c :: p)) := by
  have hsty : styleAt (c :: p) 0 = some style := h
  have hf : paragraphStyle defaultParagraphStyle (c :: p) = style := paragraphStyle_cons h
  rw [fixParagraph, hsty, foundEnd_zero, hsty, restyled, hf]
  generalize (c :: p) = q
  have hs : q.takeWhile (·.paragraphStyle = some style) ++
      q.dropWhile (·.paragraphStyle = some style) = q := List.takeWhile_append_dropWhile
  have hsl : (q.takeWhile (·.paragraphStyle = some style)).map (setStyle style) =
      q.takeWhile (·.paragraphStyle = some style) :=
    map_setStyle_self fun c hc => by simpa using List.mem_takeWhile_imp hc
  generalize q.takeWhile (·.paragraphStyle = some style) = same at hs hsl ⊢
  generalize q.dropWhile (·.paragraphStyle = some style) = rest at hs
  subst hs
  dsimp only
  split
  · rw [addStyle, List.take_left, List.drop_left, List.drop_length, List.append_nil, List.length_append,
      Nat.add_sub_cancel_left, List.take_length, List.map_append, hsl]
  · rename_i ha
    rw [List.length_append] at ha
    have hn : rest = [] := List.length_eq_zero_iff.1 (by omega)
    rw [hn, List.append_nil, hsl]

theorem fixParagraph_unstyled (h : ∀ c ∈ p, c.paragraphStyle = none) :
    fixParagraph defaultParagraphStyle p 0 p.length = .ok (restyled defaultParagraphStyle p) := by
  have hs : p.styleAt 0 = none := by
    rw [styleAt]
    cases p with
    | nil => rfl
    | cons c p => exact h c List.mem_cons_self
  have ha : p.takeWhile (·.paragraphStyle = none) = p :=
    List.takeWhile_eq_self_iff.2 fun c hc => decide_eq_true (h c hc)
  have hd : p.paragraphStyle defaultParagraphStyle = defaultParagraphStyle := by
    have hsm := paragraphStyle_unstyled defaultParagraphStyle (p := []) h
    rw [List.append_nil] at hsm
    exact hsm
  rw [fixParagraph, hs, foundEnd_zero, hs, ha]
  dsimp only
  rw [if_neg (by omega), addStyle_all, restyled, hd]

theorem fixParagraph_later {unstyled following : NSMutableAttributedString S A O}
    {first : AttributedCharacter S A O} (hne : unstyled ≠ []) (h : ∀ c ∈ unstyled, c.paragraphStyle = none)
    (hf : first.paragraphStyle = some style) :
    fixParagraph defaultParagraphStyle (unstyled ++ first :: following) 0
        (unstyled ++ first :: following).length =
      match following with
      | [] => .ok ((unstyled ++ [first]).map (setStyle defaultParagraphStyle))
      | next :: rest =>
        match next.paragraphStyle with
        | none => .error .invalidArgument
        | some style => .ok ((unstyled ++ first :: next :: rest).map (setStyle style)) := by
  have hs : styleAt (unstyled ++ first :: following) 0 = none := by
    cases unstyled with
    | nil => exact absurd rfl hne
    | cons c unstyled => exact h c List.mem_cons_self
  have ha : (unstyled ++ first :: following).takeWhile (·.paragraphStyle = none) = unstyled := by
    rw [List.takeWhile_append_of_pos fun c hc => decide_eq_true (h c hc), List.takeWhile_cons_of_neg,
      List.append_nil]
    simp [hf]
  rw [fixParagraph, hs, foundEnd_zero, hs, ha]
  dsimp only
  cases following with
  | nil =>
    rw [if_neg (by simp), addStyle_all]
  | cons next rest =>
    have hn : styleAt (unstyled ++ first :: next :: rest) (unstyled.length + 1) = next.paragraphStyle :=
      styleAt_append 1
    rw [if_pos (by simp), hn]
    dsimp only
    cases next.paragraphStyle with
    | none => rfl
    | some style => exact congrArg Except.ok (addStyle_all _ style)

section

omit [DecidableEq S]

theorem setStyle_injective {style' : S} (hne : p ≠ []) (h : p.map (setStyle style) = p.map (setStyle style')) :
    style = style' := by
  cases p with
  | nil => exact absurd rfl hne
  | cons c p =>
    have hf := (List.cons.inj h).1
    exact Option.some.inj (congrArg AttributedCharacter.paragraphStyle hf)

theorem styled_cases (p : NSMutableAttributedString S A O) : (∀ c ∈ p, c.paragraphStyle = none) ∨
      ∃ unstyled first following style, p = unstyled ++ first :: following ∧
        (∀ c ∈ unstyled, c.paragraphStyle = none) ∧ first.paragraphStyle = some style := by
  induction p with
  | nil => exact .inl fun _ h => nomatch h
  | cons c p ih =>
    cases hc : c.paragraphStyle with
    | some style => exact .inr ⟨[], c, p, style, rfl, fun _ h => (nomatch h), hc⟩
    | none =>
      rcases ih with h | ⟨unstyled, first, following, style, rfl, h, hf⟩
      · exact .inl (List.forall_mem_cons.2 ⟨hc, h⟩)
      · exact .inr ⟨c :: unstyled, first, following, style, rfl, List.forall_mem_cons.2 ⟨hc, h⟩, hf⟩

theorem later_unique {u u' rest rest' : NSMutableAttributedString S A O} {d d' : AttributedCharacter S A O}
    {style' : S} (hu : ∀ c ∈ u, c.paragraphStyle = none) (hd : d.paragraphStyle = some style)
    (hu' : ∀ c ∈ u', c.paragraphStyle = none) (hd' : d'.paragraphStyle = some style')
    (h : u ++ d :: rest = u' ++ d' :: rest') : u = u' ∧ d = d' ∧ rest = rest' := by
  induction u generalizing u' with
  | nil =>
    cases u' with
    | nil => exact ⟨rfl, List.cons.inj h⟩
    | cons c u' =>
      have hc := hu' c List.mem_cons_self
      rw [← (List.cons.inj h).1] at hc
      exact nomatch hc.symm.trans hd
  | cons c u ih =>
    cases u' with
    | nil =>
      have hc := hu c List.mem_cons_self
      rw [(List.cons.inj h).1] at hc
      exact nomatch hc.symm.trans hd'
    | cons c' u' =>
      obtain ⟨rfl, -⟩ := List.cons.inj h
      obtain ⟨rfl, hr⟩ := ih (fun e he => hu e (List.mem_cons_of_mem c he))
        (fun e he => hu' e (List.mem_cons_of_mem c he)) (List.cons.inj h).2
      exact ⟨rfl, hr⟩

end

theorem fixParagraph_iff (p : NSMutableAttributedString S A O) :
    fixParagraph defaultParagraphStyle p 0 p.length = .ok (restyled defaultParagraphStyle p) ↔
      FixesWell defaultParagraphStyle p := by
  rcases styled_cases p with h | ⟨unstyled, first, following, style, rfl, h, hf⟩
  · refine iff_of_true (fixParagraph_unstyled h) ?_
    rintro unstyled first following style rfl - - hf
    exact nomatch (h first (List.mem_append_right _ List.mem_cons_self)).symm.trans hf
  · rcases eq_or_ne unstyled [] with rfl | hne
    · refine iff_of_true (fixParagraph_styled hf) fun u d rest style' hs hune hu _ => ?_
      obtain ⟨c, u, rfl⟩ := List.exists_cons_of_ne_nil hune
      have hc := hu c List.mem_cons_self
      rw [← (List.cons.inj hs).1] at hc
      exact nomatch hc.symm.trans hf
    · have hr : restyled defaultParagraphStyle (unstyled ++ first :: following) =
          (unstyled ++ first :: following).map (setStyle style) := by
        rw [restyled, paragraphStyle_unstyled _ h, paragraphStyle_cons hf]
      rw [fixParagraph_later hne h hf, hr]
      constructor
      · intro hfx u d rest style' hs _ hu hd
        obtain ⟨rfl, rfl, rfl⟩ := later_unique h hf hu hd hs
        obtain rfl := Option.some.inj (hf.symm.trans hd)
        cases following with
        | nil => exact (setStyle_injective (by simp) (Except.ok.inj hfx)).symm
        | cons next rest =>
          cases hn : next.paragraphStyle with
          | none =>
            simp only [hn] at hfx
            exact nomatch hfx
          | some style' =>
            simp only [hn] at hfx
            change next.paragraphStyle = some style
            rw [hn, setStyle_injective (by simp) (Except.ok.inj hfx)]
      · intro hw
        have hw := hw unstyled first following style rfl hne h hf
        cases following with
        | nil => rw [show style = defaultParagraphStyle from hw]
        | cons next rest => simp only [show next.paragraphStyle = some style from hw]

/-! ## One paragraph within the text -/

omit [DecidableEq S] in
theorem styleAt_left (hi : i < p.length) : (p ++ after).styleAt i = p.styleAt i := by
  rw [styleAt, styleAt, List.getElem?_append_left hi]

omit [DecidableEq S] in
theorem slice_middle :
    ((before ++ (p ++ after)).drop before.length).take (before.length + p.length - before.length) = p := by
  rw [List.drop_left, Nat.add_sub_cancel_left, List.take_left]

theorem foundEnd_le (p : NSMutableAttributedString S A O) : p.foundEnd 0 p.length ≤ p.length := by
  rw [foundEnd_zero]
  exact (List.takeWhile_prefix _).length_le

omit [DecidableEq S] in
theorem addStyle_middle {found : Nat} (hf : found ≤ p.length) :
    (before ++ (p ++ after)).addStyle style (before.length + found) (before.length + p.length) =
      before ++ (p.addStyle style found p.length ++ after) := by
  obtain ⟨same, rest, rfl, hs⟩ : ∃ same rest, p = same ++ rest ∧ same.length = found :=
    ⟨p.take found, p.drop found, (List.take_append_drop found p).symm, List.length_take_of_le hf⟩
  subst hs
  have hw : before ++ ((same ++ rest) ++ after) = (before ++ same) ++ (rest ++ after) := by
    simp only [List.append_assoc]
  have hst : before.length + same.length = (before ++ same).length := (List.length_append ..).symm
  have hsp : before.length + (same ++ rest).length = (before ++ same).length + rest.length := by
    simp only [List.length_append]
    omega
  rw [addStyle, addStyle, hst, hsp, hw, List.take_left, List.drop_left, Nat.add_sub_cancel_left,
    List.take_left, ← List.drop_drop, List.drop_left, List.drop_left, List.take_left, List.drop_left,
    List.length_append, Nat.add_sub_cancel_left, List.take_length,
    show same.length + rest.length = (same ++ rest).length from (List.length_append ..).symm, List.drop_length,
    List.append_nil]
  simp only [List.append_assoc]

variable (defaultParagraphStyle before after) in
theorem fixParagraph_middle (hp : p ≠ []) :
    fixParagraph defaultParagraphStyle (before ++ (p ++ after)) before.length (before.length + p.length) =
      (fixParagraph defaultParagraphStyle p 0 p.length).map fun q => before ++ (q ++ after) := by
  have hpos := List.length_pos_of_ne_nil hp
  have hs : (before ++ (p ++ after)).styleAt before.length = p.styleAt 0 := (styleAt_append 0).trans (styleAt_left hpos)
  have hf : (before ++ (p ++ after)).foundEnd before.length (before.length + p.length) =
      before.length + p.foundEnd 0 p.length := by
    rw [foundEnd, slice_middle, hs, foundEnd_zero]
  have hle := foundEnd_le p
  rw [fixParagraph, fixParagraph, hs, hf]
  generalize p.foundEnd 0 p.length = found at hle ⊢
  cases p.styleAt 0 with
  | none =>
    dsimp only
    by_cases hlt : found + 1 < p.length
    · have hn : (before ++ (p ++ after)).styleAt (before.length + found + 1) = p.styleAt (found + 1) :=
        (styleAt_append (found + 1)).trans (styleAt_left hlt)
      rw [if_pos hlt, if_pos (by omega), hn]
      cases p.styleAt (found + 1) with
      | none => rfl
      | some style => exact congrArg Except.ok (addStyle_middle (Nat.zero_le p.length))
    · rw [if_neg hlt, if_neg (by omega)]
      exact congrArg Except.ok (addStyle_middle (Nat.zero_le p.length))
  | some style =>
    dsimp only
    by_cases hlt : found < p.length
    · rw [if_pos hlt, if_pos (by omega)]
      exact congrArg Except.ok (addStyle_middle hle)
    · rw [if_neg hlt, if_neg (by omega)]
      rfl

/-! ## The loop -/

omit [DecidableEq S] in
theorem addStyle_characters (s : NSMutableAttributedString S A O) (style : S) (hst : start ≤ stop) :
    (s.addStyle style start stop).map (·.character) = s.map (·.character) := by
  have hs : s = s.take start ++ ((s.drop start).take (stop - start) ++ s.drop stop) := by
    have hd : s.drop stop = (s.drop start).drop (stop - start) := by
      rw [List.drop_drop, Nat.add_sub_cancel' hst]
    rw [hd, List.take_append_drop, List.take_append_drop]
  have hk (q : NSMutableAttributedString S A O) :
      (q.map (setStyle style)).map (·.character) = q.map (·.character) := List.map_map ..
  rw [addStyle, List.map_append, List.map_append, hk, ← List.map_append, ← List.map_append, ← hs]

theorem fixParagraph_characters (h : fixParagraph defaultParagraphStyle p 0 p.length = .ok s') :
    s'.map (·.character) = p.map (·.character) := by
  have hle := foundEnd_le p
  rw [fixParagraph] at h
  generalize p.foundEnd 0 p.length = found at hle h
  split at h
  · split at h
    · split at h
      · exact nomatch h
      · exact Except.ok.inj h ▸ addStyle_characters p _ (Nat.zero_le _)
    · exact Except.ok.inj h ▸ addStyle_characters p _ (Nat.zero_le _)
  · split at h
    · exact Except.ok.inj h ▸ addStyle_characters p _ hle
    · exact Except.ok.inj h ▸ rfl

/-- A paragraph that starts at `start` has characters in the range. -/
def Meets (range : NSRange) (start : Nat) (p : NSMutableAttributedString S A O) : Prop :=
  max range.location start < min range.max (start + p.length)

instance : Decidable (Meets range start p) := inferInstanceAs (Decidable (_ < _))

def fixIfMeets (defaultParagraphStyle : S) (range : NSRange) (start : Nat)
    (p : NSMutableAttributedString S A O) : Except NSException (NSMutableAttributedString S A O) :=
  if Meets range start p then fixParagraph defaultParagraphStyle p 0 p.length else .ok p

/-- The paragraphs that meet the range are fixed. -/
def fixEach (defaultParagraphStyle : S) (range : NSRange) :
    Nat → List (NSMutableAttributedString S A O) → Except NSException (List (NSMutableAttributedString S A O))
  | _, [] => .ok []
  | start, p :: ps => do
    let p' ← fixIfMeets defaultParagraphStyle range start p
    let ps' ← fixEach defaultParagraphStyle range (start + p.length) ps
    .ok (p' :: ps')

variable {pre ps ps' : List (NSMutableAttributedString S A O)}

theorem fixEach_behind (h : range.max ≤ start) : fixEach defaultParagraphStyle range start ps = .ok ps := by
  induction ps generalizing start with
  | nil => rfl
  | cons p ps ih =>
    have hm : ¬ Meets range start p := by
      rw [Meets]
      omega
    rw [fixEach, fixIfMeets, if_neg hm, ih (by omega)]
    rfl

/-- The paragraphs with their positions. -/
def placed : Nat → List (NSMutableAttributedString S A O) → List (Nat × NSMutableAttributedString S A O)
  | _, [] => []
  | start, p :: ps => (start, p) :: placed (start + p.length) ps

/-- The paragraphs that meet the range with one style each. -/
def restyleEach (defaultParagraphStyle : S) (range : NSRange) (start : Nat)
    (ps : List (NSMutableAttributedString S A O)) : List (NSMutableAttributedString S A O) :=
  (placed start ps).map fun (start, p) =>
    if Meets range start p then restyled defaultParagraphStyle p else p

theorem fixEach_eq_self (h : ∀ start' p, (start', p) ∈ placed start ps → Meets range start' p →
    fixParagraph defaultParagraphStyle p 0 p.length = .ok p) :
    fixEach defaultParagraphStyle range start ps = .ok ps := by
  induction ps generalizing start with
  | nil => rfl
  | cons p ps ih =>
    have hf : fixIfMeets defaultParagraphStyle range start p = .ok p := by
      rw [fixIfMeets]
      split
      · rename_i hm
        exact h start p List.mem_cons_self hm
      · rfl
    rw [fixEach, hf, ih fun start' q hq => h start' q (List.mem_cons_of_mem _ hq)]
    rfl

theorem fixEach_iff :
    fixEach defaultParagraphStyle range start ps = .ok (restyleEach defaultParagraphStyle range start ps) ↔
      ∀ start' p, (start', p) ∈ placed start ps → Meets range start' p → FixesWell defaultParagraphStyle p := by
  induction ps generalizing start with
  | nil => exact iff_of_true rfl fun _ _ h => nomatch h
  | cons p ps ih =>
    have hf : fixIfMeets defaultParagraphStyle range start p =
        .ok (if Meets range start p then restyled defaultParagraphStyle p else p) ↔
          (Meets range start p → FixesWell defaultParagraphStyle p) := by
      rw [fixIfMeets]
      split
      · rename_i hm
        rw [fixParagraph_iff, forall_prop_of_true hm]
      · rename_i hm
        exact iff_of_true rfl fun h => absurd h hm
    have ha : (∀ start' q, (start', q) ∈ placed start (p :: ps) → Meets range start' q →
        FixesWell defaultParagraphStyle q) ↔ (Meets range start p → FixesWell defaultParagraphStyle p) ∧
          ∀ start' q, (start', q) ∈ placed (start + p.length) ps → Meets range start' q →
            FixesWell defaultParagraphStyle q := by
      constructor
      · exact fun h => ⟨h start p List.mem_cons_self, fun start' q hq => h start' q (List.mem_cons_of_mem _ hq)⟩
      · rintro ⟨hp, hps⟩ start' q hq
        rcases List.mem_cons.1 hq with heq | hq
        · obtain ⟨rfl, rfl⟩ := Prod.mk.inj heq
          exact hp
        · exact hps start' q hq
    rw [ha, ← hf, ← ih, fixEach]
    change _ = Except.ok ((if Meets range start p then restyled defaultParagraphStyle p else p) ::
      restyleEach defaultParagraphStyle range (start + p.length) ps) ↔ _
    cases fixIfMeets defaultParagraphStyle range start p with
    | error e => exact iff_of_false (fun h => nomatch h) fun h => nomatch h.1
    | ok p' =>
      cases fixEach defaultParagraphStyle range (start + p.length) ps with
      | error e => exact iff_of_false (fun h => nomatch h) fun h => nomatch h.2
      | ok ps' =>
        constructor
        · intro h
          obtain ⟨rfl, rfl⟩ := List.cons.inj (Except.ok.inj h)
          exact ⟨rfl, rfl⟩
        · rintro ⟨hp', hps'⟩
          rw [Except.ok.inj hp', Except.ok.inj hps']
          rfl

theorem fixEach_before (h : start + pre.flatten.length ≤ range.location) :
    fixEach defaultParagraphStyle range start (pre ++ ps) =
      (fixEach defaultParagraphStyle range (start + pre.flatten.length) ps).map (pre ++ ·) := by
  induction pre generalizing start with
  | nil =>
    change fixEach defaultParagraphStyle range start ps = _
    rw [List.flatten_nil, List.length_nil, Nat.add_zero]
    cases fixEach defaultParagraphStyle range start ps <;> rfl
  | cons p pre ih =>
    rw [List.flatten_cons, List.length_append] at h ⊢
    have hm : ¬ Meets range start p := by
      rw [Meets]
      omega
    rw [List.cons_append, fixEach, fixIfMeets, if_neg hm, ih (by omega), Nat.add_assoc]
    cases fixEach defaultParagraphStyle range (start + (p.length + pre.flatten.length)) ps <;> rfl

section

omit [DecidableEq S]

theorem paragraphs_flatten
    (h : ps.map (List.map (·.character)) = (paragraphs isSeparator s).map (List.map (·.character))) :
    paragraphs isSeparator ps.flatten = ps := by
  have he (c : AttributedCharacter S A O) (cs : NSMutableAttributedString S A O) :
      endsLine isSeparator c.character (cs.map (·.character)) =
        endsLine isSeparator ((·.character) c) (cs.map (·.character)) := rfl
  refine Lines.lines_eq_of_keys he ?_
  have hw : ps.flatten.map (·.character) = s.map (·.character) := by
    rw [List.map_flatten, h, ← List.map_flatten]
    exact congrArg (List.map _) Lines.lines_flatten
  rw [h, hw]
  exact Lines.lines_of_map he s

theorem flatten_paragraphs (h : paragraphs isSeparator s = ps) : s = ps.flatten := by
  rw [← h]
  exact Lines.lines_flatten.symm

theorem paragraphs_ne_nil (h : paragraphs isSeparator s = pre ++ ps) (hp : p ∈ ps) : p ≠ [] := by
  have hin : p ∈ paragraphs isSeparator s := by
    rw [h]
    exact List.mem_append_right pre hp
  exact Lines.ne_nil_of_mem hin

end

theorem fixParagraphsFuel_done (h : stop ≤ loc) :
    fixParagraphsFuel isSeparator defaultParagraphStyle fuel s loc stop = .ok s := by
  cases fuel with
  | zero => rfl
  | succ fuel => rw [fixParagraphsFuel, if_neg (Nat.not_lt.2 h)]

theorem fixParagraphsFuel_eq (hpr : paragraphs isSeparator s = pre ++ ps)
    (hm : range.max ≤ s.length) (hfl : range.max ≤ loc + fuel) (hloc : range.location ≤ loc)
    (hpre : pre.flatten.length ≤ loc) (hln : ∀ p ∈ ps.head?, loc < pre.flatten.length + p.length)
    (hs : loc = pre.flatten.length ∨ loc < range.max) :
    s.fixParagraphsFuel isSeparator defaultParagraphStyle fuel loc range.max =
      (fixEach defaultParagraphStyle range pre.flatten.length ps).map fun ps' => pre.flatten ++ ps'.flatten := by
  induction ps generalizing pre s loc fuel with
  | nil =>
    rw [List.append_nil] at hpr
    have hw := flatten_paragraphs hpr
    rw [fixParagraphsFuel_done (by rw [hw] at hm; omega)]
    change _ = Except.ok (pre.flatten ++ [])
    rw [List.append_nil, hw]
  | cons p ps ih =>
    have hw := flatten_paragraphs hpr
    rw [List.flatten_append, List.flatten_cons] at hw
    have hlt := hln p rfl
    rcases Nat.lt_or_ge loc range.max with hin | ho
    · obtain ⟨fuel, rfl⟩ : ∃ k, fuel = k + 1 := ⟨fuel - 1, by omega⟩
      have hmts : Meets range pre.flatten.length p := by
        rw [Meets]
        omega
      have hr : s.lineRangeForRange isSeparator loc = (pre.flatten.length, pre.flatten.length + p.length) := by
        rw [lineRangeForRange, hpr, Lines.rangeAt_line hpre hlt]
        rfl
      have hp : p ≠ [] := paragraphs_ne_nil hpr List.mem_cons_self
      have hf := fixParagraph_middle defaultParagraphStyle pre.flatten ps.flatten hp
      rw [← hw] at hf
      rw [fixParagraphsFuel, if_pos hin, hr, fixEach, fixIfMeets, if_pos hmts]
      dsimp only
      rw [hf]
      cases hfx : fixParagraph defaultParagraphStyle p 0 p.length with
      | error e => rfl
      | ok p' =>
        have hc := fixParagraph_characters hfx
        have hl : p'.length = p.length := by
          have := congrArg List.length hc
          simpa only [List.length_map] using this
        have hpre' : (pre ++ [p']).flatten.length = pre.flatten.length + p.length := by
          rw [List.flatten_append, List.length_append, List.flatten_singleton, hl]
        have hw' : pre.flatten ++ (p' ++ ps.flatten) = ((pre ++ [p']) ++ ps).flatten := by
          simp only [List.flatten_append, List.flatten_singleton, List.append_assoc]
        have hpr' : paragraphs isSeparator ((pre ++ [p']) ++ ps).flatten = (pre ++ [p']) ++ ps := by
          refine paragraphs_flatten (s := s) ?_
          rw [hpr]
          simp only [List.map_append, List.map_cons, hc, List.append_assoc, List.cons_append, List.nil_append]
        have hm' : range.max ≤ ((pre ++ [p']) ++ ps).flatten.length := by
          rw [← hw', List.length_append, List.length_append, hl, ← List.length_append, ← List.length_append, ← hw]
          exact hm
        have hln' (q : NSMutableAttributedString S A O) (hq : q ∈ ps.head?) :
            pre.flatten.length + p.length < (pre ++ [p']).flatten.length + q.length := by
          have hne : q ≠ [] := paragraphs_ne_nil hpr (List.mem_cons_of_mem p (List.mem_of_mem_head? hq))
          have := List.length_pos_of_ne_nil hne
          omega
        have hrs := ih hpr' hm' (show range.max ≤ pre.flatten.length + p.length + fuel by omega)
          (by omega) (by omega) hln' (.inl hpre'.symm)
        change (fixParagraphsFuel isSeparator defaultParagraphStyle fuel
          (pre.flatten ++ (p' ++ ps.flatten)) _ _) = _
        rw [hw', hrs, hpre']
        change _ = Except.map _ (Except.bind (fixEach _ _ _ ps) _)
        cases fixEach defaultParagraphStyle range (pre.flatten.length + p.length) ps with
        | error e => rfl
        | ok ps' =>
          refine congrArg Except.ok ?_
          simp only [List.flatten_append, List.flatten_cons, List.flatten_nil, List.append_nil, List.append_assoc]
    · rw [fixParagraphsFuel_done ho, fixEach_behind (by omega)]
      exact congrArg Except.ok hw

/-- The method fixes each paragraph that meets the range. -/
theorem fixParagraphStyle_eq (hm : range.max ≤ s.length) :
    s.fixParagraphStyleAttributeInRange isSeparator defaultParagraphStyle range =
      (fixEach defaultParagraphStyle range 0 (paragraphs isSeparator s)).map List.flatten := by
  rw [fixParagraphStyleAttributeInRange, if_neg (Nat.not_lt.2 hm)]
  have hw : s = (paragraphs isSeparator s).flatten := flatten_paragraphs rfl
  rcases Nat.eq_zero_or_pos range.length with hz | hp
  · rw [fixParagraphsFuel_done (by rw [NSRange.max]; omega), fixEach_eq_self]
    · exact congrArg Except.ok hw
    · intro start p _ hmts
      rw [Meets, NSRange.max] at hmts
      omega
  · have hl : range.location < (paragraphs isSeparator s).flatten.length := by
      rw [← hw]
      rw [NSRange.max] at hm
      omega
    obtain ⟨pre, p, ps, hpr, hle, hlt⟩ := Lines.exists_line hl
    have hin : range.location < range.max := by
      rw [NSRange.max]
      omega
    rw [fixParagraphsFuel_eq hpr hm (Nat.le_refl _) (Nat.le_refl _) hle
      (fun q hq => Option.some.inj hq ▸ hlt) (.inr hin), hpr, fixEach_before (by omega), Nat.zero_add]
    cases fixEach defaultParagraphStyle range pre.flatten.length (p :: ps) with
    | error e => rfl
    | ok ps' => exact congrArg Except.ok List.flatten_append.symm

/-! ## Paragraph styles are fixed -/

/-- The method does not raise, the paragraphs are those before, each that meets the range with the style of
its first character that has one, and a second call changes nothing. -/
def FixesParagraphs (isSeparator : UInt16 → Bool) (defaultParagraphStyle : S)
    (s : NSMutableAttributedString S A O) (range : NSRange) : Prop :=
  ∃ s', s.fixParagraphStyleAttributeInRange isSeparator defaultParagraphStyle range = .ok s' ∧
    paragraphs isSeparator s' = restyleEach defaultParagraphStyle range 0 (paragraphs isSeparator s) ∧
    s'.fixParagraphStyleAttributeInRange isSeparator defaultParagraphStyle range = .ok s'

theorem fixEach_characters (h : fixEach defaultParagraphStyle range start ps = .ok ps') :
    ps'.map (List.map (·.character)) = ps.map (List.map (·.character)) := by
  induction ps generalizing start ps' with
  | nil => exact Except.ok.inj h ▸ rfl
  | cons p ps ih =>
    rw [fixEach] at h
    have hf (p' : NSMutableAttributedString S A O) (hp' : fixIfMeets defaultParagraphStyle range start p = .ok p') :
        p'.map (·.character) = p.map (·.character) := by
      rw [fixIfMeets] at hp'
      split at hp'
      · exact fixParagraph_characters hp'
      · exact Except.ok.inj hp' ▸ rfl
    cases hp : fixIfMeets defaultParagraphStyle range start p with
    | error e =>
      rw [hp] at h
      exact nomatch h
    | ok p' =>
      cases hps : fixEach defaultParagraphStyle range (start + p.length) ps with
      | error e =>
        rw [hp, hps] at h
        exact nomatch h
      | ok rest =>
        rw [hp, hps] at h
        rw [← Except.ok.inj h, List.map_cons, List.map_cons, hf p' hp, ih hps]

omit [DecidableEq S] in
theorem restyled_length (p : NSMutableAttributedString S A O) :
    (restyled defaultParagraphStyle p).length = p.length := List.length_map ..

theorem fixParagraph_restyled (p : NSMutableAttributedString S A O) :
    fixParagraph defaultParagraphStyle (restyled defaultParagraphStyle p) 0
        (restyled defaultParagraphStyle p).length = .ok (restyled defaultParagraphStyle p) := by
  cases p with
  | nil => rfl
  | cons c p =>
    rw [restyled]
    generalize paragraphStyle defaultParagraphStyle (c :: p) = style
    have hs : (setStyle style c).paragraphStyle = some style := rfl
    rw [List.map_cons, fixParagraph_styled hs, restyled, paragraphStyle_cons hs, map_setStyle_self]
    intro d hd
    rw [← List.map_cons] at hd
    obtain ⟨e, -, rfl⟩ := List.mem_map.1 hd
    rfl

omit [DecidableEq S] in
theorem mem_placed_restyleEach (h : (loc, p) ∈ placed start (restyleEach defaultParagraphStyle range start ps))
    (hm : Meets range loc p) : ∃ q, p = restyled defaultParagraphStyle q := by
  induction ps generalizing start with
  | nil => exact nomatch h
  | cons q ps ih =>
    have hl : (if Meets range start q then restyled defaultParagraphStyle q else q).length = q.length := by
      split
      · exact restyled_length q
      · rfl
    change (loc, p) ∈ (start, _) ::
      placed (start + _) (restyleEach defaultParagraphStyle range (start + q.length) ps) at h
    rw [hl] at h
    rcases List.mem_cons.1 h with heq | h
    · obtain ⟨rfl, rfl⟩ := Prod.mk.inj heq
      dsimp only at hm
      split at hm
      · rename_i hq
        exact ⟨q, if_pos hq⟩
      · rename_i hq
        exact absurd hm hq
    · exact ih h

/-- Each paragraph that meets the range is looked at well, or the method fails or gives a paragraph a wrong
style. -/
theorem fixesParagraphs_iff (isSeparator : UInt16 → Bool) (defaultParagraphStyle : S)
    (s : NSMutableAttributedString S A O) (range : NSRange) (hrange : range.max ≤ s.length) :
    FixesParagraphs isSeparator defaultParagraphStyle s range ↔
      ∀ start p, (start, p) ∈ placed 0 (paragraphs isSeparator s) → Meets range start p →
        FixesWell defaultParagraphStyle p := by
  rw [← fixEach_iff, FixesParagraphs, fixParagraphStyle_eq hrange]
  constructor
  · rintro ⟨s', hf, hpr, -⟩
    cases he : fixEach defaultParagraphStyle range 0 (paragraphs isSeparator s) with
    | error e =>
      rw [he] at hf
      exact nomatch hf
    | ok ps' =>
      rw [he] at hf
      rw [← hpr, ← Except.ok.inj hf, paragraphs_flatten (fixEach_characters he)]
  · intro he
    have hpr := paragraphs_flatten (fixEach_characters he)
    have hl :
        (restyleEach defaultParagraphStyle range 0 (paragraphs isSeparator s)).flatten.length = s.length := by
      have hc := congrArg List.flatten (fixEach_characters he)
      rw [← List.map_flatten, ← List.map_flatten, ← flatten_paragraphs (s := s) rfl] at hc
      simpa only [List.length_map] using congrArg List.length hc
    refine ⟨_, congrArg (Except.map List.flatten) he, hpr, ?_⟩
    rw [fixParagraphStyle_eq (hl ▸ hrange), hpr, fixEach_eq_self]
    · rfl
    · intro start p hp hm
      obtain ⟨q, rfl⟩ := mem_placed_restyleEach hp hm
      exact fixParagraph_restyled q

/-- A letter with a style. -/
def letter (style : Option Bool) : AttributedCharacter Bool Unit Unit := ⟨97, style, none, ()⟩

/-- A style that begins at the second of three letters. -/
theorem fixesParagraphs_later :
    FixesParagraphs (· == 10) false [letter none, letter (some true), letter (some true)] ⟨0, 3⟩ := by
  refine (fixesParagraphs_iff _ _ _ _ (by decide)).2 fun start p hp _ => ?_
  have hpl : placed 0 (paragraphs (· == 10) [letter none, letter (some true), letter (some true)]) =
      [(0, [letter none] ++ letter (some true) :: [letter (some true)])] := by decide
  rw [hpl] at hp
  obtain ⟨rfl, rfl⟩ := Prod.mk.inj (List.mem_singleton.1 hp)
  intro unstyled first following style hs _ hu hf
  have hn : ∀ c ∈ [letter none], c.paragraphStyle = none := fun c hc => List.mem_singleton.1 hc ▸ rfl
  obtain ⟨rfl, rfl, rfl⟩ := later_unique hn rfl hu hf hs
  exact hf

/-- A style on the second of three letters alone makes the method raise. -/
theorem not_fixesParagraphs_single :
    ¬ ∀ (s : NSMutableAttributedString Bool Unit Unit) (range : NSRange), range.max ≤ s.length →
      FixesParagraphs (· == 10) false s range := by
  intro ha
  obtain ⟨s', hf, -, -⟩ := ha [letter none, letter (some true), letter none] ⟨0, 3⟩ (by decide)
  have hr : fixParagraphStyleAttributeInRange (· == 10) false
      [letter none, letter (some true), letter none] ⟨0, 3⟩ = .error .invalidArgument := rfl
  rw [hr] at hf
  exact nomatch hf

end NSMutableAttributedString

end GnustepGui.AttributedString
