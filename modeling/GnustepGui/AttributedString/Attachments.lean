import Mathlib.Data.List.TakeWhile
import GnustepGui.AttributedString.AttributedString

/-!
# Fixing attachments

`fixAttachmentAttributeInRange:` over any implementation of attributed strings, which reports the runs of
its attributes as it likes. The first loop trims each run that meets the range down to its first attachment
character, also outside of the range (`Trims`); the second one deletes the attachment characters of the
range that have no attachment (`deleteFuel_eq`).
-/

namespace GnustepGui.AttributedString

namespace NSMutableAttributedString

variable {S A O : Type*}

def attachmentCharacter : UInt16 := 0xFFFC

def IsAttachment (c : AttributedCharacter S A O) : Prop := c.character = attachmentCharacter

instance (c : AttributedCharacter S A O) : Decidable (IsAttachment c) := inferInstanceAs (Decidable (_ = _))

def detach (c : AttributedCharacter S A O) : AttributedCharacter S A O := { c with attachment := none }

/-- `removeAttribute:range:` of the attachment. -/
def removeAttachment (s : NSMutableAttributedString S A O) (range : NSRange) :
    NSMutableAttributedString S A O :=
  s.mapIdx fun i c => if range.location ≤ i ∧ i < range.max then detach c else c

/-- Leave only one character with the attachment. -/
def trimRun (s : NSMutableAttributedString S A O) (eRange : NSRange) : NSMutableAttributedString S A O :=
  let buf := (s.drop eRange.location).take eRange.length
  let pos := (buf.takeWhile fun c => ¬ IsAttachment c).length
  let s := if pos ≠ 0 then s.removeAttachment ⟨eRange.location, pos⟩ else s
  let pos := pos + 1
  if pos < eRange.length then s.removeAttachment ⟨eRange.location + pos, eRange.length - pos⟩ else s

def attachmentAt (s : NSMutableAttributedString S A O) (i : Nat) : Option A := s[i]?.bind (·.attachment)

/-- Check for attachments with the wrong character. -/
def trimFuel (effectiveRange : NSMutableAttributedString S A O → Nat → NSRange) :
    Nat → NSMutableAttributedString S A O → Nat → Nat → NSMutableAttributedString S A O
  | 0, s, _, _ => s
  | fuel + 1, s, location, stop =>
    if location < stop then
      let eRange := effectiveRange s location
      let s := if (s.attachmentAt location).isSome then s.trimRun eRange else s
      trimFuel effectiveRange fuel s eRange.max stop
    else s

/-- Check for attachment characters without attachments. -/
def deleteFuel : Nat → NSMutableAttributedString S A O → Nat → Nat → NSMutableAttributedString S A O
  | 0, s, _, _ => s
  | fuel + 1, s, location, stop =>
    match ((s.drop location).take (stop - location)).findIdx? fun c => IsAttachment c with
    | none => s
    | some k =>
      if (s.attachmentAt (location + k)).isNone then
        deleteFuel fuel (s.eraseIdx (location + k)) (location + k) (stop - 1)
      else deleteFuel fuel s (location + k + 1) stop

def fixAttachmentAttributeInRange (effectiveRange : NSMutableAttributedString S A O → Nat → NSRange)
    (s : NSMutableAttributedString S A O) (range : NSRange) :
    Except NSException (NSMutableAttributedString S A O) :=
  if range.max > s.length then .error .rangeError
  else
    let s := trimFuel effectiveRange range.length s range.location range.max
    .ok (deleteFuel range.length s range.location range.max)

/-! ## Runs -/

/-- `attributesAtIndex:effectiveRange:` reports a range around the index over which all attributes are the
same. -/
structure ReportsRuns (effectiveRange : NSMutableAttributedString S A O → Nat → NSRange) : Prop where
  location_le : ∀ s i, i < s.length → (effectiveRange s i).location ≤ i
  lt_max : ∀ s i, i < s.length → i < (effectiveRange s i).max
  max_le : ∀ s i, i < s.length → (effectiveRange s i).max ≤ s.length
  same : ∀ s i j (c d : AttributedCharacter S A O), s[i]? = some c → s[j]? = some d →
    (effectiveRange s i).location ≤ j → j < (effectiveRange s i).max →
      d.paragraphStyle = c.paragraphStyle ∧ d.attachment = c.attachment ∧ d.others = c.others

variable {effectiveRange : NSMutableAttributedString S A O → Nat → NSRange}
  {s t u front mid back : NSMutableAttributedString S A O} {range eRange : NSRange}
  {c d : AttributedCharacter S A O} {i j loc fuel stop : Nat}

/-! ## Trimming a run -/

theorem getElem?_removeAttachment (i : Nat) : (s.removeAttachment range)[i]? =
    s[i]?.map fun c => if range.location ≤ i ∧ i < range.max then detach c else c := List.getElem?_mapIdx

/-- Where the first attachment character of a run stands, or the end of the run. -/
def firstAttachment (s : NSMutableAttributedString S A O) (eRange : NSRange) : Nat :=
  eRange.location +
    (((s.drop eRange.location).take eRange.length).takeWhile fun c => ¬ IsAttachment c).length

theorem getElem?_trimRun (s : NSMutableAttributedString S A O) (eRange : NSRange) (i : Nat) :
    (s.trimRun eRange)[i]? = s[i]?.map fun c =>
      if eRange.location ≤ i ∧ i < eRange.max ∧ i ≠ s.firstAttachment eRange then detach c else c := by
  have ht : ((s.drop eRange.location).take eRange.length).takeWhile (fun c => ¬ IsAttachment c) <+:
      (s.drop eRange.location).take eRange.length := List.takeWhile_prefix _
  have hp := Nat.le_trans ht.length_le (List.length_take_le _ _)
  rw [trimRun, firstAttachment, NSRange.max]
  generalize (((s.drop eRange.location).take eRange.length).takeWhile fun c => ¬ IsAttachment c).length = pos
    at hp ⊢
  cases hc : s[i]? with
  | none =>
    split <;> split <;> simp only [getElem?_removeAttachment, hc, Option.map_none]
  | some c =>
    have hm (a b : Nat) : NSRange.max ⟨a, b⟩ = a + b := rfl
    split <;> split <;> simp only [getElem?_removeAttachment, hc, Option.map_some, hm] <;>
      refine congrArg some ?_ <;> split_ifs <;> first | rfl | omega

theorem length_trimRun (s : NSMutableAttributedString S A O) (eRange : NSRange) :
    (s.trimRun eRange).length = s.length := by
  rw [trimRun]
  split <;> split <;> simp only [removeAttachment, List.length_mapIdx]

theorem takeWhile_stop {p : AttributedCharacter S A O → Bool} {l : List (AttributedCharacter S A O)}
    (h : l[(l.takeWhile p).length]? = some c) : p c = false := by
  induction l with
  | nil => exact nomatch h
  | cons d l ih =>
    rw [List.takeWhile_cons] at h
    split at h
    · exact ih h
    · rename_i hd
      rw [← Option.some.inj h]
      exact Bool.eq_false_iff.2 hd

/-- In front of the first attachment character there is none. -/
theorem not_isAttachment_of_lt (hj : eRange.location ≤ j) (hlt : j < s.firstAttachment eRange)
    (hd : s[j]? = some d) : ¬ IsAttachment d := by
  rw [firstAttachment] at hlt
  obtain ⟨k, rfl⟩ := Nat.exists_eq_add_of_le hj
  have hk : k < (((s.drop eRange.location).take eRange.length).takeWhile fun c => ¬ IsAttachment c).length := by
    omega
  have ht : ((s.drop eRange.location).take eRange.length).takeWhile (fun c => ¬ IsAttachment c) <+:
      (s.drop eRange.location).take eRange.length := List.takeWhile_prefix _
  have hle := Nat.lt_of_lt_of_le hk (Nat.le_trans ht.length_le (List.length_take_le _ _))
  have hd' : ((s.drop eRange.location).take eRange.length)[k]? = some d := by
    rw [List.getElem?_take, if_pos hle, List.getElem?_drop]
    exact hd
  have hkd := (ht.getElem hk).trans (List.getElem?_eq_some_iff.1 hd').2
  have hin : d ∈ ((s.drop eRange.location).take eRange.length).takeWhile fun c => ¬ IsAttachment c :=
    hkd ▸ List.getElem_mem hk
  simpa using List.mem_takeWhile_imp hin

theorem isAttachment_first (hlt : s.firstAttachment eRange < eRange.max) (hm : eRange.max ≤ s.length) :
    ∃ d, s[s.firstAttachment eRange]? = some d ∧ IsAttachment d := by
  have hin : s.firstAttachment eRange < s.length := Nat.lt_of_lt_of_le hlt hm
  refine ⟨s[s.firstAttachment eRange], List.getElem?_eq_getElem hin, ?_⟩
  have hs : ((s.drop eRange.location).take eRange.length)[
      (((s.drop eRange.location).take eRange.length).takeWhile fun c => ¬ IsAttachment c).length]? =
        some s[s.firstAttachment eRange] := by
    rw [List.getElem?_take, List.getElem?_drop, if_pos]
    · exact List.getElem?_eq_getElem hin
    · rw [firstAttachment, NSRange.max] at hlt
      omega
  simpa using takeWhile_stop hs

/-! ## The first loop -/

/-- The character at `i` is in a run with a character of the range, and is not the first attachment
character of it. -/
def LosesAttachment (effectiveRange : NSMutableAttributedString S A O → Nat → NSRange) (range : NSRange)
    (s : NSMutableAttributedString S A O) (i : Nat) : Prop :=
  ∃ u location, u.map (·.character) = s.map (·.character) ∧ range.location ≤ location ∧ location < range.max ∧
    (effectiveRange u location).location ≤ i ∧ i < (effectiveRange u location).max ∧
    ∀ c, s[i]? = some c → IsAttachment c →
      ∃ j d, (effectiveRange u location).location ≤ j ∧ j < i ∧ s[j]? = some d ∧ IsAttachment d

/-- Some characters have lost their attachment. -/
structure Trims (effectiveRange : NSMutableAttributedString S A O → Nat → NSRange) (range : NSRange)
    (s t : NSMutableAttributedString S A O) : Prop where
  length : t.length = s.length
  each : ∀ i c, s[i]? = some c →
    t[i]? = some c ∨ (t[i]? = some (detach c) ∧ LosesAttachment effectiveRange range s i)

theorem Trims.refl (s : NSMutableAttributedString S A O) : Trims effectiveRange range s s :=
  ⟨rfl, fun _ _ hc => .inl hc⟩

theorem Trims.characters (h : Trims effectiveRange range s t) : t.map (·.character) = s.map (·.character) := by
  refine List.ext_getElem? fun i => ?_
  rw [List.getElem?_map, List.getElem?_map]
  cases hc : s[i]? with
  | none =>
    rw [List.getElem?_eq_none_iff] at hc
    rw [List.getElem?_eq_none_iff.2 (h.length ▸ hc)]
  | some c =>
    rcases h.each i c hc with hi | ⟨hi, -⟩
    · rw [hi]
    · rw [hi]
      rfl

theorem Trims.isAttachment_iff (h : Trims effectiveRange range s t) (hc : s[i]? = some c)
    (hd : t[i]? = some d) : IsAttachment d ↔ IsAttachment c := by
  rcases h.each i c hc with hi | ⟨hi, -⟩
  · rw [Option.some.inj (hd.symm.trans hi)]
  · rw [Option.some.inj (hd.symm.trans hi)]
    exact Iff.rfl

theorem Trims.exists_source (h : Trims effectiveRange range s t) (hd : t[i]? = some d) : ∃ c, s[i]? = some c := by
  have hi := (List.getElem?_eq_some_iff.1 hd).1
  rw [h.length] at hi
  exact ⟨s[i], List.getElem?_eq_getElem hi⟩

/-- The run at a position of the range is trimmed. -/
theorem Trims.trimRun (h : Trims effectiveRange range s t) (hr : ReportsRuns effectiveRange)
    (hl : range.location ≤ loc) (hlt : loc < range.max) (hlen : loc < t.length) :
    Trims effectiveRange range s (t.trimRun (effectiveRange t loc)) := by
  refine ⟨?_, fun i c hc => ?_⟩
  · rw [length_trimRun, h.length]
  · rw [getElem?_trimRun]
    rcases h.each i c hc with hi | ⟨hi, hlos⟩
    · rw [hi, Option.map_some]
      split
      · rename_i hin
        refine .inr ⟨rfl, t, loc, h.characters, hl, hlt, hin.1, hin.2.1, fun c' hc' ha => ?_⟩
        obtain rfl := Option.some.inj (hc.symm.trans hc')
        -- the first attachment character stands before this one
        have hf : t.firstAttachment (effectiveRange t loc) < i := by
          refine Nat.lt_of_le_of_ne (Nat.not_lt.1 fun hb => ?_) (Ne.symm hin.2.2)
          exact not_isAttachment_of_lt hin.1 hb hi ha
        obtain ⟨d, hd, hdat⟩ := isAttachment_first (Nat.lt_trans hf hin.2.1) (hr.max_le t loc hlen)
        obtain ⟨e, he⟩ := h.exists_source hd
        exact ⟨_, e, Nat.le_add_right _ _, hf, he, (h.isAttachment_iff he hd).1 hdat⟩
      · exact .inl rfl
    · rw [hi, Option.map_some]
      refine .inr ⟨?_, hlos⟩
      split <;> rfl

theorem trimFuel_trims (hr : ReportsRuns effectiveRange) (h : Trims effectiveRange range s t)
    (hm : range.max ≤ s.length) (hloc : range.location ≤ loc) (hfl : range.max ≤ loc + fuel)
    (hdn : ∀ i c, range.location ≤ i → i < loc → i < range.max → t[i]? = some c →
      c.attachment.isSome → IsAttachment c) :
    Trims effectiveRange range s (trimFuel effectiveRange fuel t loc range.max) ∧
      ∀ i c, range.location ≤ i → i < range.max →
        (trimFuel effectiveRange fuel t loc range.max)[i]? = some c → c.attachment.isSome → IsAttachment c := by
  induction fuel generalizing t loc with
  | zero => exact ⟨h, fun i c hi hlt => hdn i c hi (by omega) hlt⟩
  | succ fuel ih =>
    rw [trimFuel]
    split
    · rename_i hlt
      have hl : loc < t.length := by
        rw [h.length]
        omega
      have haft := hr.lt_max t loc hl
      dsimp only
      split
      · have h' := h.trimRun hr hloc hlt hl
        refine ih h' (by omega) (by omega) fun i c hi hlti hin hc ha => ?_
        rw [getElem?_trimRun] at hc
        cases hd : t[i]? with
        | none =>
          rw [hd] at hc
          exact nomatch hc
        | some d =>
          rw [hd, Option.map_some] at hc
          split at hc
          · rw [← Option.some.inj hc] at ha
            exact nomatch ha
          · rename_i hk
            obtain rfl := Option.some.inj hc
            rcases Nat.lt_or_ge i loc with hb | hge
            · exact hdn i d hi hb hin hd ha
            · have hle := hr.location_le t loc hl
              have hf : i = t.firstAttachment (effectiveRange t loc) := by
                by_contra hne
                exact hk ⟨by omega, hlti, hne⟩
              obtain ⟨e, he, hatt⟩ := isAttachment_first (hf ▸ hlti) (hr.max_le t loc hl)
              rw [← hf, hd] at he
              exact Option.some.inj he ▸ hatt
      · rename_i hn
        refine ih h (by omega) (by omega) fun i c hi hlti hin hc ha => ?_
        rcases Nat.lt_or_ge i loc with hb | hge
        · exact hdn i c hi hb hin hc ha
        · have hle := hr.location_le t loc hl
          have hs := hr.same t loc i _ c (List.getElem?_eq_getElem hl) hc (by omega) hlti
          rw [attachmentAt, List.getElem?_eq_getElem hl, Option.bind_some] at hn
          rw [hs.2.1] at ha
          exact absurd ha hn
    · exact ⟨h, fun i c hi hlti => hdn i c hi (by omega) hlti⟩

/-! ## The second loop -/

/-- What the second loop leaves in the range. -/
def Keeps (c : AttributedCharacter S A O) : Prop := ¬ (IsAttachment c ∧ c.attachment.isNone)

instance (c : AttributedCharacter S A O) : Decidable (Keeps c) := inferInstanceAs (Decidable (¬ _))

theorem cons_append_eq : front ++ (c :: mid ++ back) = (front ++ [c]) ++ (mid ++ back) := by
  rw [List.append_assoc]
  rfl

theorem length_advance : front.length + (mid.length + 1) = (front ++ [c]).length + mid.length := by
  rw [List.length_append, List.length_singleton]
  omega

theorem deleteFuel_skip (hc : ¬ IsAttachment c) :
    deleteFuel fuel (front ++ (c :: mid ++ back)) front.length (front.length + (mid.length + 1)) =
      deleteFuel fuel ((front ++ [c]) ++ (mid ++ back)) (front ++ [c]).length ((front ++ [c]).length + mid.length) := by
  have hi (k : Nat) : front.length + (k + 1) = (front ++ [c]).length + k := by
    rw [List.length_append, List.length_singleton]
    omega
  cases fuel with
  | zero => exact cons_append_eq
  | succ fuel =>
    rw [deleteFuel, deleteFuel, List.drop_left, Nat.add_sub_cancel_left, List.cons_append, List.take_succ_cons,
      List.take_left, List.findIdx?_cons, decide_eq_false hc, List.drop_left, Nat.add_sub_cancel_left,
      List.take_left, ← List.cons_append, cons_append_eq, hi mid.length]
    cases mid.findIdx? fun c => decide (IsAttachment c) with
    | none => rfl
    | some k => simp only [Bool.false_eq_true, if_false, Option.map_some, hi]

variable (front back) in
/-- The attachment characters of the range without an attachment are deleted. -/
theorem deleteFuel_eq (hf : mid.length ≤ fuel) :
    deleteFuel fuel (front ++ (mid ++ back)) front.length (front.length + mid.length) =
      front ++ (mid.filter (fun c => Keeps c) ++ back) := by
  induction mid generalizing front fuel with
  | nil =>
    cases fuel with
    | zero => rfl
    | succ fuel =>
      rw [deleteFuel, List.length_nil, Nat.add_zero, Nat.sub_self, List.take_zero]
      rfl
  | cons c mid ih =>
    by_cases hc : IsAttachment c
    · obtain ⟨fuel, rfl⟩ : ∃ k, fuel = k + 1 := ⟨fuel - 1, by rw [List.length_cons] at hf; omega⟩
      rw [List.length_cons] at hf ⊢
      have hfn : (((front ++ (c :: mid ++ back)).drop front.length).take
          (front.length + (mid.length + 1) - front.length)).findIdx? (fun c => decide (IsAttachment c)) = some 0 := by
        rw [List.drop_left, Nat.add_sub_cancel_left, List.cons_append, List.take_succ_cons, List.findIdx?_cons,
          decide_eq_true hc]
        rfl
      have ha : attachmentAt (front ++ (c :: mid ++ back)) (front.length + 0) = c.attachment := by
        rw [attachmentAt, List.getElem?_append_right (Nat.le_add_right _ _), Nat.add_sub_cancel_left]
        rfl
      rw [deleteFuel, hfn]
      dsimp only
      rw [ha, Nat.add_zero]
      split
      · rename_i hn
        have he : (front ++ (c :: mid ++ back)).eraseIdx front.length = front ++ (mid ++ back) := by
          rw [List.eraseIdx_append_of_length_le (Nat.le_refl _), Nat.sub_self]
          rfl
        have hd : ¬ Keeps c := fun h => h ⟨hc, hn⟩
        rw [he, show front.length + (mid.length + 1) - 1 = front.length + mid.length by omega,
          ih front (by omega), List.filter_cons_of_neg (by simpa using hd)]
      · rename_i hs
        have hk : Keeps c := fun h => hs h.2
        have hr := ih (front ++ [c]) (show mid.length ≤ fuel by omega)
        have hnx : front.length + 1 = (front ++ [c]).length := by
          rw [List.length_append]
          rfl
        rw [hnx, length_advance, cons_append_eq, hr, List.filter_cons_of_pos (by simpa using hk),
          cons_append_eq]
    · have hk : Keeps c := fun h => hc h.1
      rw [List.length_cons] at hf
      have hr := ih (front ++ [c]) (show mid.length ≤ fuel by omega)
      rw [List.length_cons, deleteFuel_skip hc, hr, List.filter_cons_of_pos (by simpa using hk),
        cons_append_eq]

/-! ## Both loops -/

theorem fixAttachment_eq (hr : range.max ≤ s.length)
    (hl : (trimFuel effectiveRange range.length s range.location range.max).length = s.length) :
    s.fixAttachmentAttributeInRange effectiveRange range =
      let trimmed := trimFuel effectiveRange range.length s range.location range.max
      .ok (trimmed.take range.location ++
        (((trimmed.drop range.location).take range.length).filter (fun c => Keeps c) ++
          trimmed.drop range.max)) := by
  rw [fixAttachmentAttributeInRange, if_neg (Nat.not_lt.2 hr)]
  dsimp only
  generalize trimFuel effectiveRange range.length s range.location range.max = trimmed at hl ⊢
  rw [NSRange.max] at hr ⊢
  have hf : (trimmed.take range.location).length = range.location := List.length_take_of_le (by omega)
  have hm : ((trimmed.drop range.location).take range.length).length = range.length := by
    rw [List.length_take, List.length_drop]
    omega
  have hw : trimmed = trimmed.take range.location ++
      ((trimmed.drop range.location).take range.length ++ trimmed.drop (range.location + range.length)) := by
    rw [← List.drop_drop, List.take_append_drop, List.take_append_drop]
  have hd := deleteFuel_eq (trimmed.take range.location) (trimmed.drop (range.location + range.length))
    (Nat.le_of_eq hm)
  rw [← hw, hf, hm] at hd
  rw [hd]

theorem trimRun_single (hc : s[loc]? = some c) (ha : IsAttachment c) : s.trimRun ⟨loc, 1⟩ = s := by
  have hf : s.firstAttachment ⟨loc, 1⟩ = loc := by
    refine Nat.le_antisymm (Nat.not_lt.1 fun hlt => ?_) (Nat.le_add_right _ _)
    exact not_isAttachment_of_lt (Nat.le_refl loc) hlt hc ha
  refine List.ext_getElem? fun i => ?_
  rw [getElem?_trimRun, hf]
  cases s[i]? with
  | none => rfl
  | some d =>
    rw [Option.map_some, if_neg]
    rw [NSRange.max_mk]
    rintro ⟨hle, hlt, hne⟩
    have hle : loc ≤ i := hle
    omega

theorem trimFuel_eq_self (hrn : ReportsRuns effectiveRange) (hm : range.max ≤ s.length)
    (hs : ∀ i c, range.location ≤ i → i < range.max → s[i]? = some c → c.attachment.isSome →
      IsAttachment c ∧ effectiveRange s i = ⟨i, 1⟩) (hloc : range.location ≤ loc) :
    trimFuel effectiveRange fuel s loc range.max = s := by
  induction fuel generalizing loc with
  | zero => rfl
  | succ fuel ih =>
    rw [trimFuel]
    split
    · rename_i hlt
      have hl : loc < s.length := Nat.lt_of_lt_of_le hlt hm
      have haft := hrn.lt_max s loc hl
      have hsm : (if (s.attachmentAt loc).isSome then s.trimRun (effectiveRange s loc) else s) = s := by
        split
        · rename_i ha
          have hc := List.getElem?_eq_getElem hl
          rw [attachmentAt, hc, Option.bind_some] at ha
          obtain ⟨hatt, hr⟩ := hs loc _ hloc hlt hc ha
          rw [hr, trimRun_single hc hatt]
        · rfl
      dsimp only
      rw [hsm, ih (by omega)]
    · rfl

section Whole

variable [DecidableEq S] [DecidableEq A] [DecidableEq O]

/-- The whole text is one run if it has one set of attributes, and otherwise each character is a run. -/
def wholeOrSingle (s : NSMutableAttributedString S A O) (i : Nat) : NSRange :=
  if ∀ c ∈ s, ∀ d ∈ s,
      d.paragraphStyle = c.paragraphStyle ∧ d.attachment = c.attachment ∧ d.others = c.others then
    ⟨0, s.length⟩
  else ⟨i, 1⟩

theorem wholeOrSingle_reportsRuns : ReportsRuns (wholeOrSingle (S := S) (A := A) (O := O)) := by
  refine ⟨fun s i hi => ?_, fun s i hi => ?_, fun s i hi => ?_, fun s i j c d hc hd hle hlt => ?_⟩
  · rw [wholeOrSingle]
    split
    · exact Nat.zero_le i
    · exact Nat.le_refl i
  · rw [wholeOrSingle]
    split
    · rw [NSRange.max_mk, Nat.zero_add]
      exact hi
    · exact Nat.lt_succ_self i
  · rw [wholeOrSingle]
    split
    · rw [NSRange.max_mk, Nat.zero_add]
    · exact hi
  · rw [wholeOrSingle] at hle hlt
    split at hle
    · rename_i hs
      exact hs c (List.mem_of_getElem? hc) d (List.mem_of_getElem? hd)
    · rename_i hdif
      rw [if_neg hdif, NSRange.max_mk] at hlt
      have hij : i ≤ j := hle
      obtain rfl : j = i := by omega
      obtain rfl := Option.some.inj (hc.symm.trans hd)
      exact ⟨rfl, rfl, rfl⟩

end Whole

/-- An attached character that is an attachment character, or a letter. -/
def attached (character : UInt16) : AttributedCharacter Unit Unit Unit := ⟨character, none, some (), ()⟩

end NSMutableAttributedString

end GnustepGui.AttributedString
