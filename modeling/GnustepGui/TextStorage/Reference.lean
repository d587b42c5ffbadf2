import GnustepGui.TextStorage.World

/-!
# One dictionary for each character

The reference keeps a text as a list of characters with their attributes. `setAttributes` overwrites
a range pointwise; `replaceCharacters` splices, and the new characters take the attributes of the
first replaced character, of the preceding one for an insertion, or of the last one at the end. A
text without characters leaves nothing to inherit from, and there the storage's only run decides
(`TextWorld.lastRun`).

`run_refines`: after any calls every live storage has the text of its reference and reports, at
each character, the attributes of the reference.
-/

namespace GnustepGui.TextStorage

open RunMap StateExcept Positions

variable {D : Type} [DecidableEq D]

abbrev RefText (D : Type) := List (UInt16 × D)

namespace RefText

def setAttributes (t : RefText D) (attributes : D) (range : NSRange) : RefText D :=
  if range.max ≤ t.length then
    t.mapIdx fun k c => if range.location ≤ k ∧ k < range.max then (c.1, attributes) else c
  else t

/-- The attributes new characters inherit; `last` serves a text without characters. -/
def inherited (t : RefText D) (range : NSRange) (last : D) : D :=
  let source :=
    if range.location = t.length then t.getLast?
    else if range.length = 0 then t[range.location - 1]?
    else t[range.location]?
  (source.map (·.2)).getD last

def replaceCharacters (t : RefText D) (range : NSRange) (aString : List UInt16) (last : D) :
    RefText D :=
  if range.max ≤ t.length then
    t.take range.location ++ aString.map (fun c => (c, t.inherited range last)) ++
      t.drop range.max
  else t

end RefText

/-- The attributes of the last run of a storage. -/
def TextWorld.lastRun (w : TextWorld D) (n : Nat) : D :=
  ((w.storageAt n).bind fun s => s.infoArray.getLast?).elim w.blank.contents (·.attrs.contents)

abbrev RefWorld (D : Type) := List (Option (RefText D))

/-- `blank` and `last` are what the reference cannot know by itself: the permanent dictionary and
the attributes of an empty text. -/
def RefWorld.perform (r : RefWorld D) (blank : D) (last : Nat → D) : TextCall D → RefWorld D
  | .initWithString aString attributes =>
    r ++ [some ((aString.getD []).map fun c => (c, attributes.getD blank))]
  | .initWithAttributedString source =>
    r ++ [some (source.string.mapIdx fun k c => (c, (source.attributesAtIndex k).1))]
  | .setAttributes n attributes range =>
    r.modify n (Option.map fun t => t.setAttributes (attributes.getD blank) range)
  | .replaceCharacters n range aString =>
    r.modify n (Option.map fun t => t.replaceCharacters range (aString.getD []) (last n))
  | .dealloc n => r.modify n fun _ => none

/-- The reference of a run of calls, started from no storages. -/
def RefWorld.run (w : TextWorld D) (r : RefWorld D) : List (TextCall D) → RefWorld D
  | [] => r
  | call :: calls =>
    RefWorld.run (w.perform call).1 (r.perform w.blank.contents w.lastRun call) calls

/-! ## Simulation -/

/-- The storage has the characters and, in its runs, the attributes of the reference. -/
structure Simulates (s : GSTextStorage D) (t : RefText D) : Prop where
  text : s.textChars = t.map (·.1)
  value : ∀ k (hk : k < t.length), valueAt (runsOf s.infoArray) k = some t[k].2

/-- Slot by slot: both dead, or both live and alike. -/
def SlotSimulates : Option (GSTextStorage D) → Option (RefText D) → Prop
  | some s, some t => Simulates s t
  | none, none => True
  | _, _ => False

def WorldSimulates (w : TextWorld D) (r : RefWorld D) : Prop :=
  List.Forall₂ SlotSimulates w.storages r

section Slots

omit [DecidableEq D]

variable {a b : List (Option (GSTextStorage D))} {s s' : GSTextStorage D} {r : RefWorld D}

theorem simulates_split (h : List.Forall₂ SlotSimulates (a ++ some s :: b) r) :
    ∃ ra t rb, r = ra ++ some t :: rb ∧ ra.length = a.length ∧ Simulates s t ∧
      List.Forall₂ SlotSimulates a ra ∧ List.Forall₂ SlotSimulates b rb := by
  induction a generalizing r with
  | nil =>
    cases h with
    | @cons _ slot _ rb hs hb =>
      cases slot with
      | none => exact hs.elim
      | some t => exact ⟨[], t, rb, rfl, rfl, hs, .nil, hb⟩
  | cons x a ih =>
    cases h with
    | @cons _ y _ rest hx hr =>
      obtain ⟨ra, t, rb, rfl, hl, ht, ha, hb⟩ := ih hr
      exact ⟨y :: ra, t, rb, rfl, by simp [hl], ht, ha.cons hx, hb⟩

theorem simulates_modify (h : List.Forall₂ SlotSimulates (a ++ some s :: b) r)
    {slot : Option (GSTextStorage D)} {g : Option (RefText D) → Option (RefText D)}
    (hg : ∀ t, Simulates s t → SlotSimulates slot (g (some t))) :
    List.Forall₂ SlotSimulates (a ++ slot :: b) (r.modify a.length g) := by
  obtain ⟨ra, t, rb, rfl, hl, hs, ha, hb⟩ := simulates_split h
  rw [← hl, modify_at]
  exact List.rel_append ha (List.Forall₂.cons (hg t hs) hb)

theorem simulates_dead {storages : List (Option (GSTextStorage D))} {n : Nat}
    (h : List.Forall₂ SlotSimulates storages r) (hn : storages[n]?.join = none)
    {g : Option (RefText D) → Option (RefText D)} (hg : g none = none) :
    List.Forall₂ SlotSimulates storages (r.modify n g) := by
  induction h generalizing n with
  | nil => simp
  | @cons slot t rest trest hs ht ih =>
    cases n with
    | zero =>
      obtain rfl : slot = none := by simpa using hn
      obtain rfl : t = none := by
        cases t with
        | none => rfl
        | some t => exact hs.elim
      rw [List.modify_zero_cons, hg]
      exact List.Forall₂.cons trivial ht
    | succ n =>
      rw [List.modify_succ_cons]
      exact List.Forall₂.cons hs (ih (by simpa using hn))

end Slots

section Texts

omit [DecidableEq D]

variable {s : GSTextStorage D} {t : RefText D} {infoArray : List (GSTextInfo D)} {range : NSRange}

theorem Simulates.length_eq (h : Simulates s t) : s.textChars.length = t.length := by
  rw [h.text, List.length_map]

/-- An overwritten range, pointwise. -/
theorem Simulates.setAttributes (h : Simulates s t) (attributes : D)
    (hin : range.length = 0 ∨ range.max ≤ s.textChars.length)
    (hv : ∀ k < s.textChars.length, valueAt (runsOf infoArray) k =
      if range.location ≤ k ∧ k < range.max then some attributes
      else valueAt (runsOf s.infoArray) k) :
    Simulates ⟨s.textChars, infoArray⟩ (t.setAttributes attributes range) := by
  have hl := h.length_eq
  unfold RefText.setAttributes
  by_cases hm : range.max ≤ t.length
  · rw [if_pos hm]
    constructor
    · rw [h.text]
      apply List.ext_getElem (by simp)
      intro k _ _
      simp only [List.getElem_map, List.getElem_mapIdx]
      split <;> rfl
    · intro k hk
      rw [List.length_mapIdx] at hk
      rw [hv k (by omega), List.getElem_mapIdx]
      split
      · rfl
      · exact h.value k hk
  · rw [if_neg hm]
    refine ⟨h.text, fun k hk => ?_⟩
    rw [hv k (by omega), if_neg (by unfold NSRange.max at *; omega)]
    exact h.value k hk

theorem Simulates.splice (h : Simulates s t) (aString : List UInt16) (d : D) (hm : range.max ≤ t.length)
    (hf : ∀ k < range.location, valueAt (runsOf infoArray) k = valueAt (runsOf s.infoArray) k)
    (hn : ∀ k, range.location ≤ k → k < range.location + aString.length → valueAt (runsOf infoArray) k = some d)
    (hb : ∀ k, range.location + aString.length ≤ k → k < t.length + aString.length - range.length →
      valueAt (runsOf infoArray) k = valueAt (runsOf s.infoArray) (k + range.length - aString.length)) :
    Simulates ⟨s.textChars.take range.location ++ aString ++ s.textChars.drop range.max, infoArray⟩
      (t.take range.location ++ aString.map (fun c => (c, d)) ++ t.drop range.max) := by
  constructor
  · simp only [h.text, List.map_append, List.map_take, List.map_drop, List.map_map]
    congr 2
    exact (List.map_id'' (fun _ => rfl) aString).symm
  · have hle : range.location ≤ t.length := by unfold NSRange.max at hm; omega
    have hmx : range.max = range.location + range.length := rfl
    intro k hk
    simp only [List.length_append, List.length_take, List.length_map, List.length_drop] at hk
    simp only
    rcases Nat.lt_or_ge k range.location with h1 | h1
    · rw [hf k h1, h.value k (by omega), List.getElem_append_left (by simp; omega),
        List.getElem_append_left (by simp; omega), List.getElem_take]
    · rcases Nat.lt_or_ge k (range.location + aString.length) with h2 | h2
      · rw [hn k h1 h2, List.getElem_append_left (by simp; omega),
          List.getElem_append_right (by simp; omega), List.getElem_map]
      · rw [hb k h2 (by omega), h.value _ (by omega),
          List.getElem_append_right (by simp; omega), List.getElem_drop]
        simp only [List.length_append, List.length_take, List.length_map, Nat.min_eq_left hle]
        congr 3
        omega

theorem Simulates.inherited_inside (h : Simulates s t) (hl : range.location < t.length) (last : D) :
    valueAt (runsOf s.infoArray) (replacementStart range) = some (t.inherited range last) := by
  have hp : 0 < t.length := by omega
  have hne : range.location ≠ t.length := Nat.ne_of_lt hl
  unfold RefText.inherited replacementStart
  simp only
  rw [if_neg hne]
  split
  · next h1 =>
    rw [if_pos h1.1, h.value _ (by omega), List.getElem?_eq_getElem (by omega)]
    rfl
  · next h1 =>
    split
    · next h2 =>
      have h0 : range.location = 0 := by omega
      simp only [h0, Nat.zero_sub]
      rw [h.value 0 hp, List.getElem?_eq_getElem hp]
      rfl
    · rw [h.value _ hl, List.getElem?_eq_getElem hl]
      rfl

theorem RunInvariant.valueAt_last {pre : List (GSTextInfo D)} {run : GSTextInfo D} {len k : Nat}
    (h : RunInvariant (pre ++ [run]) len) (hk : len ≤ k + 1) :
    valueAt (runsOf (pre ++ [run])) k = some run.attrs.contents := by
  rw [valueAt_snoc]
  by_cases hp : 0 < run.loc
  · have : run.loc < len := h.lt_len (by simp) hp
    rw [if_pos (by omega)]
  · rw [if_pos (by omega)]

theorem Simulates.inherited_append (h : Simulates s t) {pre : List (GSTextInfo D)}
    {run : GSTextInfo D} (hs : s.infoArray = pre ++ [run])
    (hi : RunInvariant s.infoArray s.textChars.length) (hl : range.location = t.length) :
    t.inherited range run.attrs.contents = run.attrs.contents := by
  unfold RefText.inherited
  rw [if_pos hl]
  rcases Nat.eq_zero_or_pos t.length with h0 | hp
  · rw [List.eq_nil_of_length_eq_zero h0]
    rfl
  · have hls := h.value (t.length - 1) (by omega)
    rw [hs] at hi hls
    rw [hi.valueAt_last (by rw [h.length_eq]; omega)] at hls
    rw [List.getLast?_eq_getElem?, List.getElem?_eq_getElem (by omega)]
    simpa using hls.symm

end Texts

/-! ## Steps and runs -/

variable {w : TextWorld D} {r : RefWorld D} {leaks : Multiset (CachedDictionary D)}

omit [DecidableEq D] in
theorem lastRun_at {a b : List (Option (GSTextStorage D))} {s : GSTextStorage D}
    {pre : List (GSTextInfo D)} {run : GSTextInfo D} (hs : w.storages = a ++ some s :: b)
    (hr : s.infoArray = pre ++ [run]) : w.lastRun a.length = run.attrs.contents := by
  unfold TextWorld.lastRun TextWorld.storageAt
  rw [hs, getElem?_at]
  simp [hr]

theorem Performed.simulates (hi : WorldInvariant w leaks) (hsim : WorldSimulates w r)
    {call : TextCall D} {storages : List (Option (GSTextStorage D))}
    {outcome : Option TextException} (h : Performed w call storages outcome) :
    List.Forall₂ SlotSimulates storages (r.perform w.blank.contents w.lastRun call) := by
  unfold WorldSimulates at hsim
  cases h with
  | initWithString aString attributes infoArray value =>
    refine List.rel_append hsim (.cons ⟨?_, fun k hk => ?_⟩ .nil)
    · rw [List.map_map]
      exact (List.map_id'' (fun _ => rfl) _).symm
    · rw [value k, List.getElem_map]
  | initWithAttributedString source infoArray value =>
    refine List.rel_append hsim (.cons ⟨?_, fun k hk => ?_⟩ .nil)
    · apply List.ext_getElem (by simp)
      intro k _ _
      simp
    · rw [List.length_mapIdx] at hk
      rw [value k hk, List.getElem_mapIdx]
  | setAttributes a s b attributes range infoArray slot inRange value =>
    rw [slot] at hsim
    exact simulates_modify hsim fun t ht => ht.setAttributes _ inRange value
  | append a s b range aString slot inRange atEnd =>
    obtain ⟨hrn, -⟩ := hi.run_and_accounts slot
    obtain ⟨pre, run, hr⟩ : ∃ pre run, s.infoArray = pre ++ [run] :=
      ⟨_, _, (List.dropLast_append_getLast hrn.ne_nil).symm⟩
    have hls := lastRun_at slot hr
    rw [slot] at hsim
    refine simulates_modify hsim fun t ht => ?_
    have hl := ht.length_eq
    have hm : range.max ≤ t.length := by omega
    have h0 : range.length = 0 := by unfold NSRange.max at hm; omega
    show Simulates _ (t.replaceCharacters range (aString.getD []) (w.lastRun a.length))
    unfold RefText.replaceCharacters
    rw [if_pos hm, hls, ht.inherited_append hr hrn (by omega)]
    have htx : s.textChars ++ aString.getD [] = s.textChars.take range.location ++
        aString.getD [] ++ s.textChars.drop range.max := by
      rw [List.take_of_length_le (by omega),
        List.drop_eq_nil_of_le (by unfold NSRange.max; omega), List.append_nil]
    rw [htx]
    refine ht.splice _ _ hm (fun k _ => rfl) (fun k h1 _ => ?_) (fun k h1 h2 => by omega)
    rw [hr] at hrn ⊢
    exact hrn.valueAt_last (by omega)
  | replaceCharacters a s b range aString infoArray slot inRange inside value =>
    rw [slot] at hsim
    refine simulates_modify hsim fun t ht => ?_
    have hl := ht.length_eq
    have hm : range.max ≤ t.length := by omega
    have hmx : range.max = range.location + range.length := rfl
    show Simulates _ (t.replaceCharacters range (aString.getD []) (w.lastRun a.length))
    unfold RefText.replaceCharacters
    rw [if_pos hm]
    refine ht.splice _ _ hm (fun k h1 => ?_) (fun k h1 h2 => ?_) fun k h1 h2 => ?_
    · rw [value.2 k (by omega), if_pos h1]
    · rw [value.2 k (by omega), if_neg (by omega), if_pos h2]
      exact ht.inherited_inside (by omega) _
    · rw [value.2 k (by omega), if_neg (by omega), if_neg (by omega)]
  | dealloc a s b slot =>
    rw [slot] at hsim
    exact simulates_modify hsim fun t _ => trivial
  | raised _ outOfRange =>
    cases call with
    | setAttributes n attributes range =>
      obtain ⟨s, hs, hl, hm⟩ := outOfRange
      obtain ⟨a, b, slot, rfl⟩ := TextWorld.storageAt_split hs
      rw [slot] at hsim ⊢
      refine simulates_modify hsim fun t ht => ?_
      rw [ht.length_eq] at hm
      show Simulates s (t.setAttributes _ range)
      unfold RefText.setAttributes
      rwa [if_neg (by omega)]
    | replaceCharacters n range aString =>
      obtain ⟨s, hs, hm⟩ := outOfRange
      obtain ⟨a, b, slot, rfl⟩ := TextWorld.storageAt_split hs
      rw [slot] at hsim ⊢
      refine simulates_modify hsim fun t ht => ?_
      rw [ht.length_eq] at hm
      show Simulates s (t.replaceCharacters range _ _)
      unfold RefText.replaceCharacters
      rwa [if_neg (by omega)]
    | initWithString => exact outOfRange.elim
    | initWithAttributedString => exact outOfRange.elim
    | dealloc => exact outOfRange.elim
  | idle _ n receiver dead =>
    cases call with
    | setAttributes m attributes range =>
      obtain rfl : m = n := by simpa [TextCall.receiver] using receiver
      exact simulates_dead hsim dead rfl
    | replaceCharacters m range aString =>
      obtain rfl : m = n := by simpa [TextCall.receiver] using receiver
      exact simulates_dead hsim dead rfl
    | dealloc m =>
      obtain rfl : m = n := by simpa [TextCall.receiver] using receiver
      exact simulates_dead hsim dead rfl
    | initWithString => simp [TextCall.receiver] at receiver
    | initWithAttributedString => simp [TextCall.receiver] at receiver

theorem run_simulates (calls : List (TextCall D)) :
    ∀ {w : TextWorld D} {r : RefWorld D} {leaks : Multiset (CachedDictionary D)},
      WorldInvariant w leaks → WorldSimulates w r → WorldSimulates (w.run calls) (r.run w calls) := by
  induction calls with
  | nil => exact fun _ hs => hs
  | cons call calls ih =>
    intro w r leaks hi hs
    obtain ⟨hp, hb, hc⟩ := hi.perform call
    have hs' : WorldSimulates (w.perform call).1 (r.perform w.blank.contents w.lastRun call) := hp.simulates hi hs
    rcases hc with ⟨-, hi'⟩ | ⟨-, p, hi'⟩
    · exact ih hi' hs'
    · exact ih hi' hs'

/-- What a storage answers when asked for its text and for the attributes at a character. -/
def Reports (s : GSTextStorage D) (t : RefText D) : Prop :=
  s.textChars = t.map (·.1) ∧ ∀ k (hk : k < t.length), ∃ r,
    attributesAtIndexEffectiveRange k s.textChars.length s.infoArray = .ok r ∧ r.1.contents = t[k].2

omit [DecidableEq D] in
theorem Simulates.reports {s : GSTextStorage D} {t : RefText D} (h : Simulates s t)
    (hi : RunInvariant s.infoArray s.textChars.length) : Reports s t := by
  refine ⟨h.text, fun k hk => ?_⟩
  obtain ⟨pre, run, post, he, hlo, hhi⟩ := hi.split (h.length_eq ▸ hk)
  have hv := h.value k hk
  rw [he] at hi hv ⊢
  refine ⟨_, attributesAtIndexEffectiveRange_eq hi hlo hhi, ?_⟩
  rw [hi.valueAt_of_mem_run hlo hhi] at hv
  exact Option.some.inj hv

end GnustepGui.TextStorage
