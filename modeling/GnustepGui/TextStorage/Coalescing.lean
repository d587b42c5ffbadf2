import GnustepGui.Library.ChangeWindow
import GnustepGui.TextStorage.Editing

/-!
# Merged edits

What is pending encloses every change since the edits were last processed (`Pending`): each edit keeps
this, whether it overlaps, precedes or follows the others, and so do the edits of observers. One
`endEditing`, the outermost, processes what is pending, and the range and the change in length that the
layout managers then get are right as long as the change fits in an `int`
(`coalescesSoundly_iff`).
-/

namespace GnustepGui.TextStorage

open StateExcept

variable {D L : Type} {old : RefText D} {s : NSTextStorage D L}

/-! ## What is pending -/

/-- Outside of the edited range the text is the old one, and nothing is pending without a mask. -/
structure Pending (old : RefText D) (s : NSTextStorage D L) : Prop where
  window : ChangeWindow old s.content s.editedRange.location s.editedRange.max s.editedDelta
  idle : s.editedMask = .none → s.editedRange = ⟨0, 0⟩ ∧ s.editedDelta = 0

theorem Pending.content_eq (h : Pending old s) (hm : s.editedMask = .none) : s.content = old := by
  obtain ⟨hr, hd⟩ := h.idle hm
  have hb := h.window.back
  simpa [hr, hd, NSRange.max] using hb

theorem pending_initial (content : RefText D) (layoutManagers : List L) :
    Pending content (NSTextStorage.initial content layoutManagers) := ⟨ChangeWindow.refl content, fun _ => ⟨rfl, rfl⟩⟩

/-- The state that an edit leaves when it is recorded. -/
def recorded (mask : NSTextStorageEditedOptions) (range : NSRange) (delta : Int) (s : NSTextStorage D L) :
    NSTextStorage D L :=
  let editedRange := if s.editedMask = .none then range else s.editedRange.union range
  { s with
    editedRange := ⟨editedRange.location, (editedRange.length + delta).toNat⟩
    editedDelta := s.editedDelta + delta
    editedMask := s.editedMask.union mask }

theorem recordEdit_eq {mask : NSTextStorageEditedOptions} {range : NSRange} {delta : Int}
    (hm : mask.characters = false → delta = 0) (hr : 0 ≤ (range.length : Int) + delta) :
    recordEdit mask range delta s = .ok () (recorded mask range delta s) := by
  unfold recordEdit recorded
  rw [modify_bind]
  by_cases hc : (mask.characters && delta != 0) = true
  · have hs : ¬ (delta < 0 ∧ (range.length : Int) < (-delta) % 2 ^ 32) := by
      rintro ⟨hn, hlt⟩
      omega
    rw [if_pos hc, if_neg hs]
    rfl
  · have hd : delta = 0 := by
      by_contra hne
      cases hm' : mask.characters with
      | false => exact hne (hm hm')
      | true => simp [hm', hne] at hc
    rw [if_neg hc, pure_run, hd]
    simp only [Int.add_zero, Int.toNat_natCast]

/-- An edit that is recorded extends what is pending. -/
theorem Pending.recorded {mask : NSTextStorageEditedOptions} {range : NSRange} {delta : Int}
    {content : RefText D} (h : Pending old s) (hne : mask ≠ .none) (hr : 0 ≤ (range.length : Int) + delta)
    (he : ChangeWindow s.content content range.location ((range.max : Int) + delta).toNat delta) :
    Pending old (TextStorage.recorded mask range delta { s with content := content }) := by
  have hc : (((range.max : Int) + delta).toNat : Int) - delta = range.max := by
    unfold NSRange.max
    omega
  refine ⟨?_, fun hms => absurd hms ?_⟩
  · by_cases hms : s.editedMask = .none
    · -- nothing was pending: the window of the edit is the whole change
      have hw : ChangeWindow old content range.location ((range.max : Int) + delta).toNat delta := h.content_eq hms ▸ he
      have hm : (⟨range.location, (range.length + delta).toNat⟩ : NSRange).max = ((range.max : Int) + delta).toNat := by
        unfold NSRange.max
        simp only
        omega
      simpa [TextStorage.recorded, hms, (h.idle hms).2, hm] using hw
    · have hw := h.window.trans he hc
      have hm : (⟨(s.editedRange.union range).location,
          ((s.editedRange.union range).length + delta).toNat⟩ : NSRange).max =
          ((max s.editedRange.max range.max : Nat) + delta).toNat := by
        unfold NSRange.union NSRange.max
        simp only
        omega
      simp only [TextStorage.recorded, hms, if_false, hm]
      exact hw
  · cases mask
    simp_all [TextStorage.recorded, NSTextStorageEditedOptions.union, NSTextStorageEditedOptions.none]

/-! ## Edits -/

/-- The text that an edit makes. -/
def TextEdit.content (e : TextEdit D) (t : RefText D) : RefText D :=
  match e with
  | .setAttributes attributes range => t.setAttributes attributes range
  | .replaceCharacters range aString last => t.replaceCharacters range aString last

def TextEdit.range : TextEdit D → NSRange
  | .setAttributes _ range => range
  | .replaceCharacters range _ _ => range

def TextEdit.delta : TextEdit D → Int
  | .setAttributes _ _ => 0
  | .replaceCharacters range aString _ => (aString.length : Int) - range.length

def TextEdit.mask : TextEdit D → NSTextStorageEditedOptions
  | .setAttributes _ _ => .editedAttributes
  | .replaceCharacters _ _ _ => .editedCharacters

/-- An edit that is made: its range is in the text, and attributes are set on a character at least. -/
def TextEdit.Made (t : RefText D) : TextEdit D → Prop
  | .setAttributes _ range => range.length ≠ 0 ∧ range.max ≤ t.length
  | .replaceCharacters range _ _ => range.max ≤ t.length

instance (t : RefText D) (e : TextEdit D) : Decidable (e.Made t) := by
  cases e <;> unfold TextEdit.Made <;> infer_instance

theorem TextEdit.delta_nonneg (e : TextEdit D) : 0 ≤ (e.range.length : Int) + e.delta := by
  cases e with
  | setAttributes attributes range =>
    simp only [TextEdit.range, TextEdit.delta]
    omega
  | replaceCharacters range aString last =>
    simp only [TextEdit.range, TextEdit.delta]
    omega

/-- An edit changes nothing outside of its range. -/
theorem TextEdit.changeWindow {e : TextEdit D} {t : RefText D} (h : e.Made t) :
    ChangeWindow t (e.content t) e.range.location ((e.range.max : Int) + e.delta).toNat e.delta := by
  cases e with
  | setAttributes attributes range =>
    obtain ⟨-, hm⟩ := h
    have hl : (t.setAttributes attributes range).length = t.length := by
      unfold RefText.setAttributes
      split <;> simp
    simp only [TextEdit.content, TextEdit.range, TextEdit.delta, Int.add_zero, Int.toNat_natCast]
    refine ⟨hl ▸ hm, by omega, by omega, ?_, ?_⟩
    · refine List.ext_getElem? fun k => ?_
      simp only [RefText.setAttributes, if_pos hm, List.getElem?_take, List.getElem?_mapIdx]
      split
      · have ho : ¬ (range.location ≤ k ∧ k < range.max) := by omega
        simp [ho]
      · rfl
    · refine List.ext_getElem? fun k => ?_
      simp [RefText.setAttributes, if_pos hm, List.getElem?_drop]
  | replaceCharacters range aString last =>
    have hm : range.max ≤ t.length := h
    have hle : range.location ≤ range.max := Nat.le_add_right _ _
    have hw := ChangeWindow.splice (aString.map fun c => (c, t.inherited range last)) hle hm
    have hs : range.location + (aString.map fun c => (c, t.inherited range last)).length =
        ((range.max : Int) + ((aString.length : Int) - range.length)).toNat := by
      rw [List.length_map]
      unfold NSRange.max
      omega
    have hd : ((aString.map fun c => (c, t.inherited range last)).length : Int) -
        (range.max - range.location : Nat) = (aString.length : Int) - range.length := by
      rw [List.length_map]
      unfold NSRange.max
      omega
    rw [hs, hd] at hw
    simpa [TextEdit.content, TextEdit.range, TextEdit.delta, RefText.replaceCharacters, if_pos hm]
      using hw

theorem performEdit_eq (edited : NSTextStorageEditedOptions → NSRange → Int → EditM D L Unit) (e : TextEdit D)
    (s : NSTextStorage D L) :
    (e.Made s.content ∧
      performEdit edited e s = edited e.mask e.range e.delta { s with content := e.content s.content }) ∨
    (¬ e.Made s.content ∧ stateOf (performEdit edited e s) = s) := by
  cases e with
  | setAttributes attributes range =>
    by_cases hz : range.length = 0
    · right
      simp only [performEdit, hz, if_true]
      exact ⟨fun h => h.1 hz, rfl⟩
    simp only [performEdit, hz, if_false, get_bind]
    by_cases hm : range.max ≤ s.content.length
    · left
      rw [if_pos hm, modify_bind]
      exact ⟨⟨hz, hm⟩, rfl⟩
    · right
      rw [if_neg hm]
      exact ⟨fun h => hm h.2, rfl⟩
  | replaceCharacters range aString last =>
    simp only [performEdit, get_bind]
    by_cases hm : range.max ≤ s.content.length
    · left
      rw [if_pos hm, modify_bind]
      exact ⟨hm, rfl⟩
    · right
      rw [if_neg hm]
      exact ⟨fun h => hm h, rfl⟩

theorem recordEdit_edit (e : TextEdit D) (s : NSTextStorage D L) :
    recordEdit e.mask e.range e.delta s = .ok () (recorded e.mask e.range e.delta s) := by
  refine recordEdit_eq ?_ e.delta_nonneg
  cases e with
  | setAttributes => exact fun _ => rfl
  | replaceCharacters => exact fun h => nomatch h

theorem TextEdit.mask_ne_none (e : TextEdit D) : e.mask ≠ .none := by
  cases e <;> exact nofun

/-! ## Processing -/

/-- What observers leave alone: the edit count, the layout managers and what has been processed. -/
structure Frames (s s' : NSTextStorage D L) : Prop where
  editCount : s'.editCount = s.editCount
  layoutManagers : s'.layoutManagers = s.layoutManagers
  processings : s'.processings = s.processings

theorem react_keeps (edits : List (TextEdit D)) (h : Pending old s) :
    Pending old (react edits s) ∧ Frames s (react edits s) := by
  induction edits generalizing s with
  | nil => exact ⟨h, rfl, rfl, rfl⟩
  | cons e edits ih =>
    show Pending old (react edits (stateOf (performEdit recordEdit e s))) ∧
      Frames s (react edits (stateOf (performEdit recordEdit e s)))
    rcases performEdit_eq recordEdit e s with ⟨hmd, hp⟩ | ⟨-, hp⟩
    · rw [hp, recordEdit_edit]
      obtain ⟨hpn, hc, hm, hpc⟩ := ih (h.recorded e.mask_ne_none e.delta_nonneg (TextEdit.changeWindow hmd))
      exact ⟨hpn, hc, hm, hpc⟩
    · rw [hp]
      exact ih h

/-- What a processing leaves: it told of every change since the last one, and nothing is pending. -/
structure Processed (old : RefText D) (s s' : NSTextStorage D L) (p : Processing D L) (delta : Int) : Prop where
  processings : s'.processings = s.processings ++ [p]
  window : ChangeWindow old p.content p.invalidatedRange.location p.invalidatedRange.max delta
  changeInLength : p.changeInLength = toInt delta
  told : p.layoutManagers = s.layoutManagers
  content : s'.content = p.content
  editCount : s'.editCount = s.editCount
  editedMask : s'.editedMask = .none
  pending : Pending p.content s'

theorem processEditing_processed (observers : Observers D L) (h : Pending old s) :
    ∃ p delta, Processed old s (processEditing observers s) p delta := by
  let s₁ := { s with editCount := s.editCount + 1 }
  let s₂ := react (observers.willProcessEditing s₁) s₁
  let r : NSRange := if s₂.content.length < s₂.editedRange.max then
      ⟨s₂.editedRange.location, s₂.content.length - s₂.editedRange.location⟩
    else s₂.editedRange
  let s₃ := react (observers.fixAttributes s₂ r) s₂
  let s₄ := react (observers.didProcessEditing s₃) s₃
  have h₁ : Pending old s₁ := ⟨h.window, h.idle⟩
  obtain ⟨h₂, f₂⟩ := react_keeps (observers.willProcessEditing s₁) h₁
  obtain ⟨h₃, f₃⟩ := react_keeps (observers.fixAttributes s₂ r) h₂
  obtain ⟨h₄, f₄⟩ := react_keeps (observers.didProcessEditing s₃) h₃
  have hc : s₄.editCount = s.editCount + 1 := f₄.editCount.trans (f₃.editCount.trans f₂.editCount)
  have hm : s₄.layoutManagers = s.layoutManagers := f₄.layoutManagers.trans (f₃.layoutManagers.trans f₂.layoutManagers)
  have hp : s₄.processings = s.processings := f₄.processings.trans (f₃.processings.trans f₂.processings)
  refine ⟨_, s₄.editedDelta, congrArg (· ++ [_]) hp, h₄.window, rfl, hm, rfl, ?_, rfl,
    ⟨ChangeWindow.refl _, fun _ => ⟨rfl, rfl⟩⟩⟩
  show s₄.editCount - 1 = s.editCount
  rw [hc, Nat.add_sub_cancel]

/-! ## Calls -/

section Calls

variable [DecidableEq L] {observers : Observers D L}

/-- The calls that process the edits: the outermost `endEditing`, and an edit outside of any pair. -/
def Processes (s : NSTextStorage D L) : EditingCall D L → Prop
  | .endEditing => s.editCount = 1
  | .edit e => s.editCount = 0 ∧ e.Made s.content
  | _ => False

omit [DecidableEq L] in
theorem edited_edit (e : TextEdit D) :
    edited observers e.mask e.range e.delta s =
      .ok () (if s.editCount = 0 then processEditing observers (recorded e.mask e.range e.delta s)
        else recorded e.mask e.range e.delta s) := by
  unfold edited
  rw [bind_ok (recordEdit_edit e s)]
  rfl

theorem call_endEditing (h : s.editCount ≠ 0) :
    s.call observers .endEditing =
      if s.editCount - 1 = 0 then processEditing observers { s with editCount := s.editCount - 1 }
      else { s with editCount := s.editCount - 1 } := by
  simp only [NSTextStorage.call, endEditing, get_bind, if_neg h]
  rfl

theorem call_edit {e : TextEdit D} (h : e.Made s.content) :
    s.call observers (.edit e) =
      if s.editCount = 0 then
        processEditing observers (recorded e.mask e.range e.delta { s with content := e.content s.content })
      else recorded e.mask e.range e.delta { s with content := e.content s.content } := by
  rcases performEdit_eq (edited observers) e s with ⟨-, hp⟩ | ⟨hm, -⟩
  · simp only [NSTextStorage.call, hp, edited_edit]
    rfl
  · exact absurd h hm

theorem call_edit_of_not_made {e : TextEdit D} (h : ¬ e.Made s.content) : s.call observers (.edit e) = s := by
  rcases performEdit_eq (edited observers) e s with ⟨hm, -⟩ | ⟨-, hp⟩
  · exact absurd hm h
  · exact hp

/-- Outside of any pair nothing is pending. -/
def Settled (s : NSTextStorage D L) : Prop := s.editCount = 0 → s.editedMask = .none

variable (observers) in
/-- A call that processes the edits does so once, and any other call leaves them pending. -/
theorem call_cases (h : Pending old s) (hs : Settled s) (call : EditingCall D L) :
    (Processes s call ∧ ∃ p delta s₀, s₀.processings = s.processings ∧ s₀.layoutManagers = s.layoutManagers ∧
      Processed old s₀ (s.call observers call) p delta) ∨
    (¬ Processes s call ∧ (s.call observers call).processings = s.processings ∧
      Pending old (s.call observers call) ∧ Settled (s.call observers call)) := by
  cases call with
  | beginEditing => exact .inr ⟨id, rfl, ⟨h.window, h.idle⟩, fun hz => absurd hz (Nat.succ_ne_zero _)⟩
  | endEditing =>
    by_cases hz : s.editCount = 0
    · have hcl : s.call observers .endEditing = s := by
        simp only [NSTextStorage.call, endEditing, get_bind, if_pos hz]
        rfl
      rw [hcl]
      refine .inr ⟨fun ho : s.editCount = 1 => ?_, rfl, h, hs⟩
      omega
    by_cases ho : s.editCount = 1
    · rw [call_endEditing hz, if_pos (by omega)]
      obtain ⟨p, delta, hp⟩ := processEditing_processed observers (s := { s with editCount := s.editCount - 1 })
        ⟨h.window, h.idle⟩
      exact .inl ⟨ho, p, delta, { s with editCount := s.editCount - 1 }, rfl, rfl, hp⟩
    · rw [call_endEditing hz, if_neg (by omega)]
      refine .inr ⟨ho, rfl, ⟨h.window, h.idle⟩, fun hc : s.editCount - 1 = 0 => ?_⟩
      omega
  | edit e =>
    by_cases hm : e.Made s.content
    · have hr := h.recorded e.mask_ne_none e.delta_nonneg (TextEdit.changeWindow hm)
      rw [call_edit hm]
      by_cases hz : s.editCount = 0
      · rw [if_pos hz]
        obtain ⟨p, delta, hp⟩ := processEditing_processed observers hr
        exact .inl ⟨⟨hz, hm⟩, p, delta,
          recorded e.mask e.range e.delta { s with content := e.content s.content }, rfl, rfl, hp⟩
      · rw [if_neg hz]
        exact .inr ⟨fun hp => hz hp.1, rfl, hr, fun hc => absurd hc hz⟩
    · rw [call_edit_of_not_made hm]
      exact .inr ⟨fun hp => hm hp.2, rfl, h, hs⟩
  | addLayoutManager obj =>
    have hcl : s.call observers (.addLayoutManager obj) =
        if obj ∈ s.layoutManagers then s else { s with layoutManagers := s.layoutManagers ++ [obj] } := rfl
    rw [hcl]
    split
    · exact .inr ⟨id, rfl, h, hs⟩
    · exact .inr ⟨id, rfl, ⟨h.window, h.idle⟩, hs⟩
  | removeLayoutManager obj => exact .inr ⟨id, rfl, ⟨h.window, h.idle⟩, hs⟩

end Calls

/-! ## Runs -/

/-- `R` holds of each processing and the text of the one before it, the first time `content`. -/
def Along (R : RefText D → Processing D L → Prop) : RefText D → List (Processing D L) → Prop
  | _, [] => True
  | content, p :: ps => R content p ∧ Along R p.content ps

/-- The text as it was last processed. -/
def lastContent (content : RefText D) (ps : List (Processing D L)) : RefText D :=
  ps.foldl (fun _ p => p.content) content

theorem along_concat {R : RefText D → Processing D L → Prop} {content : RefText D}
    {ps : List (Processing D L)} {p : Processing D L} :
    Along R content (ps ++ [p]) ↔ Along R content ps ∧ R (lastContent content ps) p := by
  induction ps generalizing content with
  | nil => simp [Along, lastContent]
  | cons q ps ih =>
    rw [List.cons_append, Along, Along, ih, and_assoc]
    rfl

theorem along_congr {R S T : RefText D → Processing D L → Prop}
    (h : ∀ content p, T content p → (R content p ↔ S content p)) {content : RefText D}
    {ps : List (Processing D L)} (hT : Along T content ps) : Along R content ps ↔ Along S content ps := by
  induction ps generalizing content with
  | nil => exact Iff.rfl
  | cons p ps ih => rw [Along, Along, h content p hT.1, ih hT.2]

/-- The layout managers are told right: outside of the range the text is the old one, and after it the
characters are moved by the change in length. -/
def Processing.Sound (old : RefText D) (p : Processing D L) : Prop :=
  ChangeWindow old p.content p.invalidatedRange.location p.invalidatedRange.max p.changeInLength

/-- The change in length is an `int`. -/
def Processing.Small (old : RefText D) (p : Processing D L) : Prop :=
  -2 ^ 31 ≤ (p.content.length : Int) - old.length ∧ (p.content.length : Int) - old.length < 2 ^ 31

/-- The range is right, and so is the change in length but for the conversion to `int`. -/
def Processing.Narrowed (old : RefText D) (p : Processing D L) : Prop :=
  ∃ delta, ChangeWindow old p.content p.invalidatedRange.location p.invalidatedRange.max delta ∧
    p.changeInLength = toInt delta

theorem toInt_eq_iff {n : Int} : toInt n = n ↔ -2 ^ 31 ≤ n ∧ n < 2 ^ 31 := by
  unfold toInt
  rw [Int.bmod_def]
  split <;> omega

theorem sound_iff_small {p : Processing D L} (h : p.Narrowed old) : p.Sound old ↔ p.Small old := by
  obtain ⟨delta, hw, hc⟩ := h
  have hd := hw.delta_eq
  unfold Processing.Small
  rw [← hd, ← toInt_eq_iff]
  constructor
  · intro hs
    rw [← hc, hs.delta_eq, hd]
  · intro hint
    unfold Processing.Sound
    rw [hc, hint]
    exact hw

section Runs

variable [DecidableEq L] (observers : Observers D L) (content : RefText D) (layoutManagers : List L)

/-- The storage after some calls. -/
def after (calls : List (EditingCall D L)) : NSTextStorage D L :=
  (NSTextStorage.initial content layoutManagers).calls observers calls

theorem after_concat (calls : List (EditingCall D L)) (call : EditingCall D L) :
    after observers content layoutManagers (calls ++ [call]) =
      (after observers content layoutManagers calls).call observers call := List.foldl_concat ..

/-- What holds after any calls. -/
structure EditingInvariant (s : NSTextStorage D L) : Prop where
  pending : Pending (lastContent content s.processings) s
  settled : Settled s
  narrowed : Along Processing.Narrowed content s.processings

theorem after_invariant (calls : List (EditingCall D L)) :
    EditingInvariant content (after observers content layoutManagers calls) := by
  induction calls using List.reverseRecOn with
  | nil => exact ⟨pending_initial content layoutManagers, fun _ => rfl, trivial⟩
  | append_singleton calls call ih =>
    rw [after_concat]
    rcases call_cases observers ih.pending ih.settled call with
      ⟨-, p, delta, s₀, hpr, -, hp⟩ | ⟨-, hpr, hpn, hs⟩
    · have hn : ((after observers content layoutManagers calls).call observers call).processings =
          (after observers content layoutManagers calls).processings ++ [p] := by
        rw [hp.processings, hpr]
      refine ⟨?_, fun _ => hp.editedMask, ?_⟩
      · rw [hn]
        simpa [lastContent] using hp.pending
      · rw [hn, along_concat]
        exact ⟨ih.narrowed, delta, hp.window, hp.changeInLength⟩
    · exact ⟨hpr ▸ hpn, hs, hpr ▸ ih.narrowed⟩

theorem along_sound_iff (calls : List (EditingCall D L)) :
    Along Processing.Sound content (after observers content layoutManagers calls).processings ↔
      Along Processing.Small content (after observers content layoutManagers calls).processings :=
  along_congr (fun _ _ => sound_iff_small) (after_invariant observers content layoutManagers calls).narrowed

/-- The calls that process edits do so once and tell every layout manager what is right, with the text as it is then;
no other call processes anything, and nothing is left pending outside of the pairs. -/
structure CoalescesSoundly (calls : List (EditingCall D L)) : Prop where
  once : ∀ before call, before ++ [call] <+: calls →
    Processes (after observers content layoutManagers before) call →
    ∃ p, (after observers content layoutManagers (before ++ [call])).processings =
        (after observers content layoutManagers before).processings ++ [p] ∧
      p.layoutManagers = (after observers content layoutManagers before).layoutManagers ∧
      p.content = (after observers content layoutManagers (before ++ [call])).content
  never : ∀ before call, before ++ [call] <+: calls →
    ¬ Processes (after observers content layoutManagers before) call →
    (after observers content layoutManagers (before ++ [call])).processings =
      (after observers content layoutManagers before).processings
  settled : Settled (after observers content layoutManagers calls)
  sound : Along Processing.Sound content (after observers content layoutManagers calls).processings

/-- Edits are merged soundly exactly as long as each processed change in length is an `int`. -/
theorem coalescesSoundly_iff (calls : List (EditingCall D L)) :
    CoalescesSoundly observers content layoutManagers calls ↔
      Along Processing.Small content (after observers content layoutManagers calls).processings := by
  have hi := after_invariant observers content layoutManagers calls
  rw [← along_sound_iff]
  constructor
  · exact fun h => h.sound
  · intro hs
    refine ⟨fun before call _ hpr => ?_, fun before call _ hpr => ?_, hi.settled, hs⟩
    · have hb := after_invariant observers content layoutManagers before
      rw [after_concat]
      rcases call_cases observers hb.pending hb.settled call with
        ⟨-, p, delta, s₀, hpc, hm, hp⟩ | ⟨hn, -⟩
      · exact ⟨p, hpc ▸ hp.processings, hp.told.trans hm, hp.content.symm⟩
      · exact absurd hpr hn
    · have hb := after_invariant observers content layoutManagers before
      rw [after_concat]
      rcases call_cases observers hb.pending hb.settled call with
        ⟨hy, -⟩ | ⟨-, hpc, -⟩
      · exact absurd hy hpr
      · exact hpc

end Runs

/-- Observers that do not edit. -/
def quiet : Observers D L where
  willProcessEditing _ := []
  fixAttributes _ _ := []
  didProcessEditing _ := []

/-- One insertion into an empty text, between `beginEditing` and `endEditing`. -/
def insertion (aString : List UInt16) : List (EditingCall Unit Unit) :=
  [.beginEditing, .edit (.replaceCharacters ⟨0, 0⟩ aString ()), .endEditing]

theorem insertion_processed (aString : List UInt16) :
    ∃ p, (after quiet [] [()] (insertion aString)).processings = [p] ∧ p.content.length = aString.length := by
  let s₁ : NSTextStorage Unit Unit := (NSTextStorage.initial [] [()]).call quiet .beginEditing
  let e : TextEdit Unit := .replaceCharacters ⟨0, 0⟩ aString ()
  have hm : e.Made s₁.content := Nat.le_refl 0
  let s₂ := recorded e.mask e.range e.delta { s₁ with content := e.content s₁.content }
  have hed : s₁.call quiet (.edit e) = s₂ := call_edit hm
  have ha : after quiet [] [()] (insertion aString) = s₂.call quiet .endEditing := by
    rw [← hed]
    rfl
  have he : s₂.call quiet .endEditing = processEditing quiet { s₂ with editCount := 0 } :=
    call_endEditing (by exact Nat.one_ne_zero)
  rw [ha, he]
  refine ⟨_, rfl, ?_⟩
  show (e.content s₁.content).length = aString.length
  simp [e, s₁, TextEdit.content, RefText.replaceCharacters, NSTextStorage.call, NSTextStorage.initial,
    beginEditing, modify_run, stateOf, NSRange.max]

theorem not_coalescesSoundly_of_length {aString : List UInt16} (hl : 2 ^ 31 ≤ (aString.length : Int)) :
    ¬ CoalescesSoundly quiet [] [()] (insertion aString) := by
  intro h
  obtain ⟨p, hp, hc⟩ := insertion_processed aString
  have hs := (along_sound_iff _ _ _ _).1 h.sound
  rw [hp] at hs
  obtain ⟨⟨-, hlt⟩, -⟩ := hs
  rw [hc, List.length_nil] at hlt
  omega

/-- An insertion of 2³¹ characters is told as a change in length of -2³¹. -/
theorem not_coalescesSoundly_long :
    ¬ CoalescesSoundly quiet [] [()] (insertion (List.replicate (2 ^ 31) 0)) :=
  not_coalescesSoundly_of_length (by rw [List.length_replicate]; norm_num)

end GnustepGui.TextStorage
