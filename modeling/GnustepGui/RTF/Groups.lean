import GnustepGui.RTF.Grammar

/-!
# The groups of the RTF consumer

`pending` are the blocks on the stack that have been opened, and `Does` is what a step of the parser does
to them and to the consumer. Every state of a run is `Sound` (`run_sound`).

`Over` says of a later state within a block that only the innermost attributes are different, apart from
those pushed since.
-/

namespace GnustepGui.RTF

open ShiftReduce

abbrev ParserEvent := Event Symbol RTFConsumer

abbrev ParserConfig := Config Symbol RTFConsumer

def Symbol.opens : Symbol → Option Bool
  | opened ignore => some ignore
  | _ => none

/-- The open blocks of a stack, the innermost first, and whether each is an ignored one. -/
def pending (stack : List Symbol) : List Bool :=
  stack.filterMap Symbol.opens

/-- Recovery drops an open block. -/
def Loses (event : ParserEvent) : Prop :=
  ∃ dropped, event = .recover dropped ∧ pending dropped ≠ []

/-- What an event does to the innermost attributes and the tables, apart from opening and closing. -/
def command (event : ParserEvent) (c : RTFConsumer) : RTFConsumer :=
  match event with
  | .reduce rhs lhs action => if pending (lhs :: rhs) = [] then (action c).getD c else c
  | _ => c

def commands (events : List ParserEvent) (c : RTFConsumer) : RTFConsumer :=
  events.foldl (fun c event => command event c) c

/-! ## The consumer -/

namespace RTFConsumer

variable {c d e : RTFConsumer} {ignore : Bool}

structure Sound (c : RTFConsumer) : Prop where
  attrs : c.attrs ≠ []
  ignore : 0 ≤ c.ignore

/-- Only the innermost attributes and the tables are different. -/
structure Keeps (c d : RTFConsumer) : Prop where
  ignore : d.ignore = c.ignore
  attrs : ∃ attr, d.attrs = attr :: c.attrs.tail

/-- The second state has something in place of the innermost attributes of the first. -/
structure Over (c d : RTFConsumer) : Prop where
  ignore : c.ignore ≤ d.ignore
  attrs : ∃ l, l ≠ [] ∧ d.attrs = l ++ c.attrs.tail ∧ (c.ignore ≠ 0 → l.length = 1)

theorem Sound.over_self (hc : c.Sound) : c.Over c := by
  obtain ⟨attr, rest, ha⟩ := List.exists_cons_of_ne_nil hc.attrs
  refine ⟨le_rfl, [attr], List.cons_ne_nil _ _, ?_, fun _ => rfl⟩
  rw [ha]
  rfl

theorem Keeps.over (h : c.Keeps d) : c.Over d := by
  obtain ⟨attr, ha⟩ := h.attrs
  exact ⟨h.ignore.ge, [attr], List.cons_ne_nil _ _, ha, fun _ => rfl⟩

theorem Over.sound (h : c.Over d) (hc : c.Sound) : d.Sound := by
  obtain ⟨l, hl, ha, -⟩ := h.attrs
  refine ⟨?_, hc.ignore.trans h.ignore⟩
  rw [ha]
  exact List.append_ne_nil_of_left_ne_nil hl _

theorem Over.trans (h : c.Over d) (h' : d.Over e) (hc : c.Sound) : c.Over e := by
  obtain ⟨l, hl, hd, hlen⟩ := h.attrs
  obtain ⟨l', hl', he, hlen'⟩ := h'.attrs
  rw [hd, List.tail_append_of_ne_nil hl, ← List.append_assoc] at he
  refine ⟨h.ignore.trans h'.ignore, l' ++ l.tail, List.append_ne_nil_of_left_ne_nil hl' _, he, fun hne => ?_⟩
  have hp : d.ignore ≠ 0 := by
    have := hc.ignore
    have := h.ignore
    omega
  rw [List.length_append, hlen' hp, List.length_tail, hlen hne]

/-! ### Opening and closing -/

theorem openBlock_ignore (ignore : Bool) (c : RTFConsumer) :
    (c.GSRTFopenBlock ignore).ignore = c.ignore + ignore.toNat := by
  unfold GSRTFopenBlock push
  cases ignore <;> by_cases h : c.ignore = 0 <;> simp [h]

theorem openBlock_attrs (ignore : Bool) (c : RTFConsumer) :
    (c.GSRTFopenBlock ignore).attrs = if c.ignore = 0 then c.attrs.head?.toList ++ c.attrs else c.attrs := by
  unfold GSRTFopenBlock push
  cases ignore <;> by_cases h : c.ignore = 0 <;> simp [h]

theorem closeBlock_ignore (ignore : Bool) (c : RTFConsumer) :
    (c.GSRTFcloseBlock ignore).ignore = c.ignore - ignore.toNat := by
  unfold GSRTFcloseBlock pop
  cases ignore with
  | false => by_cases h : c.ignore = 0 <;> simp [h]
  | true => by_cases h : c.ignore - 1 = 0 <;> simp [h]

theorem closeBlock_attrs (ignore : Bool) (c : RTFConsumer) :
    (c.GSRTFcloseBlock ignore).attrs = if c.ignore - ignore.toNat = 0 then c.attrs.tail else c.attrs := by
  unfold GSRTFcloseBlock pop
  cases ignore with
  | false => by_cases h : c.ignore = 0 <;> simp [h]
  | true => by_cases h : c.ignore - 1 = 0 <;> simp [h]

theorem openBlock_tail (hc : c.Sound) (ignore : Bool) :
    (c.GSRTFopenBlock ignore).attrs.tail = if c.ignore = 0 then c.attrs else c.attrs.tail := by
  obtain ⟨attr, rest, ha⟩ := List.exists_cons_of_ne_nil hc.attrs
  rw [openBlock_attrs]
  split
  · rw [ha]
    rfl
  · rfl

theorem Sound.over_openBlock (hc : c.Sound) (ignore : Bool) : c.Over (c.GSRTFopenBlock ignore) := by
  obtain ⟨attr, rest, ha⟩ := List.exists_cons_of_ne_nil hc.attrs
  refine ⟨?_, ?_⟩
  · rw [openBlock_ignore]
    omega
  · rw [openBlock_attrs, ha]
    by_cases h : c.ignore = 0
    · rw [if_pos h]
      exact ⟨[attr, attr], List.cons_ne_nil _ _, rfl, fun hne => absurd h hne⟩
    · rw [if_neg h]
      exact ⟨[attr], List.cons_ne_nil _ _, rfl, fun _ => rfl⟩

/-- A block that is closed leaves behind what was there when it was opened, or more. -/
theorem Over.closeBlock (h : (c.GSRTFopenBlock ignore).Over d) (hc : c.Sound) : c.Over (d.GSRTFcloseBlock ignore) := by
  obtain ⟨l, hl, ha, hlen⟩ := h.attrs
  have hi := h.ignore
  have hp := hc.ignore
  rw [openBlock_ignore] at hi hlen
  rw [openBlock_tail hc] at ha
  refine ⟨?_, ?_⟩
  · rw [closeBlock_ignore]
    omega
  · rw [closeBlock_attrs]
    by_cases h0 : c.ignore = 0
    · -- the attributes before the block are below those pushed for it
      obtain ⟨attr, rest, hcn⟩ := List.exists_cons_of_ne_nil hc.attrs
      rw [if_pos h0, hcn] at ha
      rw [ha, hcn, List.tail_append_of_ne_nil hl]
      split
      · refine ⟨l.tail ++ [attr], List.append_ne_nil_of_right_ne_nil _ (List.cons_ne_nil _ _), ?_,
          fun hne => absurd h0 hne⟩
        rw [List.append_assoc]
        rfl
      · refine ⟨l ++ [attr], List.append_ne_nil_of_left_ne_nil hl _, ?_, fun hne => absurd h0 hne⟩
        rw [List.append_assoc]
        rfl
    · rw [if_neg h0] at ha
      rw [if_neg (by omega), ha]
      exact ⟨l, hl, rfl, fun _ => hlen (by omega)⟩

/-! ### Statements -/

theorem Sound.keeps_self (hc : c.Sound) : c.Keeps c := by
  obtain ⟨attr, rest, ha⟩ := List.exists_cons_of_ne_nil hc.attrs
  refine ⟨rfl, attr, ?_⟩
  rw [ha]
  rfl

theorem Sound.keeps_modifyAttr (hc : c.Sound) (f : RTFAttribute → RTFAttribute) : c.Keeps (c.modifyAttr f) := by
  obtain ⟨attr, rest, ha⟩ := List.exists_cons_of_ne_nil hc.attrs
  refine ⟨rfl, f attr, ?_⟩
  unfold modifyAttr
  rw [ha]
  rfl

theorem Sound.keeps_perform (hc : c.Sound) {userFont : List Nat} {s : Statement}
    (h : c.perform userFont s = some d) : c.Keeps d := by
  cases s with
  | font parameter =>
    obtain ⟨fontName, -, rfl⟩ := Option.map_eq_some_iff.mp h
    exact hc.keeps_modifyAttr _
  | tabstop parameter =>
    obtain rfl := Option.some.inj h
    split
    · exact hc.keeps_modifyAttr _
    · exact hc.keeps_self
  | spaceAbove parameter =>
    obtain rfl := Option.some.inj h
    split
    · exact hc.keeps_modifyAttr _
    · exact hc.keeps_self
  | _ =>
    obtain rfl := Option.some.inj h
    first
      | exact hc.keeps_modifyAttr _
      | exact hc.keeps_self

theorem perform_ignore (userFont : List Nat) (c : RTFConsumer) (s : Statement) (ignore : Int) :
    ({ c with ignore := ignore }).perform userFont s =
      (c.perform userFont s).map fun d => { d with ignore := ignore } := by
  cases s with
  | font parameter =>
    unfold perform GSRTFfontNumber
    rw [Option.map_map]
    rfl
  | tabstop parameter =>
    by_cases h : 0 ≤ twips2points (parameter.getD 0)
    · simp only [perform, if_pos h]
      rfl
    · simp only [perform, if_neg h]
      rfl
  | spaceAbove parameter =>
    by_cases h : 0 ≤ twips2points (parameter.getD 0)
    · simp only [perform, if_pos h]
      rfl
    · simp only [perform, if_neg h]
      rfl
  | _ => rfl

end RTFConsumer

/-! ## Steps -/

open RTFConsumer

theorem pending_append (l l' : List Symbol) : pending (l ++ l') = pending l ++ pending l' := List.filterMap_append

theorem pending_reverse (l : List Symbol) : pending l.reverse = (pending l).reverse := List.filterMap_reverse

variable {lhs : NonTerminal} {rhs : List Symbol}

theorem command_reduce (h : pending rhs = []) (action : RTFConsumer → Option RTFConsumer) (c : RTFConsumer) :
    command (.reduce rhs (.n lhs) action) c = (action c).getD c := if_pos h

theorem Plain.pending_eq_nil (h : Plain rhs lhs) : pending rhs = [] := by
  cases h with
  | ingredient h =>
    simp only [ingredientSymbols, List.mem_cons, List.not_mem_nil, or_false] at h
    obtain rfl | rfl | rfl | rfl | rfl | rfl := h <;> rfl
  | _ => rfl

variable {userFont : List Nat}

theorem Command.pending_eq_nil
    {action : RTFConsumer → Option RTFConsumer} (h : Command userFont rhs lhs action) : pending rhs = [] := by
  cases h <;> rfl

theorem Closing.pending_eq_nil {front rest : List Symbol} {ignore : Bool}
    (h : Closing front ignore rest lhs) : pending front = [] ∧ pending rest = [] := by
  cases h <;> exact ⟨rfl, rfl⟩

theorem Command.action_eq
    {action : RTFConsumer → Option RTFConsumer} (h : Command userFont rhs lhs action) {c d : RTFConsumer}
    (hc : c.Sound) (hd : action c = some d) :
    c.Keeps d ∧ ∀ ignore, action { c with ignore := ignore } = some { d with ignore := ignore } := by
  have hr {bytes : List Nat} {number : Int} (h : c.GSRTFregisterFont bytes number = some d) :
      c.Keeps d ∧ ∀ ignore, ({ c with ignore := ignore }).GSRTFregisterFont bytes number =
        some { d with ignore := ignore } := by
    unfold GSRTFregisterFont at h ⊢
    cases hl : bytes.getLast? with
    | none =>
      rw [hl] at h
      cases h
    | some last =>
      rw [hl] at h
      obtain rfl := Option.some.inj h
      exact ⟨⟨rfl, hc.keeps_self.attrs⟩, fun ignore => rfl⟩
  cases h with
  | rtfStatement s =>
    refine ⟨hc.keeps_perform hd, fun ignore => ?_⟩
    have hd : c.perform userFont s = some d := hd
    change ({ c with ignore := ignore }).perform userFont s = _
    rw [perform_ignore, hd]
    rfl
  | color r g b bytes =>
    obtain rfl := Option.some.inj hd
    exact ⟨⟨rfl, hc.keeps_self.attrs⟩, fun ignore => rfl⟩
  | defaultColor bytes =>
    obtain rfl := Option.some.inj hd
    exact ⟨⟨rfl, hc.keeps_self.attrs⟩, fun ignore => rfl⟩
  | _ => exact hr hd

/-- What a step does to the open blocks and to the consumer. -/
inductive Does : ParserEvent → List Bool → RTFConsumer → List Bool → RTFConsumer → Prop
  | keeps {event : ParserEvent} {blocks : List Bool} {c d : RTFConsumer} (hkeeps : c.Sound → c.Keeps d)
      (hcommand : c.Sound → ∀ ignore, command event { c with ignore := ignore } = { d with ignore := ignore })
      (hloses : ¬Loses event) : Does event blocks c blocks d
  | opens {event : ParserEvent} {blocks : List Bool} {c : RTFConsumer} (ignore : Bool)
      (hcommand : ∀ c, command event c = c) (hloses : ¬Loses event) :
      Does event blocks c (ignore :: blocks) (c.GSRTFopenBlock ignore)
  | closes {event : ParserEvent} {blocks : List Bool} {c : RTFConsumer} (ignore : Bool)
      (hcommand : ∀ c, command event c = c) (hloses : ¬Loses event) :
      Does event (ignore :: blocks) c blocks (c.GSRTFcloseBlock ignore)
  | loses {event : ParserEvent} {blocks : List Bool} {c : RTFConsumer} (n : Nat)
      (hcommand : ∀ c, command event c = c) (hloses : Loses event) :
      Does event (List.replicate (n + 1) true ++ blocks) c blocks c

theorem step_does {c d : ParserConfig} {event : ParserEvent} (h : Step (grammar userFont) c event d) :
    Does event (pending c.stack) c.state (pending d.stack) d.state := by
  cases h with
  | shift h =>
    obtain ⟨terminal, rfl⟩ := h
    exact .keeps (fun hc => hc.keeps_self) (fun _ _ => rfl) (by rintro ⟨dropped, ⟨⟩, -⟩)
  | discard h => exact .keeps (fun hc => hc.keeps_self) (fun _ _ => rfl) (by rintro ⟨dropped, ⟨⟩, -⟩)
  | reduce h ha =>
    have hl {rhs : List Symbol} {lhs : Symbol} {action : RTFConsumer → Option RTFConsumer} :
        ¬Loses (.reduce rhs lhs action) := by
      rintro ⟨dropped, ⟨⟩, -⟩
    cases h with
    | plain h =>
      obtain rfl := Option.some.inj ha
      rw [pending_append, pending_reverse, h.pending_eq_nil]
      refine .keeps (fun hc => hc.keeps_self) (fun _ ignore => ?_) hl
      dsimp only [command]
      split <;> rfl
    | command h =>
      rw [pending_append, pending_reverse, h.pending_eq_nil]
      refine .keeps (fun hc => (h.action_eq hc ha).1) (fun hc ignore => ?_) hl
      rw [command_reduce h.pending_eq_nil, (h.action_eq hc ha).2 ignore]
      rfl
    | opening h =>
      obtain rfl := Option.some.inj ha
      refine .opens _ (fun c => ?_) hl
      unfold command
      exact if_neg (List.cons_ne_nil _ _)
    | closing h =>
      obtain rfl := Option.some.inj ha
      obtain ⟨hfrt, hr⟩ := h.pending_eq_nil
      have hp (front rest : List Symbol) (ignore : Bool) (hfrt : pending front = [])
          (hr : pending rest = []) : pending (front ++ Symbol.opened ignore :: rest) = [ignore] := by
        rw [pending_append, hfrt]
        exact congrArg (ignore :: ·) hr
      rw [pending_append, pending_reverse, hp _ _ _ hfrt hr]
      refine .closes _ (fun c => ?_) hl
      unfold command
      refine if_neg ?_
      change pending (_ ++ Symbol.opened _ :: _) ≠ []
      rw [hp _ _ _ hfrt hr]
      exact List.cons_ne_nil _ _
  | @recover stack dropped last state h =>
    obtain ⟨hlt, -, -, hf⟩ := h
    have ht : pending (last :: stack) = pending stack := by
      simp only [List.mem_cons, List.not_mem_nil, or_false] at hlt
      obtain rfl | rfl | rfl := hlt <;> rfl
    have hn : pending ((grammar userFont).error :: last :: stack) = pending stack := ht
    have htr : ∀ b ∈ pending dropped, b = true := by
      intro b hb
      obtain ⟨s, hs, hb⟩ := List.mem_filterMap.mp hb
      cases s with
      | opened ignore =>
        obtain rfl := Option.some.inj hb
        cases ignore with
        | false => exact absurd hs hf
        | true => rfl
      | _ => cases hb
    rw [pending_append, ht, hn]
    cases hd : pending dropped with
    | nil =>
      refine .keeps (fun hc => hc.keeps_self) (fun _ _ => rfl) ?_
      rintro ⟨dropped', heq, hne⟩
      obtain rfl := Event.recover.inj heq
      exact hne hd
    | cons b rest =>
      rw [← hd, List.eq_replicate_of_mem htr, hd]
      refine .loses rest.length (fun _ => rfl) ⟨dropped, rfl, ?_⟩
      rw [hd]
      exact List.cons_ne_nil _ _

end GnustepGui.RTF
