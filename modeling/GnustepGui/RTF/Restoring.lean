import GnustepGui.RTF.Groups

/-!
# What a block restores

A block that is closed leaves the consumer as it was opened, unless the parser has recovered from an error
by dropping an open block within it, as it does with the group in a field instruction that has no text.
A block within an ignored one has no attributes of its own, so that the statements in it stay in force.
-/

namespace GnustepGui.RTF

open ShiftReduce RTFConsumer

/-! ## Open blocks -/

/-- The consumer within these blocks: each has been opened in a state within those around it. -/
def Under (base : RTFConsumer) : List Bool → RTFConsumer → Prop
  | [], c => base.Over c
  | ignore :: rest, c => ∃ snap, Under base rest snap ∧ (snap.GSRTFopenBlock ignore).Over c

section Under

variable {base c d : RTFConsumer} {blocks blocks' : List Bool} {event : ParserEvent}

theorem openBlock_sound (hc : c.Sound) (ignore : Bool) : (c.GSRTFopenBlock ignore).Sound :=
  (hc.over_openBlock ignore).sound hc

theorem Under.sound (hb : base.Sound) (h : Under base blocks c) : c.Sound := by
  induction blocks generalizing c with
  | nil => exact Over.sound h hb
  | cons ignore rest ih =>
    obtain ⟨snap, hs, ho⟩ := h
    exact ho.sound (openBlock_sound (ih hs) ignore)

theorem Under.over (hb : base.Sound) (h : Under base blocks c) (ho : c.Over d) : Under base blocks d := by
  cases blocks with
  | nil => exact Over.trans h ho hb
  | cons ignore rest =>
    obtain ⟨snap, hs, hsc⟩ := h
    exact ⟨snap, hs, hsc.trans ho (openBlock_sound (hs.sound hb) ignore)⟩

theorem Under.ignore_le (hb : base.Sound) (h : Under base blocks c) : base.ignore ≤ c.ignore := by
  induction blocks generalizing c with
  | nil => exact Over.ignore h
  | cons ignore rest ih =>
    obtain ⟨snap, hs, ho⟩ := h
    exact (ih hs).trans (((hs.sound hb).over_openBlock ignore).ignore.trans ho.ignore)

theorem Under.of_append (hb : base.Sound) {dropped : List Bool} (h : Under base (dropped ++ blocks) c) :
    Under base blocks c := by
  induction dropped generalizing c with
  | nil => exact h
  | cons ignore rest ih =>
    obtain ⟨snap, hsn, ho⟩ := h
    have hs := hsn.sound hb
    exact (ih hsn).over hb ((hs.over_openBlock ignore).trans ho hs)

theorem Under.does (hb : base.Sound) (h : Under base blocks c) (hd : Does event blocks c blocks' d) :
    Under base blocks' d := by
  have hc := h.sound hb
  cases hd with
  | keeps hk => exact h.over hb (hk hc).over
  | opens ignore => exact ⟨c, h, (openBlock_sound hc ignore).over_self⟩
  | closes ignore =>
    obtain ⟨snap, hs, ho⟩ := h
    exact hs.over hb (ho.closeBlock (hs.sound hb))
  | loses n => exact h.of_append hb

end Under

theorem reset_sound (userFont : List Nat) : (reset userFont).Sound := ⟨List.cons_ne_nil _ _, le_rfl⟩

theorem run_sound {userFont : List Nat} {events : List ParserEvent} {c : ParserConfig}
    (h : Run (grammar userFont) ⟨[], reset userFont⟩ events c) : c.state.Sound := by
  have hb := reset_sound userFont
  have hu : Under (reset userFont) (pending c.stack) c.state := by
    refine h.invariant (P := fun c => Under (reset userFont) (pending c.stack) c.state) ?_ ?_
    · exact fun c event d hs hc => hc.does hb (step_does hs)
    · exact hb.over_self
  exact hu.sound hb

/-! ## Within a block -/

/-- What a step does to the innermost blocks, those around them staying open. -/
theorem Does.inner {event : ParserEvent} {inner outer blocks : List Bool} {c d : RTFConsumer}
    (h : Does event (inner ++ outer) c blocks d) (hlen : outer.length ≤ blocks.length) :
    ∃ inner', blocks = inner' ++ outer ∧ Does event inner c inner' d := by
  generalize ha : inner ++ outer = all at h
  cases h with
  | keeps hk hc hlos => exact ⟨inner, ha.symm, .keeps hk hc hlos⟩
  | opens ignore hc hlos =>
    exact ⟨ignore :: inner, congrArg (ignore :: ·) ha.symm, .opens ignore hc hlos⟩
  | closes ignore hc hlos =>
    cases inner with
    | nil =>
      obtain rfl : outer = ignore :: blocks := ha
      exact absurd hlen (Nat.not_succ_le_self _)
    | cons b inner =>
      obtain ⟨rfl, rfl⟩ := List.cons.inj ha
      exact ⟨inner, rfl, .closes b hc hlos⟩
  | loses n hc hlos =>
    obtain ⟨l, hi, hb⟩ | ⟨l, hr, ho⟩ := List.append_eq_append_iff.mp ha
    · -- what is dropped cannot reach into those around
      have hl : l = [] := by
        rw [hb, List.length_append] at hlen
        exact List.eq_nil_of_length_eq_zero (by omega)
      subst hl
      rw [List.append_nil] at hi
      refine ⟨[], hb.symm, ?_⟩
      have hd : Does event (List.replicate (n + 1) true ++ []) c [] c := .loses n hc hlos
      rwa [List.append_nil, hi] at hd
    · refine ⟨l, ho, ?_⟩
      rw [hr]
      exact .loses n hc hlos

theorem Does.ignore {event : ParserEvent} {blocks blocks' : List Bool} {c d : RTFConsumer} (hc : c.Sound)
    (h : Does event blocks c blocks' d) :
    (¬Loses event → d.ignore - blocks'.count true = c.ignore - blocks.count true) ∧
      (Loses event → c.ignore - blocks.count true < d.ignore - blocks'.count true) := by
  cases h with
  | keeps hk hcmd hl =>
    rw [(hk hc).ignore]
    exact ⟨fun _ => rfl, fun h => absurd h hl⟩
  | opens ignore hcmd hl =>
    refine ⟨fun _ => ?_, fun h => absurd h hl⟩
    rw [openBlock_ignore]
    cases ignore <;> simp
  | closes ignore hcmd hl =>
    refine ⟨fun _ => ?_, fun h => absurd h hl⟩
    rw [closeBlock_ignore]
    cases ignore with
    | false => simp
    | true =>
      simp
      omega
  | loses n hcmd hl =>
    refine ⟨fun h => absurd hl h, fun _ => ?_⟩
    rw [List.count_append, List.count_replicate_self]
    omega

/-- How many blocks have pushed attributes: those that no ignored block is around. -/
def pushes : List Bool → Nat
  | [] => 0
  | _ :: rest => if true ∈ rest then pushes rest else rest.length + 1

theorem pushes_of_notMem {blocks : List Bool} (h : true ∉ blocks) : pushes blocks = blocks.length := by
  cases blocks with
  | nil => rfl
  | cons ignore rest => exact if_neg fun hm => h (List.mem_cons_of_mem _ hm)

/-- While none is dropped, there are as many attributes as blocks have pushed. -/
theorem Does.attrs_length {event : ParserEvent} {blocks blocks' : List Bool} {c d : RTFConsumer} (hc : c.Sound)
    (h : Does event blocks c blocks' d) (hlos : ¬Loses event) (hi : c.ignore = blocks.count true) {m : Nat}
    (hl : c.attrs.length = m + pushes blocks) : d.attrs.length = m + pushes blocks' := by
  cases h with
  | keeps hk =>
    obtain ⟨attr, ha⟩ := (hk hc).attrs
    obtain ⟨first, rest, hcn⟩ := List.exists_cons_of_ne_nil hc.attrs
    rw [ha, ← hl, hcn]
    rfl
  | opens ignore =>
    rw [openBlock_attrs, pushes]
    by_cases hm : true ∈ blocks
    · have hp := List.count_pos_iff.mpr hm
      rw [if_neg (by omega), if_pos hm]
      exact hl
    · obtain ⟨first, rest, hcn⟩ := List.exists_cons_of_ne_nil hc.attrs
      rw [hi, List.count_eq_zero.mpr hm, if_neg hm]
      rw [pushes_of_notMem hm, hcn] at hl
      simp only [Nat.cast_zero, if_true, hcn, List.head?_cons, Option.toList_some, List.length_append,
        List.length_cons, List.length_nil] at hl ⊢
      omega
  | closes ignore =>
    have hcnt : c.ignore - ignore.toNat = (blocks'.count true : Int) := by
      rw [hi]
      cases ignore <;> simp
    rw [closeBlock_attrs, hcnt]
    rw [pushes] at hl
    by_cases hm : true ∈ blocks'
    · have hp := List.count_pos_iff.mpr hm
      rw [if_neg (by omega)]
      rwa [if_pos hm] at hl
    · rw [if_neg hm] at hl
      rw [List.count_eq_zero.mpr hm, if_pos Nat.cast_zero, List.length_tail, hl, pushes_of_notMem hm]
      omega
  | loses n hcmd h => exact absurd h hlos

theorem Does.commands {event : ParserEvent} {blocks blocks' : List Bool} {c d m : RTFConsumer} (hc : c.Sound)
    (h : Does event blocks c blocks' d) (hp : c.ignore ≠ 0) (hp' : d.ignore ≠ 0)
    (heq : { c with ignore := m.ignore } = m) :
    { d with ignore := (command event m).ignore } = command event m := by
  cases h with
  | keeps hk hcmd =>
    have hm := hcmd hc m.ignore
    rw [heq] at hm
    rw [hm]
  | opens ignore hcmd =>
    rw [hcmd, ← heq]
    unfold GSRTFopenBlock
    cases ignore <;> simp [hp]
  | closes ignore hcmd =>
    rw [closeBlock_ignore] at hp'
    rw [hcmd, ← heq]
    unfold GSRTFcloseBlock
    cases ignore with
    | false => simp [hp]
    | true =>
      have hne : ¬c.ignore - 1 = 0 := hp'
      simp [hne]
  | loses n hcmd =>
    rw [hcmd]
    exact heq

/-! ## Runs within a block -/

/-- A run in which more than so many blocks are open. -/
inductive Inside (userFont : List Nat) (depth : Nat) : ParserConfig → List ParserEvent → ParserConfig → Prop
  | nil {c : ParserConfig} (hopen : depth < (pending c.stack).length) : Inside userFont depth c [] c
  | snoc {c d e : ParserConfig} {events : List ParserEvent} {event : ParserEvent}
      (h : Inside userFont depth c events d) (hstep : Step (grammar userFont) d event e)
      (hopen : depth < (pending e.stack).length) : Inside userFont depth c (events ++ [event]) e

/-- A block that is opened in the first state is open during the events, until the last one ends it. -/
def IsBlock (userFont : List Nat) (c d : ParserConfig) (ignore : Bool) (events : List ParserEvent)
    (last : ParserEvent) : Prop :=
  ∃ c₁ c₂, Step (grammar userFont) c
      (.reduce [] (.opened ignore) fun c => some (c.GSRTFopenBlock ignore)) c₁ ∧
    Inside userFont (pending c.stack).length c₁ events c₂ ∧ Step (grammar userFont) c₂ last d ∧
    (pending d.stack).length ≤ (pending c.stack).length

/-- The depth of the stack, the ignore count and the formatting are the same. -/
structure Restored (c d : RTFConsumer) : Prop where
  ignore : d.ignore = c.ignore
  depth : d.attrs.length = c.attrs.length
  formatting : d.attrs.head? = c.attrs.head?

/-- What holds within a block that has been opened in the base state, with these blocks open in it. -/
structure Within (base : RTFConsumer) (events : List ParserEvent) (inner : List Bool) (c : RTFConsumer) : Prop where
  under : Under base inner c
  kept : (∀ event ∈ events, ¬Loses event) → c.ignore = base.ignore + inner.count true
  lost : ¬(∀ event ∈ events, ¬Loses event) → base.ignore + inner.count true < c.ignore
  length : (∀ event ∈ events, ¬Loses event) → base.ignore = 0 →
    c.attrs.length = base.attrs.length + pushes inner
  commands : base.ignore ≠ 0 → { c with ignore := (commands events base).ignore } = commands events base

section Within

variable {base c d : RTFConsumer} {events : List ParserEvent} {event : ParserEvent} {inner inner' : List Bool}

theorem within_nil (hb : base.Sound) : Within base [] [] base where
  under := hb.over_self
  kept _ := (add_zero _).symm
  lost h := absurd (by simp) h
  length _ _ := rfl
  commands _ := rfl

theorem forall_mem_snoc {P : ParserEvent → Prop} : (∀ e ∈ events ++ [event], P e) ↔ (∀ e ∈ events, P e) ∧ P event := by
  rw [List.forall_mem_append, List.forall_mem_singleton]

theorem Within.does (hb : base.Sound) (h : Within base events inner c)
    (hd : Does event inner c inner' d) : Within base (events ++ [event]) inner' d := by
  have hc := h.under.sound hb
  have hu := h.under.does hb hd
  obtain ⟨hk, hl⟩ := hd.ignore hc
  refine ⟨hu, fun ha => ?_, fun hn => ?_, fun ha h0 => ?_, fun hne => ?_⟩
  · obtain ⟨he, het⟩ := forall_mem_snoc.mp ha
    have := h.kept he
    have := hk het
    omega
  · have hle : base.ignore + inner.count true ≤ c.ignore := by
      by_cases he : ∀ e ∈ events, ¬Loses e
      · exact (h.kept he).ge
      · exact (h.lost he).le
    by_cases het : Loses event
    · have := hl het
      omega
    · have := h.lost fun he => hn (forall_mem_snoc.mpr ⟨he, het⟩)
      have := hk het
      omega
  · obtain ⟨he, het⟩ := forall_mem_snoc.mp ha
    have hi := h.kept he
    rw [h0, zero_add] at hi
    exact hd.attrs_length hc het hi (h.length he h0)
  · have hp := hb.ignore
    have hle := h.under.ignore_le hb
    have hle' := hu.ignore_le hb
    have := hd.commands hc (by omega) (by omega) (h.commands hne)
    unfold GnustepGui.RTF.commands
    rw [List.foldl_append]
    exact this

theorem inside_within {userFont : List Nat} {outer : List Bool} {c₁ c₂ : ParserConfig}
    (h : Inside userFont outer.length c₁ events c₂) (hb : c₁.state.Sound) {ignore : Bool}
    (hs : pending c₁.stack = ignore :: outer) :
    ∃ inner, pending c₂.stack = inner ++ ignore :: outer ∧ Within c₁.state events inner c₂.state := by
  induction h with
  | nil ho => exact ⟨[], hs, within_nil hb⟩
  | snoc hr hsp ho ih =>
    obtain ⟨inner, hp, hw⟩ := ih
    have hd := step_does hsp
    rw [hp] at hd
    obtain ⟨inner', hp', hd⟩ := hd.inner ho
    exact ⟨inner', hp', hw.does hb hd⟩

end Within

/-! ## Restoring -/

theorem closeBlock_restored {c d : RTFConsumer} {ignore : Bool} {events : List ParserEvent} (hc : c.Sound)
    (h : Within (c.GSRTFopenBlock ignore) events [] d) : Restored c (d.GSRTFcloseBlock ignore) ↔
      (∀ event ∈ events, ¬Loses event) ∧
        (c.ignore = 0 ∨ (commands events (c.GSRTFopenBlock ignore)).attrs.head? = c.attrs.head?) := by
  obtain ⟨attr, rest, hcn⟩ := List.exists_cons_of_ne_nil hc.attrs
  obtain ⟨l, hl, ha, ho⟩ := Over.attrs h.under
  rw [openBlock_tail hc] at ha
  rw [openBlock_ignore] at ho
  by_cases hall : ∀ event ∈ events, ¬Loses event
  · have hi := h.kept hall
    rw [openBlock_ignore, List.count_nil, Nat.cast_zero, add_zero] at hi
    have hclo : (d.GSRTFcloseBlock ignore).ignore = c.ignore := by
      rw [closeBlock_ignore, hi, add_sub_cancel_right]
    by_cases h0 : c.ignore = 0
    · rw [if_pos h0] at ha
      have hlen : l.length = 1 := by
        by_cases hb : c.ignore + ignore.toNat = 0
        · have hs := h.length hall (by rw [openBlock_ignore]; exact hb)
          rw [openBlock_attrs, if_pos h0, ha, hcn, pushes] at hs
          simp only [List.length_append, List.length_cons, List.head?_cons, Option.toList_some, List.length_nil] at hs
          omega
        · exact ho hb
      obtain ⟨attr', rfl⟩ := List.length_eq_one_iff.mp hlen
      -- the block has pushed one set of attributes, which is taken off again
      have hr : (d.GSRTFcloseBlock ignore).attrs = c.attrs := by
        rw [closeBlock_attrs, hi, add_sub_cancel_right, if_pos h0, ha]
        rfl
      refine iff_of_true ⟨hclo, ?_, ?_⟩ ⟨hall, .inl h0⟩
      · rw [hr]
      · rw [hr]
    · have hs : (d.GSRTFcloseBlock ignore).attrs = d.attrs := by
        rw [closeBlock_attrs, hi, add_sub_cancel_right, if_neg h0]
      have hp := hc.ignore
      rw [if_neg h0] at ha
      have hd : d.attrs.length = c.attrs.length := by
        rw [ha, List.length_append, ho (by omega), hcn]
        exact Nat.add_comm _ _
      have hcom : d.attrs = (commands events (c.GSRTFopenBlock ignore)).attrs := by
        rw [← h.commands (by rw [openBlock_ignore]; omega)]
      rw [← hcom]
      constructor
      · intro hr
        refine ⟨hall, .inr ?_⟩
        rw [← hs]
        exact hr.formatting
      · rintro ⟨-, hz | hf⟩
        · exact absurd hz h0
        · refine ⟨hclo, ?_, ?_⟩
          · rw [hs]
            exact hd
          · rw [hs]
            exact hf
  · have hls := h.lost hall
    rw [openBlock_ignore, List.count_nil, Nat.cast_zero, add_zero] at hls
    refine iff_of_false (fun hr => ?_) fun hand => hall hand.1
    have hs := hr.ignore
    rw [closeBlock_ignore] at hs
    omega

theorem isBlock_restored {userFont : List Nat} {c d : ParserConfig} {ignore : Bool} {events : List ParserEvent}
    {last : ParserEvent} (hc : c.state.Sound) (h : IsBlock userFont c d ignore events last) : Restored c.state d.state ↔
      (∀ event ∈ events ++ [last], ¬Loses event) ∧ (c.state.ignore = 0 ∨
          (commands events (c.state.GSRTFopenBlock ignore)).attrs.head? = c.state.attrs.head?) := by
  obtain ⟨c₁, c₂, hop, hi2, hls, he⟩ := h
  obtain ⟨hs, hp⟩ : c₁.state = c.state.GSRTFopenBlock ignore ∧
      pending c₁.stack = ignore :: pending c.stack := by
    generalize hev : Event.reduce [] (Symbol.opened ignore)
      (fun c => some (RTFConsumer.GSRTFopenBlock ignore c)) = event at hop
    cases hop with
    | reduce h hact =>
      obtain ⟨rfl, rfl, rfl⟩ := Event.reduce.inj hev
      exact ⟨(Option.some.inj hact).symm, rfl⟩
    | _ => cases hev
  have hb := openBlock_sound hc ignore
  rw [← hs] at hb
  obtain ⟨inner, hinn, hw⟩ := inside_within hi2 hb hp
  rw [hs] at hw
  have hds := step_does hls
  rw [hinn] at hds
  generalize ha : inner ++ ignore :: pending c.stack = all at hds
  have hlen := congrArg List.length ha
  rw [List.length_append, List.length_cons] at hlen
  generalize hbl : pending d.stack = blocks at hds he
  generalize hd : d.state = state at hds ⊢
  cases hds with
  | keeps => omega
  | opens ignore' =>
    rw [List.length_cons] at he
    omega
  | closes ignore' hcmd hl =>
    rw [List.length_cons] at hlen
    obtain rfl : inner = [] := List.eq_nil_of_length_eq_zero (by omega)
    obtain ⟨rfl, -⟩ := List.cons.inj ha
    rw [closeBlock_restored hc hw, forall_mem_snoc, and_iff_left hl]
  | loses n hcmd hl =>
    have hm : ignore ∈ List.replicate (n + 1) true := by
      obtain ⟨l, hr, ho⟩ | ⟨l, -, rfl⟩ := List.append_eq_append_iff.mp ha
      · rw [hr]
        cases l with
        | nil =>
          obtain rfl : ignore :: pending c.stack = _ := ho
          exact absurd he (Nat.not_succ_le_self _)
        | cons b l =>
          obtain ⟨rfl, -⟩ := List.cons.inj ho
          exact List.mem_append_right _ List.mem_cons_self
      · rw [List.length_append, List.length_cons] at he
        omega
    obtain rfl := List.eq_of_mem_replicate hm
    refine iff_of_false (fun hrst => ?_) fun hand => (forall_mem_snoc.mp hand.1).2 hl
    have hle := hw.under.ignore_le (openBlock_sound hc true)
    have hsm := hrst.ignore
    rw [openBlock_ignore] at hle
    simp only [Bool.toNat_true, Nat.cast_one] at hle
    omega

/-- The attributes are never used up, the ignore count is never negative, and a block restores what was
there before it exactly where no error recovery drops an open block in it and, within an ignored
block, its commands leave the formatting as it was. -/
theorem blocks_restored (userFont : List Nat) :
    (∀ events c, Run (grammar userFont) ⟨[], reset userFont⟩ events c → c.state.Sound) ∧
      ∀ before c ignore events last d, Run (grammar userFont) ⟨[], reset userFont⟩ before c →
        IsBlock userFont c d ignore events last →
        (Restored c.state d.state ↔
          (∀ event ∈ events ++ [last], ¬Loses event) ∧
            (c.state.ignore = 0 ∨
              (commands events (c.state.GSRTFopenBlock ignore)).attrs.head? = c.state.attrs.head?)) :=
  ⟨fun _ _ h => run_sound h, fun _ _ _ _ _ _ h hb => isBlock_restored (run_sound h) hb⟩

/-! ## Two documents -/

section Documents

open Terminal NonTerminal GnustepGui.RTF.Symbol

variable {userFont : List Nat} {state : RTFConsumer}

theorem token_step (terminal : Terminal) (stack : List Symbol) :
    Step (grammar userFont) ⟨stack, state⟩ (.shift (t terminal)) ⟨t terminal :: stack, state⟩ :=
  .shift ⟨terminal, rfl⟩

theorem plain_step {rhs : List Symbol} {lhs : NonTerminal} (h : Plain rhs lhs) (stack : List Symbol) :
    Step (grammar userFont) ⟨rhs.reverse ++ stack, state⟩ (.reduce rhs (n lhs) some) ⟨n lhs :: stack, state⟩ := by
  have hr : (grammar userFont).Rule [] rhs (n lhs) some := Rule.plain h
  exact .reduce hr rfl

theorem statement_step {s : Statement} {state' : RTFConsumer} (h : state.perform userFont s = some state')
    (stack : List Symbol) : Step (grammar userFont) ⟨t (statement s) :: stack, state⟩
      (.reduce [t (statement s)] (n .rtfStatement) fun c => c.perform userFont s)
      ⟨n .rtfStatement :: stack, state'⟩ := by
  have hr : (grammar userFont).Rule [] [t (statement s)] (n .rtfStatement) fun c => c.perform userFont s :=
    Rule.command (.rtfStatement s)
  exact .reduce hr h

theorem opening_step {context : List Symbol} {ignore : Bool} (h : Opening context ignore) (stack : List Symbol) :
    Step (grammar userFont) ⟨context.reverse ++ stack, state⟩
      (.reduce [] (opened ignore) fun c => some (c.GSRTFopenBlock ignore))
      ⟨opened ignore :: (context.reverse ++ stack), state.GSRTFopenBlock ignore⟩ := by
  have hr : (grammar userFont).Rule context [] (opened ignore) fun c => some (c.GSRTFopenBlock ignore) := Rule.opening h
  exact .reduce hr rfl

theorem run_brace (userFont : List Nat) : ∃ events, Run (grammar userFont) ⟨[], reset userFont⟩ events
      ⟨[t openBrace, n rtfIngredients, t start, t openBrace], reset userFont⟩ := by
  have h := Run.nil (G := grammar userFont) ⟨[], reset userFont⟩
  have h := h.snoc (token_step openBrace _)
  have h := h.snoc (token_step start _)
  have h := h.snoc (plain_step .noIngredients _)
  exact ⟨_, h.snoc (token_step openBrace _)⟩

theorem closing_step {front rest : List Symbol} {ignore : Bool} {lhs : NonTerminal}
    (h : Closing front ignore rest lhs) (stack : List Symbol) :
    Step (grammar userFont) ⟨(front ++ opened ignore :: rest).reverse ++ stack, state⟩
      (.reduce (front ++ opened ignore :: rest) (n lhs) fun c => some (c.GSRTFcloseBlock ignore))
      ⟨n lhs :: stack, state.GSRTFcloseBlock ignore⟩ := by
  have hr : (grammar userFont).Rule [] (front ++ opened ignore :: rest) (n lhs)
      fun c => some (c.GSRTFcloseBlock ignore) := Rule.closing h
  exact .reduce hr rfl

/-- In `{\rtf1 {\b }}` the block restores what was there. -/
theorem blocks_restored_bold : ∃ before c events last d, Run (grammar []) ⟨[], reset []⟩ before c ∧
    IsBlock [] c d false events last ∧
    (Restored c.state d.state ↔ (∀ event ∈ events ++ [last], ¬Loses event) ∧
      (c.state.ignore = 0 ∨
        (commands events (c.state.GSRTFopenBlock false)).attrs.head? = c.state.attrs.head?)) := by
  obtain ⟨before, hr⟩ := run_brace []
  have ho : Step (grammar []) ⟨[t openBrace, n rtfIngredients, t start, t openBrace], reset []⟩ _ _ :=
    opening_step .block [n rtfIngredients, t start, t openBrace]
  have h : Inside [] 0 ⟨[opened false, t openBrace, n rtfIngredients, t start, t openBrace],
      (reset []).GSRTFopenBlock false⟩ [] _ := .nil (by decide)
  have h := h.snoc (plain_step .noIngredients _) (by decide)
  have h := h.snoc (token_step (statement (.bold none)) _) (by decide)
  have h := h.snoc (statement_step rfl _) (by decide)
  have h := h.snoc (plain_step (.ingredient (by decide)) _) (by decide)
  have h := h.snoc (plain_step .noNeXTstuff _) (by decide)
  have h := h.snoc (token_step closeBrace _) (by decide)
  have hb : IsBlock [] _ _ false _ _ :=
    ⟨_, _, ho, h, closing_step .block [n rtfIngredients, t start, t openBrace], by exact Nat.le_refl 0⟩
  exact ⟨before, _, _, _, _, hr, hb, (blocks_restored []).2 _ _ _ _ _ _ hr hb⟩

/-- In `{\rtf1 {\field {\* \fldinst {\b }` the brace is an error. The group in the instruction is
dropped, and the ignore count stays. -/
theorem instruction_not_restored : ∃ before c events last d, Run (grammar []) ⟨[], reset []⟩ before c ∧
    IsBlock [] c d true events last ∧ ¬Restored c.state d.state := by
  obtain ⟨before, hr⟩ := run_brace []
  have hr := hr.snoc (opening_step .field [n rtfIngredients, t start, t openBrace])
  have hr := hr.snoc (token_step field _)
  have hr := hr.snoc (plain_step .noFieldMod _)
  have hr := hr.snoc (token_step openBrace _)
  have hr := hr.snoc (token_step ignore _)
  have hr := hr.snoc (plain_step .rtfIgnore _)
  have hr := hr.snoc (token_step fldinst _)
  have hr := hr.snoc (token_step openBrace _)
  let rest : List Symbol := [n rtfFieldMod, t field, opened false, t openBrace, n rtfIngredients, t start, t openBrace]
  let state := (reset []).GSRTFopenBlock false
  have ho : Step (grammar []) ⟨t openBrace :: t fldinst :: n .rtfIgnore :: t openBrace :: rest, state⟩ _ _ :=
    opening_step .fieldinst rest
  have h : Inside [] 1 ⟨opened true :: t openBrace :: t fldinst :: n .rtfIgnore :: t openBrace :: rest,
      state.GSRTFopenBlock true⟩ [] _ := .nil (by decide)
  have h := h.snoc (plain_step .noStatements _) (by decide)
  have h := h.snoc (token_step (statement (.bold none)) _) (by decide)
  have h := h.snoc (statement_step rfl _) (by decide)
  have h := h.snoc (plain_step .statements _) (by decide)
  have hd : (grammar []).Drops
      [n rtfStatementList, opened true, t openBrace, t fldinst, n .rtfIgnore] (t openBrace) := by
    refine ⟨by decide, by decide, by decide, by decide⟩
  exact ⟨_, _, _, _, _, hr, ⟨_, _, ho, h, .recover hd, by exact Nat.le_refl 1⟩,
    fun hrst => absurd hrst.ignore (by decide)⟩

end Documents

end GnustepGui.RTF
