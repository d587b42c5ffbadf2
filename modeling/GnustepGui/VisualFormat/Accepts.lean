import GnustepGui.VisualFormat.Predicates

/-!
# What the parser accepts

The parser returns for a text exactly when the text spells a format whose names stand for something,
which the options fit, and in which no predicate compares with a name and has a priority; what it
returns are the constraints of the format (`parse_returns_iff`). So it accepts the grammar except where
a format is sloppy or has such a predicate (`acceptsItsGrammar_iff`).
-/

namespace GnustepGui.VisualFormat

open Scanner StateExcept

section

variable {V N : Type} [NatCast N] [Neg N] {p p' : GSAutoLayoutVFLParser V N} {numbers : NumberScanner N}
  {superview : V → Option V} {view : V}

/-! ## Connecting a view -/

omit [NatCast N] [Neg N] in
theorem assertHasValidFormatLayoutOptions_eq_ok_iff : assertHasValidFormatLayoutOptions p = .ok () p' ↔
      isVerticalEdgeFormatLayoutOption p.options ≠ p.isVerticalOrientation ∧ p' = p := by
  unfold assertHasValidFormatLayoutOptions
  rw [get_bind]
  cases p.isVerticalOrientation <;> cases isVerticalEdgeFormatLayoutOption p.options <;>
    simp [failParseWithMessage, throw_ne_ok, pure_eq_ok_iff]

omit [NatCast N] [Neg N] in
theorem layoutAttributesForLayoutFormatOptions_eq_ok_iff {options : Nat} {attributes : List NSLayoutAttribute} :
    layoutAttributesForLayoutFormatOptions options p = .ok attributes p' ↔
      alignedAttributes options ≠ [] ∧ attributes = alignedAttributes options ∧ p' = p := by
  unfold layoutAttributesForLayoutFormatOptions
  cases alignedAttributes options with
  | nil => simp [failParseWithMessage, throw_ne_ok]
  | cons a as => simp [pure_eq_ok_iff]

variable (superview) in
omit [Neg N] in
theorem addFormattingConstraints_eq_ok_iff {previous : V} (hvw : p.view = some view) :
    addFormattingConstraints (some previous) p = .ok () p' ↔
      ∃ aligned, alignment (p.context superview) p.isVerticalOrientation previous view = some aligned ∧
        p' = { p with layoutFormatConstraints := p.layoutFormatConstraints ++ aligned } := by
  have ho : (p.context superview).options = p.options := rfl
  unfold addFormattingConstraints alignment
  rw [get_bind, ho]
  cases hasOption p.options alignmentMask with
  | false => simp [pure_eq_ok_iff]
  | true =>
    simp only [if_true]
    constructor
    · intro h
      obtain ⟨⟨⟩, p₁, hv, hr⟩ := bind_eq_ok h
      obtain ⟨hf, rfl⟩ := assertHasValidFormatLayoutOptions_eq_ok_iff.1 hv
      rw [get_bind] at hr
      obtain ⟨attributes, p₂, hat, hadd⟩ := bind_eq_ok hr
      obtain ⟨hs, rfl, rfl⟩ := layoutAttributesForLayoutFormatOptions_eq_ok_iff.1 hat
      cases hadd
      exact ⟨_, if_neg (not_or.2 ⟨hf, hs⟩), by rw [← hvw]⟩
    · rintro ⟨aligned, ha, rfl⟩
      split at ha
      · cases ha
      · rename_i hf
        obtain ⟨hf, hs⟩ := not_or.1 hf
        cases ha
        rw [bind_ok (assertHasValidFormatLayoutOptions_eq_ok_iff.2 ⟨hf, rfl⟩), get_bind,
          bind_ok (layoutAttributesForLayoutFormatOptions_eq_ok_iff.2 ⟨hs, rfl, rfl⟩), modify_run, hvw]

/-- What the loop knows about what stands before the next view. -/
def Before.Stands (p : GSAutoLayoutVFLParser V N) (spacing : Option N) (previous : Option V) :
    Before V N → Prop
  | .nothing => p.createLeadingConstraintToSuperview = false ∧ previous = none
  | .bar s => p.createLeadingConstraintToSuperview = true ∧ previous = none ∧ spacing = s
  | .view v s => p.createLeadingConstraintToSuperview = false ∧ previous = some v ∧ spacing = s

/-- The parser once the view is connected to what stands before it. -/
def connected (superview : V → Option V) (view : V) (before : Before V N) (p : GSAutoLayoutVFLParser V N)
    (aligned : List (NSLayoutConstraint V N)) : GSAutoLayoutVFLParser V N :=
  { p with
    constraints := p.constraints ++ before.constraints (p.context superview) p.isVerticalOrientation view
    createLeadingConstraintToSuperview := false
    layoutFormatConstraints := p.layoutFormatConstraints ++ aligned }

variable (superview view) in
theorem connect_eq_ok_iff (before : Before V N) {spacing : Option N} {previous : Option V}
    (hb : before.Stands p spacing previous) (hv : p.view = some view) :
    (∃ p₁, connectLeading superview spacing p = .ok () p₁ ∧ connectPrevious spacing previous p₁ = .ok () p') ↔
      ∃ aligned, before.alignment (p.context superview) p.isVerticalOrientation view = some aligned ∧
        p' = connected superview view before p aligned := by
  have hl : connectLeading superview spacing p =
      if p.createLeadingConstraintToSuperview = true then
        .ok () { p with
          constraints := p.constraints ++ [leadingSuperviewConstraint p.options p.isVerticalOrientation p.view
            (p.view.bind superview) spacing]
          createLeadingConstraintToSuperview := false }
      else .ok () p := by
    unfold connectLeading
    rw [get_bind]
    cases p.createLeadingConstraintToSuperview <;> rfl
  obtain ⟨views, options, metrics, s, cs, fs, _, flag, vertical⟩ := p
  cases hv
  cases before with
  | nothing =>
    obtain ⟨rfl, rfl⟩ := hb
    simp only [hl, Bool.false_eq_true, if_false]
    constructor
    · rintro ⟨p₁, h₁, h₂⟩
      cases h₁
      cases h₂
      exact ⟨[], rfl, by simp only [connected, Before.constraints, List.append_nil]⟩
    · rintro ⟨aligned, ⟨⟩, rfl⟩
      exact ⟨_, rfl, by simp only [connected, Before.constraints, List.append_nil]; rfl⟩
  | bar s =>
    obtain ⟨rfl, rfl, rfl⟩ := hb
    simp only [hl, if_true]
    constructor
    · rintro ⟨p₁, h₁, h₂⟩
      cases h₁
      cases h₂
      exact ⟨[], rfl, by simp only [connected, List.append_nil]; rfl⟩
    · rintro ⟨aligned, ⟨⟩, rfl⟩
      exact ⟨_, rfl, by simp only [connected, List.append_nil]; rfl⟩
  | view v s =>
    obtain ⟨rfl, rfl, rfl⟩ := hb
    simp only [hl, Bool.false_eq_true, if_false]
    constructor
    · rintro ⟨p₁, h₁, h₂⟩
      cases h₁
      obtain ⟨⟨⟩, p₂, hadd, hal⟩ := bind_eq_ok h₂
      cases hadd
      obtain ⟨aligned, ha, rfl⟩ := (addFormattingConstraints_eq_ok_iff superview rfl).1 hal
      exact ⟨aligned, ha, rfl⟩
    · rintro ⟨aligned, ha, rfl⟩
      refine ⟨_, rfl, ?_⟩
      exact (bind_ok rfl).trans ((addFormattingConstraints_eq_ok_iff superview rfl).2 ⟨aligned, ha, rfl⟩)

variable (view) in
theorem connectTrailing_eq_ok_iff {spacing : Option N} (hv : p.view = some view) :
    connectTrailing superview spacing p = .ok () p' ↔
      ∃ bar rest, ReadsBar bar p.scanner rest ∧
        p' = { p.scanTo rest with
          constraints := p.constraints ++ if bar then
            [trailingToSuperviewConstraint p.options p.isVerticalOrientation (some view) (superview view) spacing]
          else [] } := by
  obtain ⟨views, options, metrics, s, cs, fs, _, flag, vertical⟩ := p
  cases hv
  constructor
  · intro h
    obtain ⟨found, p₁, h₁, ha⟩ := bind_eq_ok h
    rcases (scanMark_eq_ok_iff '|' rfl rfl).1 h₁ with ⟨rfl, rest, hb, rfl⟩ | ⟨rfl, hn, rfl⟩
    · refine ⟨true, rest, .written hb, ?_⟩
      simp only [if_true, addTrailingToSuperviewConstraint, addConstraint, modify_run] at ha
      cases ha
      rfl
    · obtain ⟨-, rfl⟩ := pure_eq_ok_iff.1 ha
      refine ⟨false, _, .unwritten hn, ?_⟩
      simp only [Bool.false_eq_true, if_false, List.append_nil]
      rfl
  · rintro ⟨bar, rest, hb, rfl⟩
    cases hb with
    | unwritten hn =>
      simp only [Bool.false_eq_true, if_false, List.append_nil]
      exact bind_ok ((scanMark_eq_ok_iff '|' rfl rfl).2 (.inr ⟨rfl, hn, rfl⟩))
    | written hb =>
      exact bind_ok ((scanMark_eq_ok_iff '|' rfl rfl).2 (.inl ⟨rfl, rest, hb, rfl⟩))

/-! ## The loop -/

theorem itemConstraints_cons {ctx : Context V N} {vertical : Bool} {before : Before V N} {item : Item N}
    {items : List (Item N)} {cs : List (NSLayoutConstraint V N)} :
    itemConstraints numbers ctx vertical before (item :: items) = some cs ↔
      ∃ view predicates spacing rest, ctx.views item.view.name = some view ∧
        predicateConstraints numbers ctx vertical view item.view.predicates = some predicates ∧
        item.connection.spacing ctx.metrics = some spacing ∧
        itemConstraints numbers ctx vertical (.view view spacing) items = some rest ∧
        cs = before.constraints ctx vertical view ++ predicates ++
          (if item.bar then
            [trailingToSuperviewConstraint ctx.options vertical (some view) (ctx.superview view) spacing]
          else []) ++ rest := by
  rw [itemConstraints]
  simp only [Option.bind_eq_bind, Option.pure_def, Option.bind_eq_some_iff, Option.some_inj]
  constructor
  · rintro ⟨view, hv, predicates, hp, spacing, hs, rest, hr, rfl⟩
    exact ⟨view, predicates, spacing, rest, hv, hp, hs, hr, rfl⟩
  · rintro ⟨view, predicates, spacing, rest, hv, hp, hs, hr, rfl⟩
    exact ⟨view, hv, predicates, hp, spacing, hs, rest, hr, rfl⟩

omit [Neg N] in
theorem itemAlignments_cons {ctx : Context V N} {vertical : Bool} {before : Before V N} {item : Item N}
    {items : List (Item N)} (spacing : Option N) (hv : ctx.views item.view.name = some view)
    {fs : List (NSLayoutConstraint V N)} : itemAlignments ctx vertical before (item :: items) = some fs ↔
      ∃ aligned rest, before.alignment ctx vertical view = some aligned ∧
        itemAlignments ctx vertical (.view view spacing) items = some rest ∧ fs = aligned ++ rest := by
  have hs : itemAlignments ctx vertical (.view view spacing) items =
      itemAlignments ctx vertical (.view view none) items := by
    cases items <;> rfl
  rw [itemAlignments, hs]
  simp only [hv, Option.bind_eq_bind, Option.bind_some, Option.pure_def, Option.bind_eq_some_iff, Option.some_inj]
  constructor
  · rintro ⟨aligned, ha, rest, hr, rfl⟩
    exact ⟨aligned, rest, ha, hr, rfl⟩
  · rintro ⟨aligned, rest, ha, hr, rfl⟩
    exact ⟨aligned, ha, rest, hr, rfl⟩

/-- No predicate that the parser cannot read. -/
def Readable (items : List (Item N)) : Prop :=
  ∀ item ∈ items, ∀ pr ∈ item.view.predicates, ¬ pr.NamedWithPriority

omit [NatCast N] [Neg N] in
theorem readable_cons {item : Item N} {items : List (Item N)} :
    Readable (item :: items) ↔ (∀ pr ∈ item.view.predicates, ¬ pr.NamedWithPriority) ∧ Readable items :=
  List.forall_mem_cons

/-- The parser after a view, its connection and the bar, where `rest` is left. -/
def afterItem (superview : V → Option V) (before : Before V N) (item : Item N) (view : V)
    (predicates : List (NSLayoutConstraint V N)) (spacing : Option N)
    (aligned : List (NSLayoutConstraint V N)) (rest : List Char) (p : GSAutoLayoutVFLParser V N) :
    GSAutoLayoutVFLParser V N :=
  { p with
    scanner := rest
    view := some view
    constraints := p.constraints ++ before.constraints (p.context superview) p.isVerticalOrientation view ++
      predicates ++
      (if item.bar then
        [trailingToSuperviewConstraint p.options p.isVerticalOrientation (some view) (superview view) spacing]
      else [])
    createLeadingConstraintToSuperview := false
    layoutFormatConstraints := p.layoutFormatConstraints ++ aligned }

/-- One turn of the loop reads an item and adds its constraints, and then the loop goes on. -/
theorem parseViews_turn {fuel : Nat} {before : Before V N} {spacing : Option N} {previous : Option V}
    (hbef : before.Stands p spacing previous) (he : ¬ AtEnd p.scanner) :
    parseViews numbers superview (fuel + 1) spacing previous p = .ok () p' ↔
      ∃ (item : Item N) (s₁ s₂ s₃ : List Char) (view : V) (predicates : List (NSLayoutConstraint V N))
        (spacing' : Option N) (aligned : List (NSLayoutConstraint V N)),
        item.view.Reads numbers p.scanner s₁ ∧ item.connection.Reads numbers s₁ s₂ ∧
        ReadsBar item.bar s₂ s₃ ∧ (∀ pr ∈ item.view.predicates, ¬ pr.NamedWithPriority) ∧
        p.views item.view.name = some view ∧
        predicateConstraints numbers (p.context superview) p.isVerticalOrientation view item.view.predicates =
          some predicates ∧ item.connection.spacing p.metrics = some spacing' ∧
        before.alignment (p.context superview) p.isVerticalOrientation view = some aligned ∧
        parseViews numbers superview fuel spacing' (some view)
          (afterItem superview before item view predicates spacing' aligned s₃ p) = .ok () p' := by
  have hl : isAtEnd whitespaceAndNewline p.scanner = false := by
    rw [← Bool.not_eq_true, isAtEnd_iff]
    exact he
  rw [parseViews, get_bind]
  simp only [hl, Bool.false_eq_true, if_false]
  constructor
  · intro h
    obtain ⟨predicates, p₁, h₁, h⟩ := bind_eq_ok h
    obtain ⟨v, s₁, view, hv, hn, hvw, hp, rfl⟩ := (parseView_eq_ok_iff superview).1 h₁
    obtain ⟨⟨⟩, p₂, h₂, h⟩ := bind_eq_ok h
    obtain ⟨⟨⟩, p₃, h₃, h⟩ := bind_eq_ok h
    obtain ⟨aligned, ha, rfl⟩ := (connect_eq_ok_iff superview view before
      (p := { p with scanner := s₁, view := some view }) hbef rfl).1 ⟨p₂, h₂, h₃⟩
    rw [modify_bind] at h
    obtain ⟨spacing', p₄, h₄, h⟩ := bind_eq_ok h
    obtain ⟨connection, s₂, hc, hs, rfl⟩ := parseConnection_eq_ok_iff.1 h₄
    obtain ⟨⟨⟩, p₅, h₅, h⟩ := bind_eq_ok h
    obtain ⟨bar, s₃, hb, rfl⟩ := (connectTrailing_eq_ok_iff view rfl).1 h₅
    exact ⟨⟨v, connection, bar⟩, s₁, s₂, s₃, view, predicates, spacing', aligned, hv, hc, hb, hn, hvw, hp, hs, ha, h⟩
  · rintro ⟨⟨v, connection, bar⟩, s₁, s₂, s₃, view, predicates, spacing', aligned, hv, hc, hb,
      hn, hvw, hp, hs, ha, h⟩
    obtain ⟨p₂, h₂, h₃⟩ := (connect_eq_ok_iff superview view before
      (p := { p with scanner := s₁, view := some view }) hbef rfl).2 ⟨aligned, ha, rfl⟩
    refine (bind_ok ((parseView_eq_ok_iff superview).2 ⟨v, s₁, view, hv, hn, hvw, hp, rfl⟩)).trans ?_
    refine (bind_ok h₂).trans ((bind_ok h₃).trans ?_)
    rw [modify_bind]
    refine (bind_ok ((parseConnection_eq_ok_iff (p := { connected superview view before
      { p with scanner := s₁, view := some view } aligned with constraints := _ })).2
      ⟨connection, s₂, hc, hs, rfl⟩)).trans ?_
    refine (bind_ok ((connectTrailing_eq_ok_iff view (p := { connected superview view before
      { p with scanner := s₂, view := some view } aligned with constraints := _ }) rfl).2
      ⟨bar, s₃, hb, rfl⟩)).trans ?_
    exact h

theorem parseViews_sound (fuel : Nat) {before : Before V N} {spacing : Option N} {previous : Option V}
    (hb : before.Stands p spacing previous) (h : parseViews numbers superview fuel spacing previous p = .ok () p') :
    ∃ items cs fs, ReadsItems numbers items p.scanner ∧ Readable items ∧
      itemConstraints numbers (p.context superview) p.isVerticalOrientation before items = some cs ∧
      itemAlignments (p.context superview) p.isVerticalOrientation before items = some fs ∧
      p'.constraints = p.constraints ++ cs ∧ p'.layoutFormatConstraints = p.layoutFormatConstraints ++ fs := by
  induction fuel generalizing p before spacing previous with
  | zero => exact absurd h throw_ne_ok
  | succ fuel ih =>
    by_cases he : AtEnd p.scanner
    · have hl : isAtEnd whitespaceAndNewline p.scanner = true := isAtEnd_iff.2 he
      rw [parseViews, get_bind] at h
      simp only [hl, if_true] at h
      obtain ⟨-, rfl⟩ := pure_eq_ok_iff.1 h
      exact ⟨[], [], [], .nil he, nofun, by rw [itemConstraints], by rw [itemAlignments],
        (List.append_nil _).symm, (List.append_nil _).symm⟩
    · obtain ⟨item, s₁, s₂, s₃, view, predicates, spacing', aligned, hv, hc, hbar, hn,
        hr, hp, hs, ha, hrs⟩ := (parseViews_turn hb he).1 h
      have hstd : (Before.view view spacing').Stands
          (afterItem superview before item view predicates spacing' aligned s₃ p) spacing' (some view) :=
        ⟨rfl, rfl, rfl⟩
      obtain ⟨items, cs, fs, hits, hrdb, hcs, hfs, hct, hf⟩ := ih hstd hrs
      refine ⟨item :: items, _, _, .cons hv hc hbar hits, readable_cons.2 ⟨hn, hrdb⟩,
        itemConstraints_cons.2 ⟨view, predicates, spacing', cs, hr, hp, hs, hcs, rfl⟩,
        (itemAlignments_cons spacing' hr).2 ⟨aligned, fs, ha, hfs, rfl⟩, ?_, ?_⟩
      · rw [hct]
        simp only [afterItem, List.append_assoc]
        rfl
      · rw [hf]
        exact List.append_assoc _ _ _

theorem parseViews_complete {items : List (Item N)} {s : List Char} (hits : ReadsItems numbers items s)
    (hr : Readable items) (fuel : Nat) (hfl : s.length < fuel) (p : GSAutoLayoutVFLParser V N)
    (hs : p.scanner = s) {before : Before V N} {spacing : Option N} {previous : Option V}
    (hbef : before.Stands p spacing previous) {cs fs : List (NSLayoutConstraint V N)}
    (hc : itemConstraints numbers (p.context superview) p.isVerticalOrientation before items = some cs)
    (hfs : itemAlignments (p.context superview) p.isVerticalOrientation before items = some fs) :
    ∃ p', parseViews numbers superview fuel spacing previous p = .ok () p' ∧ p'.constraints = p.constraints ++ cs ∧
      p'.layoutFormatConstraints = p.layoutFormatConstraints ++ fs := by
  induction hits generalizing fuel p before spacing previous cs fs with
  | nil he =>
    subst hs
    obtain ⟨fuel, rfl⟩ := Nat.exists_eq_succ_of_ne_zero (Nat.ne_zero_of_lt hfl)
    have hl : isAtEnd whitespaceAndNewline p.scanner = true := isAtEnd_iff.2 he
    rw [itemConstraints] at hc
    rw [itemAlignments] at hfs
    cases hc
    cases hfs
    refine ⟨p, ?_, (List.append_nil _).symm, (List.append_nil _).symm⟩
    rw [parseViews, get_bind]
    simp only [hl, if_true]
    rfl
  | @cons item items _ s₁ s₂ s₃ hv hcn hb hits ih =>
    subst hs
    obtain ⟨fuel, rfl⟩ := Nat.exists_eq_succ_of_ne_zero (Nat.ne_zero_of_lt hfl)
    obtain ⟨hn, hr⟩ := readable_cons.1 hr
    obtain ⟨view, predicates, spacing', cs', hres, hpr, hspc, hc', rfl⟩ := itemConstraints_cons.1 hc
    obtain ⟨aligned, fs', ha, hfs', rfl⟩ := (itemAlignments_cons spacing' hres).1 hfs
    have hsh : s₃.length < fuel := by
      have h₁ := hv.length_lt
      have h₂ := hcn.length_le
      have h₃ := hb.length_le
      omega
    have hstd : (Before.view view spacing').Stands
        (afterItem superview before item view predicates spacing' aligned s₃ p) spacing' (some view) :=
      ⟨rfl, rfl, rfl⟩
    obtain ⟨p', hp, hct, hf⟩ := ih hr fuel hsh
      (afterItem superview before item view predicates spacing' aligned s₃ p) rfl hstd hc' hfs'
    refine ⟨p', (parseViews_turn hbef hv.next.not_atEnd).2 ⟨item, s₁, s₂, s₃, view, predicates, spacing',
      aligned, hv, hcn, hb, hn, hres, hpr, hspc, ha, hp⟩, ?_, ?_⟩
    · rw [hct]
      simp only [afterItem, List.append_assoc]
      rfl
    · rw [hf]
      exact List.append_assoc _ _ _

/-! ## What is returned -/

/-- A parser of the text `s`. -/
def Context.start (ctx : Context V N) (s : List Char) : GSAutoLayoutVFLParser V N :=
  initWithFormat s ctx.options ctx.metrics ctx.views

omit [Neg N] in
theorem leadingBefore_of_spacing {metrics : List Char → Option N} {leading : Option (Connection N)}
    {spacing : Option N} (hs : ∀ c ∈ leading, c.spacing metrics = some spacing)
    (hf : p.createLeadingConstraintToSuperview = leading.isSome) :
    ∃ before : Before V N, leadingBefore metrics leading = some before ∧ before.Stands p spacing none := by
  cases leading with
  | none => exact ⟨.nothing, rfl, hf, rfl⟩
  | some c => exact ⟨.bar spacing, by rw [leadingBefore, hs c rfl]; rfl, hf, rfl, rfl⟩

omit [Neg N] in
theorem spacing_of_leadingBefore {metrics : List Char → Option N} {leading : Option (Connection N)}
    {before : Before V N} (hb : leadingBefore metrics leading = some before)
    (hf : p.createLeadingConstraintToSuperview = leading.isSome) :
    ∃ spacing, (∀ c ∈ leading, c.spacing metrics = some spacing) ∧ (leading = none → spacing = none) ∧
      before.Stands p spacing none := by
  cases leading with
  | none =>
    cases hb
    exact ⟨none, nofun, fun _ => rfl, hf, rfl⟩
  | some c =>
    obtain ⟨spacing, hs, rfl⟩ := Option.map_eq_some_iff.1 hb
    refine ⟨spacing, ?_, nofun, hf, rfl, rfl⟩
    rintro _ ⟨⟩
    exact hs

theorem constraints_eq_some_iff {ctx : Context V N} {f : Format N} {cs : List (NSLayoutConstraint V N)} :
    f.constraints numbers ctx = some cs ↔ ∃ before written aligned, leadingBefore ctx.metrics f.leading = some before ∧
        itemConstraints numbers ctx f.orientation.vertical before f.items = some written ∧
        itemAlignments ctx f.orientation.vertical before f.items = some aligned ∧ cs = written ++ aligned := by
  unfold Format.constraints
  simp only [Option.bind_eq_bind, Option.pure_def, Option.bind_eq_some_iff, Option.some_inj]
  constructor
  · rintro ⟨before, hb, written, hw, aligned, ha, rfl⟩
    exact ⟨before, written, aligned, hb, hw, ha, rfl⟩
  · rintro ⟨before, written, aligned, hb, hw, ha, rfl⟩
    exact ⟨before, hb, written, hw, aligned, ha, rfl⟩

/-- The parser returns the constraints of the format that a text spells, and for no other text. -/
theorem parse_returns_iff {ctx : Context V N} {s : List Char} {cs : List (NSLayoutConstraint V N)} :
    (∃ p', parse numbers ctx.superview (ctx.start s) = .ok cs p') ↔
      ∃ f : Format N, f.Reads numbers s ∧ Readable f.items ∧ f.constraints numbers ctx = some cs := by
  unfold parse
  rw [get_bind]
  constructor
  · rintro ⟨p', h⟩
    cases hs : (ctx.start s).scanner.isEmpty with
    | true =>
      simp only [hs, if_true] at h
      exact absurd h throw_ne_ok
    | false =>
      simp only [hs, Bool.false_eq_true, if_false] at h
      obtain ⟨⟨⟩, p₁, h₁, h⟩ := bind_eq_ok h
      obtain ⟨o, s₁, ho, rfl⟩ := parseOrientation_eq_ok_iff.1 h₁
      obtain ⟨spacing, p₂, h₂, h⟩ := bind_eq_ok h
      obtain ⟨leading, s₂, hl, hspc, -, rfl⟩ := parseLeadingSuperViewConnection_eq_ok_iff.1 h₂
      rw [get_bind] at h
      obtain ⟨⟨⟩, p₃, h₃, h⟩ := bind_eq_ok h
      rw [modify_bind, get_bind] at h
      obtain ⟨rfl, -⟩ := pure_eq_ok_iff.1 h
      obtain ⟨before, hb, hstd⟩ := leadingBefore_of_spacing
        (p := { ctx.start s with
          scanner := s₂
          isVerticalOrientation := o.vertical
          createLeadingConstraintToSuperview := leading.isSome }) hspc rfl
      obtain ⟨items, written, aligned, hits, hr, hw, ha, hc, hf⟩ := parseViews_sound _ hstd h₃
      refine ⟨⟨o, leading, items⟩, ⟨?_, s₁, s₂, ho, hl, hits⟩, hr, ?_⟩
      · rintro rfl
        cases hs
      · refine constraints_eq_some_iff.2 ⟨before, written, aligned, hb, hw, ha, ?_⟩
        rw [hc, hf]
        rfl
  · rintro ⟨f, ⟨hne, s₁, s₂, ho, hl, hits⟩, hr, hcs⟩
    obtain ⟨before, written, aligned, hb, hw, ha, rfl⟩ := constraints_eq_some_iff.1 hcs
    have hs : (ctx.start s).scanner.isEmpty = false := by
      rw [← Bool.not_eq_true, List.isEmpty_iff]
      exact hne
    let started : GSAutoLayoutVFLParser V N := { ctx.start s with
      scanner := s₂
      isVerticalOrientation := f.orientation.vertical
      createLeadingConstraintToSuperview := f.leading.isSome }
    obtain ⟨spacing, hspc, hn, hstd⟩ := spacing_of_leadingBefore (p := started) hb rfl
    obtain ⟨p', hp, hc, hf⟩ := parseViews_complete hits hr (s₂.length + 1)
      (Nat.lt_succ_self _) started rfl hstd hw ha
    refine ⟨{ p' with constraints := p'.constraints ++ p'.layoutFormatConstraints }, ?_⟩
    simp only [hs, Bool.false_eq_true, if_false]
    refine (bind_ok (parseOrientation_eq_ok_iff.2 ⟨f.orientation, s₁, ho, rfl⟩)).trans ?_
    refine (bind_ok ((parseLeadingSuperViewConnection_eq_ok_iff
      (p := { ctx.start s with scanner := s₁, isVerticalOrientation := f.orientation.vertical })).2
      ⟨f.leading, s₂, hl, hspc, hn, rfl⟩)).trans ?_
    rw [get_bind]
    refine (bind_ok hp).trans ?_
    rw [modify_bind, get_bind, pure_run, hc, hf]
    rfl

end

end GnustepGui.VisualFormat
