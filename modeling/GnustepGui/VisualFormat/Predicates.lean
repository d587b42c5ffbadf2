import GnustepGui.VisualFormat.Tokens

/-!
# Views and their predicates

What the parser returns for a predicate, a list of them and a view. A predicate that compares with a
name is only read where no priority follows: the parser takes the mark for a part of the name.
-/

namespace GnustepGui.VisualFormat

open Scanner StateExcept

section

variable {V N : Type} [NatCast N] {p p' : GSAutoLayoutVFLParser V N} {numbers : NumberScanner N}

/-- The names and the options of a parser. -/
def GSAutoLayoutVFLParser.context (superview : V → Option V) (p : GSAutoLayoutVFLParser V N) :
    Context V N where
  metrics := p.metrics
  views := p.views
  superview := superview
  options := p.options

/-! ## Predicates -/

theorem parsePredicatedValue_eq_ok_iff {v : N × Option V} : parsePredicatedValue numbers p = .ok v p' ↔
      ∃ value rest, Value.Reads numbers.scanDouble [')', ','] value p.scanner rest ∧
        value.object p.metrics p.views = some v ∧ p' = p.scanTo rest := by
  refine parseValue_eq_ok_iff (fun _ _ _ => throw_ne_ok) (fun _ => rfl) fun n q q' w hmet hvw => ?_
  rw [get_bind, Value.object, ← hmet, ← hvw]
  cases hm : q.metrics n with
  | some metric => simp [pure_eq_ok_iff, eq_comm]
  | none =>
    cases hv : q.views n with
    | some view => simp [pure_eq_ok_iff, eq_comm]
    | none => simp [failParseWithMessage, throw_ne_ok]

theorem ReadsName.mem_of_next {after n s rest : List Char} {c : Char} (h : ReadsName after n s rest)
    (ha : ∀ d ∈ after, whitespaceAndNewline d = false) (hc : Next c rest) : c ∈ after := by
  cases rest with
  | nil => cases hc
  | cons d rest =>
    have hd := h.ends d rfl
    rw [hc.unique (next_cons (ha d hd))]
    exact hd

variable {s rest : List Char}

omit [NatCast N] in
/-- An object reads up to a priority mark too, but then it is not a name. -/
theorem object_reads_iff {value : Value N} : value.Reads numbers.scanDouble [')', ','] s rest ↔
      value.Reads numbers.scanDouble [')', ',', '@'] s rest ∧ ((∃ n, value = .name n) → ¬ Next '@' rest) := by
  constructor
  · intro h
    cases h with
    | number h =>
      refine ⟨.number h, ?_⟩
      rintro ⟨n, hn⟩
      cases hn
    | name h =>
      refine ⟨.name ⟨h.valid, h.token, fun c hc => ?_⟩, fun _ hnx => ?_⟩
      · have hm := h.ends c hc
        simp only [List.mem_cons, List.not_mem_nil, or_false] at hm
        rcases hm with rfl | rfl <;> decide
      · exact absurd (h.mem_of_next (none_of_marks rfl) hnx) (by decide)
  · rintro ⟨h, hno⟩
    cases h with
    | number h => exact .number h
    | @name n _ _ h =>
      refine .name ⟨h.valid, h.token, fun c hc => ?_⟩
      have hm := h.ends c hc
      simp only [List.mem_cons, List.not_mem_nil, or_false] at hm
      rcases hm with rfl | rfl | rfl
      · decide
      · decide
      · refine absurd ?_ (hno ⟨n, rfl⟩)
        cases rest with
        | nil => cases hc
        | cons d rest =>
          cases hc
          exact next_cons (by decide)

variable {pr : Predicate N}

theorem toObject_eq_some_iff {ctx : Context V N} {v : GSObjectOfPredicate V N} : pr.toObject numbers ctx = some v ↔
      pr.object.object ctx.metrics ctx.views = some (v.constant, v.view) ∧
        priorityOf numbers ctx.metrics pr.priority = some v.priority ∧ v.relation = pr.relation.getD .equal := by
  unfold Predicate.toObject
  simp only [Option.bind_eq_bind, Option.pure_def, Option.bind_eq_some_iff, Option.some_inj]
  constructor
  · rintro ⟨⟨c, w⟩, ho, priority, hp, rfl⟩
    exact ⟨ho, hp, rfl⟩
  · rintro ⟨ho, hp, hr⟩
    exact ⟨_, ho, _, hp, by rw [← hr]⟩

variable {superview : V → Option V}

variable (superview) in
theorem parseObjectOfPredicate_eq_ok_iff {v : GSObjectOfPredicate V N} : parseObjectOfPredicate numbers p = .ok v p' ↔
      ∃ (pr : Predicate N) (rest : List Char), pr.Reads numbers p.scanner rest ∧ ¬ pr.NamedWithPriority ∧
        pr.toObject numbers (p.context superview) = some v ∧ p' = p.scanTo rest := by
  constructor
  · intro h
    obtain ⟨relation, p₁, h₁, hrs⟩ := bind_eq_ok h
    obtain ⟨⟨constant, view⟩, p₂, h₂, hrs⟩ := bind_eq_ok hrs
    obtain ⟨priority, p₃, h₃, hret⟩ := bind_eq_ok hrs
    obtain ⟨rfl, rfl⟩ := pure_eq_ok_iff.1 hret
    obtain ⟨r, s₁, hr, rfl, rfl⟩ := parseRelation_eq_ok_iff.1 h₁
    obtain ⟨value, s₂, hv, ho, rfl⟩ := parsePredicatedValue_eq_ok_iff.1 h₂
    obtain ⟨written, rest, hwrt, hp, rfl⟩ := parsePriority_eq_ok_iff.1 h₃
    obtain ⟨hv, hnm⟩ := object_reads_iff.1 hv
    refine ⟨⟨r, value, written⟩, rest, ⟨s₁, s₂, hr, hv, hwrt⟩, ?_, toObject_eq_some_iff.2 ⟨ho, hp, rfl⟩, rfl⟩
    rintro ⟨hn, hp⟩
    cases hwrt with
    | unwritten => exact hp rfl
    | written hm => exact hnm hn (Token.next hm)
  · rintro ⟨pr, rest, ⟨s₁, s₂, hr, hv, hwrt⟩, hnam, ho, rfl⟩
    obtain ⟨ho, hp, hrel⟩ := toObject_eq_some_iff.1 ho
    have hv' := object_reads_iff.2 ⟨hv, fun hn hnx => by
      cases hw : pr.priority with
      | none =>
        rw [hw] at hwrt
        cases hwrt with
        | unwritten hno => exact hno hnx
      | some w => exact hnam ⟨hn, by rw [hw]; exact Option.some_ne_none w⟩⟩
    refine (bind_ok (parseRelation_eq_ok_iff.2 ⟨pr.relation, s₁, hr, rfl, rfl⟩)).trans ?_
    refine (bind_ok ((parsePredicatedValue_eq_ok_iff (p := p.scanTo s₁)).2 ⟨pr.object, s₂, hv', ho, rfl⟩)).trans ?_
    refine (bind_ok ((parsePriority_eq_ok_iff (p := p.scanTo s₂)).2 ⟨pr.priority, rest, hwrt, hp, rfl⟩)).trans ?_
    rw [← hrel]
    rfl

section

omit [NatCast N]

theorem ReadsRelation.length_le {r : Option NSLayoutRelation}
    (h : ReadsRelation r s rest) : rest.length ≤ s.length := by
  cases h with
  | unwritten => exact Nat.le_refl _
  | @written r _ _ hm =>
    cases r with
    | equal => exact Nat.le_of_lt (Token.length_lt hm)
    | greaterThanOrEqual => exact Nat.le_of_lt (Token.length_lt hm)
    | lessThanOrEqual => exact Nat.le_of_lt (Token.length_lt hm)

theorem ReadsPriority.length_le {written : Option (Nat × Value N)}
    (h : ReadsPriority numbers written s rest) : rest.length ≤ s.length := by
  cases h with
  | unwritten => exact Nat.le_refl _
  | written hm hp =>
    exact Nat.le_of_lt ((hp.length_lt numbers.readsDoubles).trans (Token.length_lt hm))

theorem Predicate.Reads.length_lt (h : pr.Reads numbers s rest) : rest.length < s.length := by
  obtain ⟨s₁, s₂, hr, hv, hw⟩ := h
  have h₁ := hr.length_le
  have h₂ := hv.length_lt numbers.readsDoubles
  have h₃ := hw.length_le
  omega

end

/-! ## Lists of predicates -/

variable {view : V} {vertical : Bool}

variable {ps : List (Predicate N)} {cs : List (NSLayoutConstraint V N)}

theorem predicateConstraints_cons {ctx : Context V N} :
    predicateConstraints numbers ctx vertical view (pr :: ps) = some cs ↔
      ∃ v cs', pr.toObject numbers ctx = some v ∧ predicateConstraints numbers ctx vertical view ps = some cs' ∧
        cs = createConstraintFromParsedPredicate vertical (some view) v :: cs' := by
  unfold predicateConstraints
  simp only [List.mapM_cons, Option.bind_eq_bind, Option.pure_def, Option.bind_eq_some_iff,
    Option.map_eq_some_iff, Option.some_inj]
  constructor
  · rintro ⟨_, ⟨v, hv, rfl⟩, cs', hc', rfl⟩
    exact ⟨v, cs', hv, hc', rfl⟩
  · rintro ⟨v, cs', hv, hc', rfl⟩
    exact ⟨_, ⟨v, hv, rfl⟩, cs', hc', rfl⟩

variable (superview) in
theorem parsePredicates_sound (fuel : Nat) {acc cs : List (NSLayoutConstraint V N)}
    (hv : p.view = some view) (h : parsePredicates numbers fuel acc p = .ok cs p') :
    ∃ ps cs' rest, (∀ s, Token [')'] rest s → ReadsPredicates numbers ps p.scanner s) ∧
      (∀ pr ∈ ps, ¬ pr.NamedWithPriority) ∧
      predicateConstraints numbers (p.context superview) p.isVerticalOrientation view ps = some cs' ∧
      cs = acc ++ cs' ∧ p' = p.scanTo rest := by
  induction fuel generalizing p acc with
  | zero => exact absurd h throw_ne_ok
  | succ fuel ih =>
    obtain ⟨v, p₁, h₁, hr⟩ := bind_eq_ok h
    obtain ⟨pr, s₁, hrd, hn, ho, rfl⟩ := (parseObjectOfPredicate_eq_ok_iff superview).1 h₁
    rw [get_bind] at hr
    obtain ⟨comma, p₂, h₂, hr⟩ := bind_eq_ok hr
    have hcr : createConstraintFromParsedPredicate (p.scanTo s₁).isVerticalOrientation
        (p.scanTo s₁).view v = createConstraintFromParsedPredicate p.isVerticalOrientation (some view) v := by
      rw [← hv]
      rfl
    rw [hcr] at hr
    rcases (scanMark_eq_ok_iff ',' rfl rfl).1 h₂ with ⟨rfl, s₂, hc, rfl⟩ | ⟨rfl, -, rfl⟩
    · obtain ⟨ps, cs', rest, hps, hn', hcs', rfl, rfl⟩ := ih (p := p.scanTo s₂) hv hr
      refine ⟨pr :: ps, _, rest, fun s hs => .cons hrd hc (hps s hs), ?_,
        predicateConstraints_cons.2 ⟨v, cs', ho, hcs', rfl⟩, List.append_cons .. |>.symm, rfl⟩
      rintro pr' (_ | ⟨_, hp'⟩)
      · exact hn
      · exact hn' pr' hp'
    · obtain ⟨rfl, rfl⟩ := pure_eq_ok_iff.1 hr
      refine ⟨[pr], _, s₁, fun s hs => .last hrd hs, ?_, predicateConstraints_cons.2 ⟨v, [], ho, rfl, rfl⟩, rfl, rfl⟩
      intro pr' hp'
      rw [List.mem_singleton.1 hp']
      exact hn

variable (superview) in
theorem parsePredicates_complete (hps : ReadsPredicates numbers ps s rest) (hn : ∀ pr ∈ ps, ¬ pr.NamedWithPriority)
    (fuel : Nat) (hf : s.length < fuel) (p : GSAutoLayoutVFLParser V N) (hs : p.scanner = s)
    (hv : p.view = some view) (acc : List (NSLayoutConstraint V N))
    (hcs : predicateConstraints numbers (p.context superview) p.isVerticalOrientation view ps = some cs) :
    ∃ s', Token [')'] s' rest ∧ parsePredicates numbers fuel acc p = .ok (acc ++ cs) (p.scanTo s') := by
  induction hps generalizing fuel p acc cs with
  | @last pr _ s₁ rest hr hcl =>
    subst hs
    obtain ⟨fuel, rfl⟩ := Nat.exists_eq_succ_of_ne_zero (Nat.ne_zero_of_lt hf)
    obtain ⟨v, cs', ho, hnil, rfl⟩ := predicateConstraints_cons.1 hcs
    cases hnil
    refine ⟨s₁, hcl, ?_⟩
    have hno : ¬ Next ',' s₁ := fun hnx => absurd (hnx.unique hcl.next) (by decide)
    refine (bind_ok ((parseObjectOfPredicate_eq_ok_iff superview).2
      ⟨pr, s₁, hr, hn pr List.mem_cons_self, ho, rfl⟩)).trans ?_
    rw [get_bind]
    refine (bind_ok ((scanMark_eq_ok_iff (p := p.scanTo s₁) ',' rfl rfl).2 (.inr ⟨rfl, hno, rfl⟩))).trans ?_
    rw [← hv]
    rfl
  | @cons pr ps _ s₁ s₂ rest hr hc hps ih =>
    subst hs
    obtain ⟨fuel, rfl⟩ := Nat.exists_eq_succ_of_ne_zero (Nat.ne_zero_of_lt hf)
    obtain ⟨v, cs', ho, hcs', rfl⟩ := predicateConstraints_cons.1 hcs
    have hsh : s₂.length < fuel := by
      have h₁ := hr.length_lt
      have h₂ := hc.length_lt
      omega
    obtain ⟨s', hcl, hp⟩ := ih (fun pr' hpr' => hn pr' (List.mem_cons_of_mem _ hpr')) fuel hsh
      (p.scanTo s₂) rfl hv
      (acc ++ [createConstraintFromParsedPredicate p.isVerticalOrientation (some view) v]) hcs'
    refine ⟨s', hcl, ?_⟩
    refine (bind_ok ((parseObjectOfPredicate_eq_ok_iff superview).2
      ⟨pr, s₁, hr, hn pr List.mem_cons_self, ho, rfl⟩)).trans ?_
    rw [get_bind]
    refine (bind_ok ((scanMark_eq_ok_iff (p := p.scanTo s₁) ',' rfl rfl).2 (.inl ⟨rfl, s₂, hc, rfl⟩))).trans ?_
    rw [← List.append_cons, ← hv] at hp
    rw [← hv]
    exact hp

variable (superview) in
theorem parsePredicateList_eq_ok_iff (hv : p.view = some view) : parsePredicateList numbers p = .ok cs p' ↔
      ∃ ps rest, ReadsPredicateList numbers ps p.scanner rest ∧ (∀ pr ∈ ps, ¬ pr.NamedWithPriority) ∧
        predicateConstraints numbers (p.context superview) p.isVerticalOrientation view ps = some cs ∧
        p' = p.scanTo rest := by
  constructor
  · intro h
    obtain ⟨found, p₁, h₁, hrs⟩ := bind_eq_ok h
    rcases (scanMark_eq_ok_iff '(' rfl rfl).1 h₁ with ⟨rfl, s₁, ho, rfl⟩ | ⟨rfl, hno, rfl⟩
    · simp only [if_true, get_bind] at hrs
      obtain ⟨cs', p₂, h₂, hrs⟩ := bind_eq_ok hrs
      obtain ⟨ps, _, s₂, hps, hn, hc, rfl, rfl⟩ := parsePredicates_sound superview (p := p.scanTo s₁) _ hv h₂
      obtain ⟨closed, p₃, h₃, hr⟩ := bind_eq_ok hrs
      rcases (scanMark_eq_ok_iff ')' rfl rfl).1 h₃ with ⟨rfl, rest, hcl, rfl⟩ | ⟨rfl, -, rfl⟩
      · obtain ⟨rfl, rfl⟩ := pure_eq_ok_iff.1 hr
        exact ⟨ps, rest, .written ho (hps rest hcl), hn, hc, rfl⟩
      · exact absurd hr throw_ne_ok
    · obtain ⟨rfl, rfl⟩ := pure_eq_ok_iff.1 hrs
      refine ⟨[], _, .unwritten hno, ?_, rfl, rfl⟩
      rintro pr ⟨⟩
  · rintro ⟨ps, rest, hrd, hn, hc, rfl⟩
    cases hrd with
    | unwritten hno =>
      cases hc
      exact bind_ok ((scanMark_eq_ok_iff '(' rfl rfl).2 (.inr ⟨rfl, hno, rfl⟩))
    | @written _ _ s₁ _ ho hps =>
      obtain ⟨s₂, hcl, hp⟩ := parsePredicates_complete superview hps hn
        (s₁.length + 1) (Nat.lt_succ_self _) (p.scanTo s₁) rfl hv [] hc
      refine (bind_ok ((scanMark_eq_ok_iff '(' rfl rfl).2 (.inl ⟨rfl, s₁, ho, rfl⟩))).trans ?_
      simp only [if_true, get_bind]
      refine (bind_ok hp).trans ?_
      exact bind_ok ((scanMark_eq_ok_iff (p := p.scanTo s₂) ')' rfl rfl).2 (.inl ⟨rfl, rest, hcl, rfl⟩))

/-! ## Views -/

section

omit [NatCast N]

/-- A run of one mark, or a failure. -/
theorem marks_eq_ok_iff {mark : Char} (set : String) (hs : set.toList = [mark]) (failure : Failure) :
    (scanCharactersFromSet set >>= fun marks => match marks with
      | some _ => pure ()
      | none => throw failure : ParserM V N Unit) p = .ok () p' ↔
      ∃ more rest, Token (List.replicate (more + 1) mark) p.scanner rest ∧ rest.head? ≠ some mark ∧
        p' = p.scanTo rest := by
  constructor
  · intro h
    obtain ⟨marks, p₁, h₁, hr⟩ := bind_eq_ok h
    rcases scan_eq_ok_iff.1 h₁ with ⟨t, rest, hrun, rfl, rfl⟩ | ⟨-, rfl, rfl⟩
    · obtain ⟨-, rfl⟩ := pure_eq_ok_iff.1 hr
      obtain ⟨more, hm, hrs⟩ := token_of_scanCharacters hs hrun
      exact ⟨more, rest, hm, hrs, rfl⟩
    · exact absurd hr throw_ne_ok
  · rintro ⟨more, rest, hm, hrs, rfl⟩
    exact bind_ok (scan_eq_ok_iff.2 (.inl ⟨_, rest, scanCharacters_of_token set hs hm hrs, rfl, rfl⟩))

theorem parseViewOpen_eq_ok_iff : parseViewOpen p = .ok () p' ↔
      ∃ more rest, Token (List.replicate (more + 1) '[') p.scanner rest ∧ rest.head? ≠ some '[' ∧ p' = p.scanTo rest :=
  marks_eq_ok_iff "[" rfl _

theorem parseViewClose_eq_ok_iff : parseViewClose p = .ok () p' ↔
      ∃ more rest, Token (List.replicate (more + 1) ']') p.scanner rest ∧ rest.head? ≠ some ']' ∧ p' = p.scanTo rest :=
  marks_eq_ok_iff "]" rfl _

theorem parseViewName_eq_ok_iff : parseViewName p = .ok view p' ↔
      ∃ n rest, ReadsName [']', '('] n p.scanner rest ∧ p.views n = some view ∧ p' = p.scanTo rest := by
  have ha : ∀ c ∈ [']', '('], isNameCharacter c = false := none_of_marks rfl
  constructor
  · intro h
    obtain ⟨name, p₁, h₁, hr⟩ := bind_eq_ok h
    rcases scan_eq_ok_iff.1 h₁ with ⟨n, rest, hup, rfl, rfl⟩ | ⟨-, rfl, rfl⟩
    · cases hvld : isValidIdentifier n with
      | false =>
        simp only [hvld] at hr
        exact absurd hr throw_ne_ok
      | true =>
        simp only [hvld, if_true, resolveViewWithIdentifier, get_bind] at hr
        cases hv : p.views n with
        | none =>
          have hv' : (p.scanTo rest).views n = none := hv
          rw [hv'] at hr
          exact absurd hr throw_ne_ok
        | some v =>
          have hv' : (p.scanTo rest).views n = some v := hv
          rw [hv'] at hr
          obtain ⟨rfl, rfl⟩ := pure_eq_ok_iff.1 hr
          exact ⟨n, rest, (readsName_iff ha).2 ⟨hvld, hup⟩, hv, rfl⟩
    · exact absurd hr throw_ne_ok
  · rintro ⟨n, rest, hn, hv, rfl⟩
    obtain ⟨hvld, hup⟩ := (readsName_iff ha).1 hn
    refine (bind_ok (scan_eq_ok_iff.2 (.inl ⟨n, rest, hup, rfl, rfl⟩))).trans ?_
    have hv' : (p.scanTo rest).views n = some view := hv
    simp only [hvld, if_true, resolveViewWithIdentifier, get_bind, hv']
    rfl

end

variable (superview) in
theorem parseView_eq_ok_iff :
    parseView numbers p = .ok cs p' ↔
      ∃ (v : ViewText N) (rest : List Char) (view : V), v.Reads numbers p.scanner rest ∧
        (∀ pr ∈ v.predicates, ¬ pr.NamedWithPriority) ∧ p.views v.name = some view ∧
        predicateConstraints numbers (p.context superview) p.isVerticalOrientation view v.predicates = some cs ∧
        p' = { p with scanner := rest, view := some view } := by
  constructor
  · intro h
    obtain ⟨⟨⟩, p₁, h₁, hrs⟩ := bind_eq_ok h
    obtain ⟨view, p₂, h₂, hrs⟩ := bind_eq_ok hrs
    rw [modify_bind] at hrs
    obtain ⟨cs', p₃, h₃, hrs⟩ := bind_eq_ok hrs
    obtain ⟨⟨⟩, p₄, h₄, hr⟩ := bind_eq_ok hrs
    obtain ⟨rfl, rfl⟩ := pure_eq_ok_iff.1 hr
    obtain ⟨opens, s₁, ho, -, rfl⟩ := parseViewOpen_eq_ok_iff.1 h₁
    obtain ⟨n, s₂, hnm, hv, rfl⟩ := parseViewName_eq_ok_iff.1 h₂
    obtain ⟨ps, s₃, hp, hn, hc, rfl⟩ := (parsePredicateList_eq_ok_iff superview rfl).1 h₃
    obtain ⟨closes, rest, hcl, he, rfl⟩ := parseViewClose_eq_ok_iff.1 h₄
    exact ⟨⟨opens, n, ps, closes⟩, rest, view, ⟨s₁, s₂, s₃, ho, hnm, hp, hcl, he⟩, hn, hv, hc, rfl⟩
  · rintro ⟨v, rest, view, ⟨s₁, s₂, s₃, ho, hnm, hp, hcl, he⟩, hn, hv, hc, rfl⟩
    have hh := hnm.head?_ne (d := '[') (by decide) (by decide)
    refine (bind_ok (parseViewOpen_eq_ok_iff.2 ⟨v.moreOpens, s₁, ho, hh, rfl⟩)).trans ?_
    refine (bind_ok ((parseViewName_eq_ok_iff (p := p.scanTo s₁)).2 ⟨v.name, s₂, hnm, hv, rfl⟩)).trans ?_
    rw [modify_bind]
    refine (bind_ok ((parsePredicateList_eq_ok_iff superview (p := { p.scanTo s₂ with view := some view })
      rfl).2 ⟨v.predicates, s₃, hp, hn, hc, rfl⟩)).trans ?_
    exact bind_ok ((parseViewClose_eq_ok_iff (p := { p.scanTo s₃ with view := some view })).2
      ⟨v.moreCloses, rest, hcl, he, rfl⟩)

section

omit [NatCast N]

theorem ReadsPredicates.length_lt (h : ReadsPredicates numbers ps s rest) : rest.length < s.length := by
  induction h with
  | last hr hcl => exact (Token.length_lt hcl).trans hr.length_lt
  | cons hr hc _ ih => exact (ih.trans (Token.length_lt hc)).trans hr.length_lt

theorem ReadsPredicateList.length_le (h : ReadsPredicateList numbers ps s rest) : rest.length ≤ s.length := by
  cases h with
  | unwritten => exact Nat.le_refl _
  | written ho hp => exact Nat.le_of_lt (hp.length_lt.trans (Token.length_lt ho))

theorem ViewText.Reads.length_lt {v : ViewText N} (h : v.Reads numbers s rest) : rest.length < s.length := by
  obtain ⟨s₁, s₂, s₃, ho, hn, hp, hc, -⟩ := h
  have h₁ : s₁.length < s.length := Token.length_lt ho
  have h₂ := hn.length_lt
  have h₃ := hp.length_le
  have h₄ : rest.length < s₃.length := Token.length_lt hc
  omega

end

end

end GnustepGui.VisualFormat
