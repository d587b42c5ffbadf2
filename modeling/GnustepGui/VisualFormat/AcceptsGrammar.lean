import GnustepGui.VisualFormat.Accepts

/-!
# The grammar and what the parser accepts

A parse that does not return raises an exception: its loops end (`parse_raises`). The parser accepts
the grammar on a text unless the text spells a format that is not well formed, or a well formed one with
a predicate that compares with a name and has a priority (`acceptsItsGrammar_iff`).
-/

namespace GnustepGui.VisualFormat

open Scanner StateExcept

/-! ## The loops end -/

section Raises

variable {V N : Type} {p : GSAutoLayoutVFLParser V N} {numbers : NumberScanner N}

/-- A parse that fails here raises an exception. -/
abbrev Ends {β : Type} (x : ParserM V N β) (p : GSAutoLayoutVFLParser V N) : Prop :=
  RaisesOnly (· ≠ Failure.outOfFuel) x p

theorem ends_raise {β : Type} (name : ExceptionName) (reason : String) :
    Ends (throw (.raised name reason) : ParserM V N β) p := RaisesOnly.throw nofun

theorem ends_ite {β : Type} {c : Prop} [Decidable c] {x y : ParserM V N β} (hx : Ends x p) (hy : Ends y p) :
    Ends (if c then x else y) p := by
  split
  · exact hx
  · exact hy

theorem ends_scan {β : Type} (read : List Char → Option (β × List Char)) : Ends (scan read) p := by
  intro e p' h
  unfold scan at h
  split at h <;> cases h

theorem ends_scanString (t : String) : Ends (scanString t) p := (ends_scan _).bind fun _ _ _ => .pure _

theorem ends_resolveMetric (n : List Char) : Ends (resolveMetricWithIdentifier n) p := by
  refine RaisesOnly.get.bind fun q _ _ => ?_
  cases q.metrics n with
  | none => exact ends_raise _ _
  | some metric => exact .pure _

theorem ends_parseOrientation : Ends (parseOrientation : ParserM V N Unit) p := by
  refine (ends_scanString _).bind fun found _ _ => ?_
  cases found with
  | false => exact (ends_scanString _).bind fun _ _ _ => .pure _
  | true => exact .modify _

theorem ends_parseSimplePredicate : Ends (parseSimplePredicate numbers) p := by
  refine (ends_scan _).bind fun read _ _ => ?_
  cases read with
  | some constant => exact .pure _
  | none =>
    refine (ends_scan _).bind fun name _ _ => ?_
    cases name with
    | none => exact .pure _
    | some n =>
      exact ends_ite ((ends_resolveMetric n).bind fun _ _ _ => .pure _) (ends_raise _ _)

theorem ends_parseIdentifier : Ends (parseIdentifier : ParserM V N (List Char)) p := by
  refine (ends_scan _).bind fun name _ _ => ?_
  cases name with
  | none => exact ends_raise _ _
  | some n => exact .pure _

theorem ends_parseConstant : Ends (parseConstant numbers) p := by
  refine (ends_scan _).bind fun read _ _ => ?_
  cases read with
  | some constant => exact .pure _
  | none =>
    refine ends_parseIdentifier.bind fun n _ _ => ?_
    exact ends_ite (ends_resolveMetric n) (ends_raise _ _)

theorem ends_parsePriority : Ends (parsePriority numbers) p := by
  refine (ends_scan _).bind fun marks _ _ => ?_
  cases marks with
  | none => exact .pure _
  | some _ => exact ends_parseConstant.bind fun _ _ _ => .pure _

theorem ends_parseRelation : Ends (parseRelation : ParserM V N NSLayoutRelation) p := by
  refine (ends_scanString _).bind fun found _ _ => ?_
  cases found with
  | true => exact .pure _
  | false =>
    refine (ends_scanString _).bind fun found _ _ => ?_
    cases found with
    | true => exact .pure _
    | false =>
      refine (ends_scanString _).bind fun found _ _ => ?_
      cases found <;> exact .pure _

theorem ends_parseViewOpen : Ends (parseViewOpen : ParserM V N Unit) p := by
  refine (ends_scan _).bind fun marks _ _ => ?_
  cases marks with
  | none => exact ends_raise _ _
  | some _ => exact .pure _

theorem ends_parseViewClose : Ends (parseViewClose : ParserM V N Unit) p := by
  refine (ends_scan _).bind fun marks _ _ => ?_
  cases marks with
  | none => exact ends_raise _ _
  | some _ => exact .pure _

theorem ends_parseViewName : Ends (parseViewName : ParserM V N V) p := by
  refine (ends_scan _).bind fun name _ _ => ?_
  cases name with
  | none => exact ends_raise _ _
  | some n =>
    refine ends_ite (RaisesOnly.get.bind fun q _ _ => ?_) (ends_raise _ _)
    cases q.views n with
    | none => exact ends_raise _ _
    | some view => exact .pure _

theorem ends_assertHasValidFormatLayoutOptions : Ends (assertHasValidFormatLayoutOptions : ParserM V N Unit) p := by
  refine RaisesOnly.get.bind fun q _ _ => ?_
  split
  · exact ends_raise _ _
  · split
    · exact ends_raise _ _
    · exact .pure _

theorem ends_layoutAttributesForLayoutFormatOptions (options : Nat) :
    Ends (layoutAttributesForLayoutFormatOptions options : ParserM V N (List NSLayoutAttribute)) p := by
  unfold layoutAttributesForLayoutFormatOptions
  simp only
  split
  · exact ends_raise _ _
  · exact .pure _

variable [NatCast N]

theorem ends_parseConnection : Ends (parseConnection numbers) p := by
  refine (ends_scanString _).bind fun found _ _ => ?_
  cases found with
  | false => exact .pure _
  | true =>
    refine ends_parseSimplePredicate.bind fun value _ _ => (ends_scanString _).bind fun closed _ _ => ?_
    split
    · exact ends_raise _ _
    · split
      · exact ends_raise _ _
      · exact .pure _

theorem ends_parseLeadingSuperViewConnection : Ends (parseLeadingSuperViewConnection numbers) p := by
  refine (ends_scanString _).bind fun found _ _ => ?_
  cases found with
  | false => exact .pure _
  | true => exact (RaisesOnly.modify _).bind fun _ _ _ => ends_parseConnection

theorem ends_parsePredicatedValue : Ends (parsePredicatedValue numbers : ParserM V N (N × Option V)) p := by
  refine (ends_scan _).bind fun read _ _ => ?_
  cases read with
  | some constant => exact .pure _
  | none =>
    refine ends_parseIdentifier.bind fun n _ _ => ?_
    refine ends_ite (RaisesOnly.get.bind fun q _ _ => ?_) (ends_raise _ _)
    cases q.metrics n with
    | some metric => exact .pure _
    | none =>
      cases q.views n with
      | some view => exact .pure _
      | none => exact ends_raise _ _

theorem ends_parseObjectOfPredicate : Ends (parseObjectOfPredicate numbers : ParserM V N (GSObjectOfPredicate V N)) p :=
  ends_parseRelation.bind fun _ _ _ => ends_parsePredicatedValue.bind fun _ _ _ =>
    ends_parsePriority.bind fun _ _ _ => .pure _

theorem ends_parsePredicates (fuel : Nat) (acc : List (NSLayoutConstraint V N))
    (hf : p.scanner.length < fuel) : Ends (parsePredicates numbers fuel acc) p := by
  induction fuel generalizing p acc with
  | zero => exact absurd hf (Nat.not_lt_zero _)
  | succ fuel ih =>
    refine ends_parseObjectOfPredicate.bind fun v p₁ h₁ => ?_
    refine RaisesOnly.get.bind fun q p₂ h₂ => (ends_scanString _).bind fun comma p₃ h₃ => ?_
    obtain ⟨pr, rest, hr, -, -, rfl⟩ := (parseObjectOfPredicate_eq_ok_iff fun _ => none).1 h₁
    cases h₂
    rcases (scanMark_eq_ok_iff ',' rfl rfl).1 h₃ with ⟨rfl, rest', hc, rfl⟩ | ⟨rfl, -, rfl⟩
    · refine ih _ ?_
      have hlt := hr.length_lt
      have hlt' : rest'.length < rest.length := Token.length_lt hc
      show rest'.length < fuel
      omega
    · exact .pure _

theorem ends_parsePredicateList :
    Ends (parsePredicateList numbers : ParserM V N (List (NSLayoutConstraint V N))) p := by
  refine (ends_scanString _).bind fun found _ _ => ?_
  cases found with
  | false => exact .pure _
  | true =>
    refine RaisesOnly.get.bind fun q p₁ h₁ => ?_
    cases h₁
    refine (ends_parsePredicates _ _ (Nat.lt_succ_self _)).bind fun cs _ _ =>
      (ends_scanString _).bind fun closed _ _ => ?_
    cases closed with
    | true => exact .pure _
    | false => exact ends_raise _ _

theorem ends_parseView : Ends (parseView numbers : ParserM V N (List (NSLayoutConstraint V N))) p :=
  ends_parseViewOpen.bind fun _ _ _ => ends_parseViewName.bind fun _ _ _ =>
    (RaisesOnly.modify _).bind fun _ _ _ => ends_parsePredicateList.bind fun _ _ _ =>
      ends_parseViewClose.bind fun _ _ _ => .pure _

theorem ends_addFormattingConstraints (lastView : Option V) :
    Ends (addFormattingConstraints lastView : ParserM V N Unit) p := by
  refine RaisesOnly.get.bind fun q _ _ => ?_
  split
  · exact ends_assertHasValidFormatLayoutOptions.bind fun _ _ _ => RaisesOnly.get.bind fun _ _ _ =>
      (ends_layoutAttributesForLayoutFormatOptions _).bind fun _ _ _ => .modify _
  · exact .pure _

variable [Neg N] {superview : V → Option V}

theorem ends_connectLeading (spacing : Option N) : Ends (connectLeading superview spacing) p := by
  refine RaisesOnly.get.bind fun q _ _ => ?_
  split
  · exact (RaisesOnly.modify _).bind fun _ _ _ => .modify _
  · exact .pure _

theorem ends_connectPrevious (spacing : Option N) (previous : Option V) :
    Ends (connectPrevious spacing previous) p := by
  cases previous with
  | none => exact .pure _
  | some v => exact (RaisesOnly.modify _).bind fun _ _ _ => ends_addFormattingConstraints _

theorem ends_connectTrailing (spacing : Option N) : Ends (connectTrailing superview spacing) p := by
  refine (ends_scanString _).bind fun found _ _ => ?_
  split
  · exact .modify _
  · exact .pure _

variable {p' : GSAutoLayoutVFLParser V N} {spacing : Option N}

theorem connectLeading_scanner (h : connectLeading superview spacing p = .ok () p') : p'.scanner = p.scanner := by
  unfold connectLeading at h
  rw [get_bind] at h
  split at h
  · cases h
    rfl
  · cases h
    rfl

omit [Neg N] in
theorem addFormattingConstraints_scanner {lastView : Option V}
    (h : addFormattingConstraints lastView p = .ok () p') : p'.scanner = p.scanner := by
  unfold addFormattingConstraints at h
  rw [get_bind] at h
  split at h
  · obtain ⟨⟨⟩, p₁, hv, h₁⟩ := bind_eq_ok h
    obtain ⟨-, rfl⟩ := assertHasValidFormatLayoutOptions_eq_ok_iff.1 hv
    rw [get_bind] at h₁
    obtain ⟨attributes, p₂, ha, h₂⟩ := bind_eq_ok h₁
    obtain ⟨-, -, rfl⟩ := layoutAttributesForLayoutFormatOptions_eq_ok_iff.1 ha
    cases h₂
    rfl
  · cases h
    rfl

theorem connectPrevious_scanner {previous : Option V}
    (h : connectPrevious spacing previous p = .ok () p') : p'.scanner = p.scanner := by
  cases previous with
  | none =>
    cases h
    rfl
  | some v =>
    obtain ⟨⟨⟩, p₁, ha, hf⟩ := bind_eq_ok h
    cases ha
    exact (addFormattingConstraints_scanner hf).trans rfl

theorem connectTrailing_length_le
    (h : connectTrailing superview spacing p = .ok () p') : p'.scanner.length ≤ p.scanner.length := by
  obtain ⟨found, p₁, hf, ha⟩ := bind_eq_ok h
  rcases (scanMark_eq_ok_iff '|' rfl rfl).1 hf with ⟨rfl, rest, hb, rfl⟩ | ⟨rfl, -, rfl⟩
  · cases ha
    exact Nat.le_of_lt (Token.length_lt hb)
  · cases ha
    exact Nat.le_refl _

/-- Each turn of the loop takes a view from the text. -/
theorem ends_parseViews (fuel : Nat) (spacing : Option N) (previous : Option V)
    (hf : p.scanner.length < fuel) : Ends (parseViews numbers superview fuel spacing previous) p := by
  induction fuel generalizing p spacing previous with
  | zero => exact absurd hf (Nat.not_lt_zero _)
  | succ fuel ih =>
    refine RaisesOnly.get.bind fun q p₁ h₁ => ?_
    cases h₁
    split
    · exact .pure _
    · refine ends_parseView.bind fun cs p₂ h₂ => (ends_connectLeading _).bind fun _ p₃ h₃ =>
        (ends_connectPrevious _ _).bind fun _ p₄ h₄ => (RaisesOnly.modify _).bind fun _ p₅ h₅ =>
        ends_parseConnection.bind fun spacing' p₆ h₆ => (ends_connectTrailing _).bind fun _ p₇ h₇ =>
        RaisesOnly.get.bind fun q p₈ h₈ => ?_
      obtain ⟨v, s₁, view, hr, -, -, -, rfl⟩ := (parseView_eq_ok_iff superview).1 h₂
      have hs := (connectPrevious_scanner h₄).trans (connectLeading_scanner h₃)
      cases h₅
      obtain ⟨c, s₂, hc, -, rfl⟩ := parseConnection_eq_ok_iff.1 h₆
      cases h₈
      have hv : s₁.length < p.scanner.length := hr.length_lt
      have hc : s₂.length ≤ p₄.scanner.length := hc.length_le
      have hb : p₇.scanner.length ≤ s₂.length := connectTrailing_length_le h₇
      have hs : p₄.scanner = s₁ := hs
      rw [hs] at hc
      exact ih _ _ (by omega)

theorem ends_parse : Ends (parse numbers superview) p := by
  refine RaisesOnly.get.bind fun q _ _ => ?_
  split
  · exact ends_raise _ _
  · refine ends_parseOrientation.bind fun _ _ _ => ends_parseLeadingSuperViewConnection.bind fun _ _ _ =>
      RaisesOnly.get.bind fun q p₁ h₁ => ?_
    cases h₁
    exact (ends_parseViews _ _ _ (Nat.lt_succ_self _)).bind fun _ _ _ =>
      (RaisesOnly.modify _).bind fun _ _ _ => RaisesOnly.get.bind fun _ _ _ => .pure _

theorem parse_raises (h : ∀ cs p', parse numbers superview p ≠ .ok cs p') :
    ∃ name reason p', parse numbers superview p = .error (.raised name reason) p' := by
  cases hp : parse numbers superview p with
  | ok cs p' => exact absurd hp (h cs p')
  | error e p' =>
    cases e with
    | raised name reason => exact ⟨name, reason, p', rfl⟩
    | outOfFuel => exact absurd rfl (ends_parse _ _ hp)

end Raises

/-! ## The grammar -/

section Grammar

variable {V N : Type} [NatCast N] [Neg N]

/-- The parser returns for the texts of the grammar, and then the constraints that are written; for every
other text it raises an exception. -/
structure AcceptsItsGrammar (numbers : NumberScanner N) (ctx : Context V N) (s : List Char) : Prop where
  accepts : ∀ cs, (∃ p', parse numbers ctx.superview (ctx.start s) = .ok cs p') ↔
    ∃ f : Format N, f.Reads numbers s ∧ f.WellFormed ∧ f.constraints numbers ctx = some cs
  raises : (∀ cs p', parse numbers ctx.superview (ctx.start s) ≠ .ok cs p') →
    ∃ name reason p', parse numbers ctx.superview (ctx.start s) = .error (.raised name reason) p'

variable {numbers : NumberScanner N} {ctx : Context V N} {s : List Char}

omit [NatCast N] [Neg N] in
theorem readable_iff {f : Format N} : Readable f.items ↔ ¬ f.NamedWithPriority := by
  simp only [Readable, Format.NamedWithPriority, not_exists, not_and]

end Grammar

/-! ## Doubled brackets -/

/-- A scanner of unsigned decimal integers. -/
def scanDigits (s : List Char) : Option (Int × List Char) :=
  (Scanner.scanCharacters whitespaceAndNewline Char.isDigit s).map fun (t, rest) =>
    (t.foldl (fun n c => 10 * n + (c.toNat - 48 : Nat)) 0, rest)

theorem readsNumbers_scanDigits : ReadsNumbers scanDigits := by
  intro s v rest h
  obtain ⟨⟨t, rest⟩, hsc, hv⟩ := Option.map_eq_some_iff.1 h
  cases hv
  obtain ⟨hne, ht, -, hs⟩ := scanCharacters_eq_some_iff.1 hsc
  obtain ⟨c, t, rfl⟩ := List.exists_cons_of_ne_nil hne
  refine ⟨c, t ++ rest, hs, ?_, List.suffix_append t rest⟩
  simp [digitSignOrPoint, ht c List.mem_cons_self]

def digitScanner : NumberScanner Int where
  scanFloat := scanDigits
  scanDouble := scanDigits
  numberWithFloat := id
  readsFloats := readsNumbers_scanDigits
  readsDoubles := readsNumbers_scanDigits

/-- One view, `a`, without a superview. -/
def oneView : Context Unit Int where
  metrics := fun _ => none
  views := fun n => if n = ['a'] then some () else none
  superview := fun _ => none
  options := 0

def doubledView : ViewText Int where
  moreOpens := 1
  name := ['a']
  predicates := []
  moreCloses := 0

def doubledFormat : Format Int where
  orientation := .unmarked
  leading := none
  items := [⟨doubledView, .flush, false⟩]

theorem doubledFormat_reads : doubledFormat.Reads digitScanner ['[', '[', 'a', ']'] := by
  have hn : ReadsName [']', '('] ['a'] ['a', ']'] [']'] := by
    refine ⟨rfl, rfl, fun c hc => ?_⟩
    cases hc
    exact List.mem_cons_self
  have hv : doubledView.Reads digitScanner ['[', '[', 'a', ']'] [] :=
    ⟨['a', ']'], [']'], [']'], rfl, hn, .unwritten (by decide), rfl, by decide⟩
  refine ⟨by decide, ['[', '[', 'a', ']'], ['[', '[', 'a', ']'], .unmarked fun vertical upperCase rest h => ?_,
    .unwritten (by decide), .cons hv (.flush (by decide)) (.unwritten (by decide)) (.nil rfl)⟩
  have hnx : Next '[' ['[', '[', 'a', ']'] := rfl
  have hm := hnx.unique (Token.next h)
  cases vertical <;> cases upperCase <;> cases hm

end GnustepGui.VisualFormat
