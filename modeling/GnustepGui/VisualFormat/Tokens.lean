import GnustepGui.VisualFormat.Readings

/-!
# The parser's tokens

What the smaller parsers return from a text, in terms of the readings of the grammar: connections and
predicate lists. Each moves the scanner and changes nothing else (`scanTo`).
-/

namespace GnustepGui.VisualFormat

open Scanner StateExcept

variable {V N : Type} {p p' : GSAutoLayoutVFLParser V N}

def GSAutoLayoutVFLParser.scanTo (p : GSAutoLayoutVFLParser V N) (rest : List Char) :
    GSAutoLayoutVFLParser V N :=
  { p with scanner := rest }

@[simp] theorem scanTo_self (p : GSAutoLayoutVFLParser V N) : p.scanTo p.scanner = p := rfl

@[simp] theorem scanTo_scanner (p : GSAutoLayoutVFLParser V N) (s : List Char) :
    (p.scanTo s).scanner = s := rfl

@[simp] theorem scanTo_scanTo (p : GSAutoLayoutVFLParser V N) (s s' : List Char) :
    (p.scanTo s).scanTo s' = p.scanTo s' := rfl

@[simp] theorem scanTo_metrics (p : GSAutoLayoutVFLParser V N) (s : List Char) :
    (p.scanTo s).metrics = p.metrics := rfl

/-! ## Scanning -/

section Scan

theorem scan_eq_ok_iff {β : Type} {read : List Char → Option (β × List Char)} {v : Option β} : scan read p = .ok v p' ↔
      (∃ w rest, read p.scanner = some (w, rest) ∧ v = some w ∧ p' = p.scanTo rest) ∨
        (read p.scanner = none ∧ v = none ∧ p' = p) := by
  unfold scan
  cases h : read p.scanner with
  | none => simp [eq_comm]
  | some r =>
    obtain ⟨w, rest⟩ := r
    constructor
    · intro heq
      cases heq
      exact .inl ⟨w, rest, rfl, rfl, rfl⟩
    · rintro (⟨w', rest', hr, rfl, rfl⟩ | ⟨hn, -⟩)
      · cases hr
        rfl
      · cases hn

theorem scanString_eq_ok_iff_of_reads {t : String} {R : List Char → Prop} {b : Bool}
    (hr : ∀ rest, Scanner.scanString whitespaceAndNewline sameLetter t.toList p.scanner = some rest ↔ R rest) :
    scanString t p = .ok b p' ↔
      (b = true ∧ ∃ rest, R rest ∧ p' = p.scanTo rest) ∨ (b = false ∧ (∀ rest, ¬ R rest) ∧ p' = p) := by
  unfold scanString
  cases h : Scanner.scanString whitespaceAndNewline sameLetter t.toList p.scanner with
  | none =>
    have hn : ∀ rest, ¬ R rest := fun rest hR => by
      rw [(hr rest).2 hR] at h
      cases h
    simp only [bind_eq_ok_iff, scan_eq_ok_iff, pure_eq_ok_iff, h, Option.map_none]
    constructor
    · rintro ⟨_, _, ⟨_, _, ⟨⟩, -⟩ | ⟨-, rfl, rfl⟩, rfl, rfl⟩
      exact .inr ⟨rfl, hn, rfl⟩
    · rintro (⟨-, rest, hR, -⟩ | ⟨rfl, -, rfl⟩)
      · exact absurd hR (hn rest)
      · exact ⟨_, _, .inr ⟨trivial, rfl, rfl⟩, rfl, rfl⟩
  | some rest =>
    have hR := (hr rest).1 h
    simp only [bind_eq_ok_iff, scan_eq_ok_iff, pure_eq_ok_iff, h, Option.map_some]
    constructor
    · rintro ⟨_, _, ⟨_, _, ⟨⟩, rfl, rfl⟩ | ⟨⟨⟩, -⟩, rfl, rfl⟩
      exact .inl ⟨rfl, rest, hR, rfl⟩
    · rintro (⟨rfl, rest', hR', rfl⟩ | ⟨-, hn, -⟩)
      · have hrs := (hr rest').2 hR'
        rw [h] at hrs
        cases hrs
        exact ⟨_, _, .inl ⟨(), rest, rfl, rfl, rfl⟩, rfl, rfl⟩
      · exact absurd hR (hn rest)

theorem scanString_eq_ok_iff {t : String} (ht : ∀ c ∈ t.toList, c.isAlpha = false) {b : Bool} :
    scanString t p = .ok b p' ↔ (b = true ∧ ∃ rest, Token t.toList p.scanner rest ∧ p' = p.scanTo rest) ∨
        (b = false ∧ (∀ rest, ¬ Token t.toList p.scanner rest) ∧ p' = p) :=
  scanString_eq_ok_iff_of_reads fun _ =>
    Scanner.scanString_eq_some_iff fun c hc d => by simp [sameLetter, ht c hc]

end Scan

theorem scanMark_eq_ok_iff {t : String} (c : Char) (ht : t.toList = [c]) (hc : c.isAlpha = false) {b : Bool} :
    scanString t p = .ok b p' ↔ (b = true ∧ ∃ rest, Token [c] p.scanner rest ∧ p' = p.scanTo rest) ∨
        (b = false ∧ ¬ Next c p.scanner ∧ p' = p) := by
  rw [scanString_eq_ok_iff (by simpa [ht] using hc), ht, next_iff_token, not_exists]

section Marks

variable {c : Char} {set : String} {s t rest : List Char}

theorem token_of_scanCharacters (hset : set.toList = [c])
    (h : scanCharacters whitespaceAndNewline set.toList.contains s = some (t, rest)) :
    ∃ more, Token (List.replicate (more + 1) c) s rest ∧ rest.head? ≠ some c := by
  rw [hset] at h
  obtain ⟨hne, ht, hrs, hs⟩ := scanCharacters_eq_some_iff.1 h
  have hr : t = List.replicate (t.length - 1 + 1) c := by
    rw [Nat.sub_add_cancel (List.length_pos_of_ne_nil hne)]
    exact List.eq_replicate_of_mem fun d hd => by simpa using ht d hd
  refine ⟨t.length - 1, hr ▸ hs, fun hh => ?_⟩
  simpa using hrs c hh

theorem scanCharacters_of_token {more : Nat} (set : String) (hs : set.toList = [c])
    (h : Token (List.replicate (more + 1) c) s rest) (hr : rest.head? ≠ some c) :
    scanCharacters whitespaceAndNewline set.toList.contains s = some (List.replicate (more + 1) c, rest) := by
  rw [hs]
  refine scanCharacters_eq_some_iff.2 ⟨List.cons_ne_nil _ _, fun d hd => ?_, fun d hd => ?_, h⟩
  · simpa using List.eq_of_mem_replicate hd
  · have hne : d ≠ c := fun hdc => hr (hdc ▸ hd)
    simpa using hne

theorem scanCharacters_eq_none_iff_not_next (hs : set.toList = [c]) :
    scanCharacters whitespaceAndNewline set.toList.contains s = none ↔ ¬ Next c s := by
  rw [hs, scanCharacters_eq_none_iff]
  constructor
  · intro h hn
    simpa using h c hn
  · intro h d hd
    have hne : d ≠ c := fun hdc => h (hdc ▸ hd)
    simpa using hne

end Marks

/-! ## Orientations -/

theorem sameLetter_iff {c : Char} (vertical : Bool) :
    sameLetter (if vertical then 'V' else 'H') c = true ↔
      ∃ upperCase, (orientationMark vertical upperCase).head? = some c := by
  have hn : ∀ d : Char, c.toNat = d.toNat → d = c := fun d h => (Char.toNat_inj.1 h).symm
  constructor
  · intro h
    simp only [sameLetter, Bool.or_eq_true, beq_iff_eq, Bool.and_eq_true, Char.isAlpha, Char.isUpper,
      Char.isLower, decide_eq_true_eq] at h
    rcases h with rfl | ⟨⟨-, hc⟩, hm⟩
    · cases vertical
      · exact ⟨true, rfl⟩
      · exact ⟨true, rfl⟩
    · have hr : (65 ≤ c.toNat ∧ c.toNat ≤ 90) ∨ (97 ≤ c.toNat ∧ c.toNat ≤ 122) := hc
      cases vertical with
      | true =>
        have hm' : 22 = c.toNat % 32 := hm
        have hc : c.toNat = 86 ∨ c.toNat = 118 := by omega
        rcases hc with hc | hc
        · exact ⟨true, congrArg some (hn 'V' hc)⟩
        · exact ⟨false, congrArg some (hn 'v' hc)⟩
      | false =>
        have hm' : 8 = c.toNat % 32 := hm
        have hc : c.toNat = 72 ∨ c.toNat = 104 := by omega
        rcases hc with hc | hc
        · exact ⟨true, congrArg some (hn 'H' hc)⟩
        · exact ⟨false, congrArg some (hn 'h' hc)⟩
  · rintro ⟨upperCase, h⟩
    cases vertical <;> cases upperCase <;> cases h <;> decide

theorem scanOrientation_eq_ok_iff (vertical : Bool) {t : String}
    (ht : t.toList = [if vertical then 'V' else 'H', ':']) {b : Bool} :
    scanString t p = .ok b p' ↔
      (b = true ∧ ∃ rest, (∃ upperCase, Token (orientationMark vertical upperCase) p.scanner rest) ∧
        p' = p.scanTo rest) ∨
      (b = false ∧ (∀ rest, ¬ ∃ upperCase, Token (orientationMark vertical upperCase) p.scanner rest) ∧
        p' = p) := by
  refine scanString_eq_ok_iff_of_reads fun rest => ?_
  have hcol : ∀ d, sameLetter ':' d = true ↔ ':' = d := fun d => by simp [sameLetter, Char.isAlpha]
  rw [ht, Scanner.scanString, stripPrefix_eq_some_iff]
  constructor
  · rintro ⟨u, hs, hu⟩
    obtain ⟨c, u₁, hc, hu₁, rfl⟩ := List.forall₂_cons_left_iff.1 hu
    obtain ⟨d, u₂, hd, hu₂, rfl⟩ := List.forall₂_cons_left_iff.1 hu₁
    cases List.forall₂_nil_left_iff.1 hu₂
    obtain ⟨upperCase, hm⟩ := (sameLetter_iff vertical).1 hc
    cases (hcol d).1 hd
    cases hm
    exact ⟨upperCase, hs⟩
  · rintro ⟨upperCase, h⟩
    exact ⟨orientationMark vertical upperCase, h, .cons ((sameLetter_iff vertical).2 ⟨upperCase, rfl⟩)
      (.cons ((hcol ':').2 rfl) .nil)⟩

theorem parseOrientation_eq_ok_iff :
    parseOrientation p = .ok () p' ↔
      ∃ o rest, Orientation.Reads o p.scanner rest ∧
        p' = { p.scanTo rest with isVerticalOrientation := p.isVerticalOrientation || o.vertical } := by
  have hv (b) (q : GSAutoLayoutVFLParser V N) : scanString "V:" p = .ok b q ↔ _ := scanOrientation_eq_ok_iff true rfl
  have hh (b) (q : GSAutoLayoutVFLParser V N) : scanString "H:" p = .ok b q ↔ _ := scanOrientation_eq_ok_iff false rfl
  constructor
  · intro h
    obtain ⟨b₁, q₁, hb₁, h₁⟩ := bind_eq_ok h
    rcases (hv b₁ q₁).1 hb₁ with ⟨rfl, rest, ⟨upperCase, hm⟩, rfl⟩ | ⟨rfl, hn₁, rfl⟩
    · cases h₁
      exact ⟨.marked true upperCase, rest, .marked hm, by simp [Orientation.vertical]⟩
    obtain ⟨b₂, q₂, hb₂, h₂⟩ := bind_eq_ok h₁
    cases h₂
    rcases (hh b₂ p').1 hb₂ with ⟨rfl, rest, ⟨upperCase, hm⟩, rfl⟩ | ⟨rfl, hn₂, rfl⟩
    · refine ⟨.marked false upperCase, rest, .marked hm, ?_⟩
      simp only [Orientation.vertical, Bool.or_false]
      rfl
    · refine ⟨.unmarked, _, .unmarked fun vertical upperCase rest ht => ?_, by simp [Orientation.vertical]⟩
      cases vertical with
      | true => exact hn₁ rest ⟨upperCase, ht⟩
      | false => exact hn₂ rest ⟨upperCase, ht⟩
  · rintro ⟨o, rest, hr, rfl⟩
    cases hr with
    | unmarked hn =>
      refine (bind_ok ((hv false p).2 (.inr ⟨rfl, fun rest h => ?_, rfl⟩))).trans ?_
      · exact hn true h.choose rest h.choose_spec
      refine (bind_ok ((hh false p).2 (.inr ⟨rfl, fun rest h => ?_, rfl⟩))).trans ?_
      · exact hn false h.choose rest h.choose_spec
      simp [Orientation.vertical, pure_run]
    | @marked vertical upperCase _ _ hm =>
      cases vertical with
      | true =>
        refine (bind_ok ((hv true _).2 (.inl ⟨rfl, rest, ⟨upperCase, hm⟩, rfl⟩))).trans ?_
        simp [Orientation.vertical, modify_run]
      | false =>
        refine (bind_ok ((hv false p).2 (.inr ⟨rfl, fun rest' h => ?_, rfl⟩))).trans ?_
        · obtain ⟨upperCase', h⟩ := h
          cases (orientationMark_unique hm h).1.1
        refine (bind_ok ((hh true _).2 (.inl ⟨rfl, rest, ⟨upperCase, hm⟩, rfl⟩))).trans ?_
        simp only [Orientation.vertical, Bool.or_false]
        rfl

/-! ## Connections -/

theorem resolveMetric_eq_ok_iff {n : List Char} {v : N} :
    resolveMetricWithIdentifier n p = .ok v p' ↔ p.metrics n = some v ∧ p' = p := by
  unfold resolveMetricWithIdentifier
  rw [get_bind]
  cases h : p.metrics n with
  | none => simp [failParseWithMessage, throw_ne_ok]
  | some metric => simp [pure_eq_ok_iff, eq_comm]

section Numbers

variable {numbers : NumberScanner N}

theorem parseSimplePredicate_eq_ok_iff {v : Option N} : parseSimplePredicate numbers p = .ok v p' ↔
      (v = none ∧ p' = p ∧ numbers.scanFloat p.scanner = none ∧
          ∀ c ∈ (skip whitespaceAndNewline p.scanner).head?, c ∈ ['-', '[', '|']) ∨
        ∃ value rest n, Value.Reads numbers.scanFloat ['-', '[', '|'] value p.scanner rest ∧
          value.metric p.metrics = some n ∧ v = some n ∧ p' = p.scanTo rest := by
  have ha : ∀ c ∈ ['-', '[', '|'], isNameCharacter c = false := none_of_marks rfl
  constructor
  · intro h
    obtain ⟨read, p₁, hrd, hrs⟩ := bind_eq_ok h
    rcases scan_eq_ok_iff.1 hrd with ⟨n, rest, hf, rfl, rfl⟩ | ⟨hf, rfl, rfl⟩
    · obtain ⟨rfl, rfl⟩ := pure_eq_ok_iff.1 hrs
      exact .inr ⟨.number n, rest, n, .number hf, rfl, rfl, rfl⟩
    obtain ⟨name, p₂, hn, hr⟩ := bind_eq_ok hrs
    rcases scan_eq_ok_iff.1 hn with ⟨n, rest, hup, rfl, rfl⟩ | ⟨hup, rfl, rfl⟩
    · cases hv : isValidIdentifier n with
      | false =>
        simp only [hv] at hr
        exact absurd hr throw_ne_ok
      | true =>
        simp only [hv, if_true] at hr
        obtain ⟨metric, p₃, hres, hp⟩ := bind_eq_ok hr
        obtain ⟨hm, rfl⟩ := resolveMetric_eq_ok_iff.1 hres
        obtain ⟨rfl, rfl⟩ := pure_eq_ok_iff.1 hp
        exact .inr ⟨.name n, rest, metric, .name ((readsName_iff ha).2 ⟨hv, hup⟩), hm, rfl, rfl⟩
    · obtain ⟨rfl, rfl⟩ := pure_eq_ok_iff.1 hr
      exact .inl ⟨rfl, rfl, hf, fun c hc => by simpa using scanUpTo_eq_none_iff.1 hup c hc⟩
  · unfold parseSimplePredicate
    rintro (⟨rfl, rfl, hf, hnx⟩ | ⟨value, rest, n, hval, hm, rfl, rfl⟩)
    · rw [bind_ok (scan_eq_ok_iff.2 (.inr ⟨hf, rfl, rfl⟩))]
      have hup : scanUpTo whitespaceAndNewline "-[|".toList.contains p'.scanner = none :=
        scanUpTo_eq_none_iff.2 fun c hc => by simpa using hnx c hc
      exact bind_ok (scan_eq_ok_iff.2 (.inr ⟨hup, rfl, rfl⟩))
    · cases hval with
      | number hf =>
        cases hm
        exact bind_ok (scan_eq_ok_iff.2 (.inl ⟨n, rest, hf, rfl, rfl⟩))
      | @name name _ _ hn =>
        obtain ⟨c, hnx, hc⟩ := hn.next
        have hf := numbers.readsFloats.none_of_next hnx (identifierStart_not_number hc)
        obtain ⟨hv, hup⟩ := (readsName_iff ha).1 hn
        rw [bind_ok (scan_eq_ok_iff.2 (.inr ⟨hf, rfl, rfl⟩))]
        refine (bind_ok (scan_eq_ok_iff.2 (.inl ⟨name, rest, hup, rfl, rfl⟩))).trans ?_
        simp only [hv, if_true]
        exact bind_ok (resolveMetric_eq_ok_iff.2 ⟨hm, rfl⟩)

theorem next_of_stops {s : List Char}
    (hn : ∀ c ∈ (skip whitespaceAndNewline s).head?, c ∈ ['-', '[', '|']) (hno : ¬ Next '-' s) :
    Next '[' s ∨ Next '|' s ∨ AtEnd s := by
  cases hs : (skip whitespaceAndNewline s).head? with
  | none => exact .inr (.inr (List.head?_eq_none_iff.1 hs))
  | some c =>
    have hc := hn c hs
    simp only [List.mem_cons, List.not_mem_nil, or_false] at hc
    rcases hc with rfl | rfl | rfl
    · exact absurd hs hno
    · exact .inl hs
    · exact .inr (.inl hs)

theorem stops_of_next (numbers : NumberScanner N) {s : List Char} (h : Next '[' s ∨ Next '|' s ∨ AtEnd s) :
    (numbers.scanFloat s = none ∧ ∀ c ∈ (skip whitespaceAndNewline s).head?, c ∈ ['-', '[', '|']) ∧ ¬ Next '-' s := by
  rcases h with h | h | h
  · refine ⟨⟨numbers.readsFloats.none_of_next h rfl, fun c hc => ?_⟩, fun hm => ?_⟩
    · rw [Next.unique hc h]
      decide
    · cases hm.unique h
  · refine ⟨⟨numbers.readsFloats.none_of_next h rfl, fun c hc => ?_⟩, fun hm => ?_⟩
    · rw [Next.unique hc h]
      decide
    · cases hm.unique h
  · have hn : numbers.scanFloat s = none := by
      cases hs : numbers.scanFloat s with
      | none => rfl
      | some r =>
        obtain ⟨c, hc, -⟩ := numbers.readsFloats.next hs
        exact absurd h hc.not_atEnd
    refine ⟨⟨hn, fun c hc => ?_⟩, fun hm => hm.not_atEnd h⟩
    rw [h] at hc
    cases hc

variable [NatCast N]

theorem parseConnection_eq_ok_iff {v : Option N} : parseConnection numbers p = .ok v p' ↔
      ∃ c rest, Connection.Reads numbers c p.scanner rest ∧ c.spacing p.metrics = some v ∧ p' = p.scanTo rest := by
  constructor
  · intro h
    obtain ⟨found, p₁, hf, hrs⟩ := bind_eq_ok h
    rcases (scanMark_eq_ok_iff '-' rfl rfl).1 hf with ⟨rfl, s₁, ho, rfl⟩ | ⟨rfl, hn, rfl⟩
    · obtain ⟨value, p₂, hv, hrs⟩ := bind_eq_ok hrs
      obtain ⟨closed, p₃, hc, hr⟩ := bind_eq_ok hrs
      rcases parseSimplePredicate_eq_ok_iff.1 hv with
        ⟨rfl, rfl, -, hnx⟩ | ⟨value, s₂, n, hrd, hm, rfl, rfl⟩
      · rcases (scanMark_eq_ok_iff '-' rfl rfl).1 hc with ⟨rfl, _, -, rfl⟩ | ⟨rfl, hn, rfl⟩
        · exact absurd hr throw_ne_ok
        · obtain ⟨rfl, rfl⟩ := pure_eq_ok_iff.1 hr
          exact ⟨.standard, s₁, .standard ho (next_of_stops hnx hn), rfl, rfl⟩
      · rcases (scanMark_eq_ok_iff '-' rfl rfl).1 hc with ⟨rfl, rest, hcl, rfl⟩ | ⟨rfl, -, rfl⟩
        · obtain ⟨rfl, rfl⟩ := pure_eq_ok_iff.1 hr
          exact ⟨.spaced value, rest, .spaced ho hrd hcl, congrArg (Option.map some) hm, rfl⟩
        · exact absurd hr throw_ne_ok
    · obtain ⟨rfl, rfl⟩ := pure_eq_ok_iff.1 hrs
      exact ⟨.flush, _, .flush hn, rfl, rfl⟩
  · rintro ⟨c, rest, hrd, hs, rfl⟩
    cases hrd with
    | flush hn =>
      cases hs
      exact bind_ok ((scanMark_eq_ok_iff '-' rfl rfl).2 (.inr ⟨rfl, hn, rfl⟩))
    | standard ho hnx =>
      cases hs
      obtain ⟨hst, hn⟩ := stops_of_next numbers hnx
      refine (bind_ok ((scanMark_eq_ok_iff '-' rfl rfl).2 (.inl ⟨rfl, rest, ho, rfl⟩))).trans ?_
      refine (bind_ok (parseSimplePredicate_eq_ok_iff.2 (.inl ⟨rfl, rfl, hst⟩))).trans ?_
      exact bind_ok ((scanMark_eq_ok_iff '-' rfl rfl).2 (.inr ⟨rfl, hn, rfl⟩))
    | @spaced value _ s₁ s₂ _ ho hv hcl =>
      obtain ⟨n, hm, rfl⟩ := Option.map_eq_some_iff.1 hs
      refine (bind_ok ((scanMark_eq_ok_iff '-' rfl rfl).2 (.inl ⟨rfl, s₁, ho, rfl⟩))).trans ?_
      refine (bind_ok ((parseSimplePredicate_eq_ok_iff (p := p.scanTo s₁)).2
        (.inr ⟨value, s₂, n, hv, hm, rfl, rfl⟩))).trans ?_
      exact bind_ok ((scanMark_eq_ok_iff '-' rfl rfl).2 (.inl ⟨rfl, rest, hcl, rfl⟩))

theorem parseLeadingSuperViewConnection_eq_ok_iff {v : Option N} :
    parseLeadingSuperViewConnection numbers p = .ok v p' ↔
      ∃ leading rest, ReadsLeading numbers leading p.scanner rest ∧
        (∀ c ∈ leading, c.spacing p.metrics = some v) ∧ (leading = none → v = none) ∧
        p' = { p.scanTo rest with
          createLeadingConstraintToSuperview := p.createLeadingConstraintToSuperview || leading.isSome } := by
  constructor
  · intro h
    obtain ⟨found, p₁, h₁, hr⟩ := bind_eq_ok h
    rcases (scanMark_eq_ok_iff '|' rfl rfl).1 h₁ with ⟨rfl, s₁, hb, rfl⟩ | ⟨rfl, hn, rfl⟩
    · simp only [if_true, modify_bind] at hr
      obtain ⟨c, rest, hrd, hs, rfl⟩ := parseConnection_eq_ok_iff.1 hr
      refine ⟨some c, rest, .written hb hrd, ?_, nofun, by simp [GSAutoLayoutVFLParser.scanTo]⟩
      rintro _ ⟨⟩
      exact hs
    · obtain ⟨rfl, rfl⟩ := pure_eq_ok_iff.1 hr
      exact ⟨none, _, .unwritten hn, nofun, fun _ => rfl, by simp⟩
  · rintro ⟨leading, rest, hrd, hs, hnn, rfl⟩
    cases hrd with
    | unwritten hn =>
      cases hnn rfl
      refine (bind_ok ((scanMark_eq_ok_iff '|' rfl rfl).2 (.inr ⟨rfl, hn, rfl⟩))).trans ?_
      simp [pure_run]
    | @written c _ s₁ _ hb hc =>
      refine (bind_ok ((scanMark_eq_ok_iff '|' rfl rfl).2 (.inl ⟨rfl, s₁, hb, rfl⟩))).trans ?_
      simp only [if_true, modify_bind]
      refine (parseConnection_eq_ok_iff (p := { p.scanTo s₁ with
        createLeadingConstraintToSuperview := true })).2 ⟨c, rest, hc, hs c rfl, ?_⟩
      simp [GSAutoLayoutVFLParser.scanTo]

end Numbers

/-! ## Predicates -/

theorem parseRelation_eq_ok_iff {r : NSLayoutRelation} : parseRelation p = .ok r p' ↔
      ∃ written rest, ReadsRelation written p.scanner rest ∧ r = written.getD .equal ∧ p' = p.scanTo rest := by
  have heq (b) (q : GSAutoLayoutVFLParser V N) : scanString "==" p = .ok b q ↔ _ :=
    scanString_eq_ok_iff (none_of_marks rfl)
  have hg (b) (q : GSAutoLayoutVFLParser V N) : scanString ">=" p = .ok b q ↔ _ :=
    scanString_eq_ok_iff (none_of_marks rfl)
  have hl (b) (q : GSAutoLayoutVFLParser V N) : scanString "<=" p = .ok b q ↔ _ :=
    scanString_eq_ok_iff (none_of_marks rfl)
  constructor
  · intro h
    obtain ⟨b₁, q₁, hb₁, h₁⟩ := bind_eq_ok h
    rcases (heq b₁ q₁).1 hb₁ with ⟨rfl, rest, hm, rfl⟩ | ⟨rfl, hn₁, rfl⟩
    · obtain ⟨rfl, rfl⟩ := pure_eq_ok_iff.1 h₁
      exact ⟨some .equal, rest, .written hm, rfl, rfl⟩
    obtain ⟨b₂, q₂, hb₂, h₂⟩ := bind_eq_ok h₁
    rcases (hg b₂ q₂).1 hb₂ with ⟨rfl, rest, hm, rfl⟩ | ⟨rfl, hn₂, rfl⟩
    · obtain ⟨rfl, rfl⟩ := pure_eq_ok_iff.1 h₂
      exact ⟨some .greaterThanOrEqual, rest, .written hm, rfl, rfl⟩
    obtain ⟨b₃, q₃, hb₃, h₃⟩ := bind_eq_ok h₂
    rcases (hl b₃ q₃).1 hb₃ with ⟨rfl, rest, hm, rfl⟩ | ⟨rfl, hn₃, rfl⟩
    · obtain ⟨rfl, rfl⟩ := pure_eq_ok_iff.1 h₃
      exact ⟨some .lessThanOrEqual, rest, .written hm, rfl, rfl⟩
    · obtain ⟨rfl, rfl⟩ := pure_eq_ok_iff.1 h₃
      refine ⟨none, _, .unwritten fun r rest => ?_, rfl, rfl⟩
      cases r with
      | equal => exact hn₁ rest
      | greaterThanOrEqual => exact hn₂ rest
      | lessThanOrEqual => exact hn₃ rest
  · rintro ⟨written, rest, hr, rfl, rfl⟩
    cases hr with
    | unwritten hn =>
      refine (bind_ok ((heq false p).2 (.inr ⟨rfl, hn .equal, rfl⟩))).trans ?_
      refine (bind_ok ((hg false p).2 (.inr ⟨rfl, hn .greaterThanOrEqual, rfl⟩))).trans ?_
      exact bind_ok ((hl false p).2 (.inr ⟨rfl, hn .lessThanOrEqual, rfl⟩))
    | @written r _ _ hm =>
      have hother : ∀ r', r' ≠ r → ∀ rest, ¬ Token (NSLayoutRelation.mark r') p.scanner rest :=
        fun r' hne rest' h => hne (mark_unique h hm).1
      cases r with
      | equal => exact bind_ok ((heq true _).2 (.inl ⟨rfl, rest, hm, rfl⟩))
      | greaterThanOrEqual =>
        refine (bind_ok ((heq false p).2 (.inr ⟨rfl, hother .equal (by decide), rfl⟩))).trans ?_
        exact bind_ok ((hg true _).2 (.inl ⟨rfl, rest, hm, rfl⟩))
      | lessThanOrEqual =>
        refine (bind_ok ((heq false p).2 (.inr ⟨rfl, hother .equal (by decide), rfl⟩))).trans ?_
        refine (bind_ok ((hg false p).2
          (.inr ⟨rfl, hother .greaterThanOrEqual (by decide), rfl⟩))).trans ?_
        exact bind_ok ((hl true _).2 (.inl ⟨rfl, rest, hm, rfl⟩))

theorem parseIdentifier_eq_ok_iff {n : List Char} (hv : isValidIdentifier n = true) : parseIdentifier p = .ok n p' ↔
      ∃ rest, ReadsName [')', ','] n p.scanner rest ∧ p' = p.scanTo rest := by
  have ha : ∀ c ∈ [')', ','], isNameCharacter c = false := none_of_marks rfl
  constructor
  · intro h
    obtain ⟨read, p₁, hrd, hr⟩ := bind_eq_ok h
    rcases scan_eq_ok_iff.1 hrd with ⟨name, rest, hup, rfl, rfl⟩ | ⟨-, rfl, rfl⟩
    · obtain ⟨rfl, rfl⟩ := pure_eq_ok_iff.1 hr
      exact ⟨rest, (readsName_iff ha).2 ⟨hv, hup⟩, rfl⟩
    · exact absurd hr throw_ne_ok
  · rintro ⟨rest, hn, rfl⟩
    exact bind_ok (scan_eq_ok_iff.2 (.inl ⟨n, rest, ((readsName_iff ha).1 hn).2, rfl, rfl⟩))

section Numbers

variable {numbers : NumberScanner N}

theorem parseValue_eq_ok_iff {β : Type} {v : β} {onNumber : N → β} {fail : ParserM V N β}
    {onName : List Char → ParserM V N β} (hf : ∀ q q' w, fail q ≠ .ok w q') {meaning : Value N → Option β}
    (hn : ∀ n, meaning (.number n) = some (onNumber n))
    (hnm : ∀ n q q' w, q.metrics = p.metrics → q.views = p.views →
      (onName n q = .ok w q' ↔ meaning (.name n) = some w ∧ q' = q)) :
    (do
        match ← scan numbers.scanDouble with
        | some constant => return onNumber constant
        | none =>
          let identifier ← parseIdentifier
          if isValidIdentifier identifier then onName identifier else fail : ParserM V N β) p = .ok v p' ↔
      ∃ value rest, Value.Reads numbers.scanDouble [')', ','] value p.scanner rest ∧
        meaning value = some v ∧ p' = p.scanTo rest := by
  constructor
  · intro h
    obtain ⟨read, p₁, hre, hrs⟩ := bind_eq_ok h
    rcases scan_eq_ok_iff.1 hre with ⟨n, rest, hd, rfl, rfl⟩ | ⟨hd, rfl, rfl⟩
    · obtain ⟨rfl, rfl⟩ := pure_eq_ok_iff.1 hrs
      exact ⟨.number n, rest, .number hd, hn n, rfl⟩
    obtain ⟨n, p₂, hi, hu⟩ := bind_eq_ok hrs
    cases hv : isValidIdentifier n with
    | false =>
      simp only [hv] at hu
      exact absurd hu (hf _ _ _)
    | true =>
      simp only [hv, if_true] at hu
      obtain ⟨rest, hr, rfl⟩ := (parseIdentifier_eq_ok_iff hv).1 hi
      obtain ⟨hm, rfl⟩ := (hnm n (p₁.scanTo rest) _ _ rfl rfl).1 hu
      exact ⟨.name n, rest, .name hr, hm, rfl⟩
  · rintro ⟨value, rest, hr, hm, rfl⟩
    cases hr with
    | number hd =>
      rw [hn] at hm
      cases hm
      exact bind_ok (scan_eq_ok_iff.2 (.inl ⟨_, rest, hd, rfl, rfl⟩))
    | @name n _ _ hr =>
      obtain ⟨c, hnx, hc⟩ := hr.next
      have hd := numbers.readsDoubles.none_of_next hnx (identifierStart_not_number hc)
      refine (bind_ok (scan_eq_ok_iff.2 (.inr ⟨hd, rfl, rfl⟩))).trans ?_
      refine (bind_ok ((parseIdentifier_eq_ok_iff hr.valid).2 ⟨rest, hr, rfl⟩)).trans ?_
      simp only [hr.valid, if_true]
      exact (hnm n (p.scanTo rest) _ _ rfl rfl).2 ⟨hm, rfl⟩

theorem parseConstant_eq_ok_iff {v : N} : parseConstant numbers p = .ok v p' ↔
      ∃ value rest, Value.Reads numbers.scanDouble [')', ','] value p.scanner rest ∧
        value.priority numbers p.metrics = some v ∧ p' = p.scanTo rest :=
  parseValue_eq_ok_iff (fun _ _ _ => throw_ne_ok) (fun _ => rfl) fun n q q' w hm _ => by
    rw [resolveMetric_eq_ok_iff, hm]
    rfl

theorem parsePriority_eq_ok_iff {v : Option N} : parsePriority numbers p = .ok v p' ↔
      ∃ written rest, ReadsPriority numbers written p.scanner rest ∧
        priorityOf numbers p.metrics written = some v ∧ p' = p.scanTo rest := by
  constructor
  · intro h
    obtain ⟨marks, p₁, hm, hrs⟩ := bind_eq_ok h
    rcases scan_eq_ok_iff.1 hm with ⟨t, s₁, hr, rfl, rfl⟩ | ⟨hnn, rfl, rfl⟩
    · obtain ⟨n, p₂, hc, hret⟩ := bind_eq_ok hrs
      obtain ⟨value, rest, hrd, hp, rfl⟩ := parseConstant_eq_ok_iff.1 hc
      obtain ⟨rfl, rfl⟩ := pure_eq_ok_iff.1 hret
      obtain ⟨more, hm, -⟩ := token_of_scanCharacters rfl hr
      exact ⟨some (more, value), rest, .written hm hrd, congrArg (Option.map some) hp, rfl⟩
    · obtain ⟨rfl, rfl⟩ := pure_eq_ok_iff.1 hrs
      exact ⟨none, _, .unwritten ((scanCharacters_eq_none_iff_not_next rfl).1 hnn), rfl, rfl⟩
  · rintro ⟨written, rest, hrd, hp, rfl⟩
    cases hrd with
    | unwritten hno =>
      cases hp
      exact bind_ok (scan_eq_ok_iff.2 (.inr ⟨(scanCharacters_eq_none_iff_not_next rfl).2 hno, rfl, rfl⟩))
    | @written more value _ s₁ _ hm hv =>
      obtain ⟨n, hn, rfl⟩ := Option.map_eq_some_iff.1 hp
      have hr := scanCharacters_of_token "@" rfl hm
        (hv.head?_ne numbers.readsDoubles (by decide) (by decide))
      refine (bind_ok (scan_eq_ok_iff.2 (.inl ⟨_, s₁, hr, rfl, rfl⟩))).trans ?_
      exact bind_ok ((parseConstant_eq_ok_iff (p := p.scanTo s₁)).2 ⟨value, rest, hv, hn, rfl⟩)

end Numbers

end GnustepGui.VisualFormat
