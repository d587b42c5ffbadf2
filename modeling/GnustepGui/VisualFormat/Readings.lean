import Mathlib
import GnustepGui.VisualFormat.Grammar

/-!
# Readings of visual formats

The tokens of the grammar begin with different characters, and none of them is skipped; so each reading
is determined by the text, and a text spells at most one format (`Format.Reads.unique`).
-/

namespace GnustepGui.VisualFormat

open Scanner

/-! ## Tokens -/

section Tokens

variable {s t t' rest rest' : List Char} {c d : Char}

theorem none_of_marks {set : Char → Bool} {marks : List Char} (h : marks.any set = false) :
    ∀ c ∈ marks, set c = false := by
  intro c hc
  exact Bool.not_eq_true _ ▸ List.any_eq_false.1 h c hc

theorem Next.unique (h : Next c s) (h' : Next d s) : c = d := Option.some.inj (h.symm.trans h')

theorem Next.not_atEnd (h : Next c s) : ¬ AtEnd s := by
  intro he
  rw [Next, he] at h
  cases h

theorem Token.next (h : Token (c :: t) s rest) : Next c s := by
  rw [Next, h]
  rfl

theorem Token.rest_unique (h : Token t s rest) (h' : Token t s rest') : rest = rest' :=
  List.append_cancel_left (h.symm.trans h')

theorem Token.length_lt (h : Token (c :: t) s rest) : rest.length < s.length :=
  length_lt_of_skip (List.cons_ne_nil c t) h

theorem next_iff_token : Next c s ↔ ∃ rest, Token [c] s rest := by
  constructor
  · intro h
    cases hs : skip whitespaceAndNewline s with
    | nil =>
      rw [Next, hs] at h
      cases h
    | cons d rest =>
      rw [Next, hs] at h
      cases h
      exact ⟨rest, hs⟩
  · rintro ⟨rest, h⟩
    exact h.next

theorem next_cons (h : whitespaceAndNewline c = false) : Next c (c :: s) := by
  rw [Next, skip_cons_of_not h]
  rfl

theorem replicate_succ_append (n : Nat) (c : Char) :
    List.replicate (n + 1) c ++ rest = c :: (List.replicate n c ++ rest) := rfl

theorem replicate_append_unique {m n : Nat} (hrs : rest.head? ≠ some c) (hrs' : rest'.head? ≠ some c)
    (h : List.replicate m c ++ rest = List.replicate n c ++ rest') : m = n ∧ rest = rest' := by
  induction m generalizing n with
  | zero =>
    cases n with
    | zero => exact ⟨rfl, h⟩
    | succ n =>
      rw [List.replicate_zero, List.nil_append, replicate_succ_append] at h
      rw [h] at hrs
      exact absurd rfl hrs
  | succ m ih =>
    cases n with
    | zero =>
      rw [List.replicate_zero, List.nil_append, replicate_succ_append] at h
      rw [← h] at hrs'
      exact absurd rfl hrs'
    | succ n =>
      rw [replicate_succ_append, replicate_succ_append] at h
      obtain ⟨rfl, hr⟩ := ih (List.cons.inj h).2
      exact ⟨rfl, hr⟩

theorem Token.replicate_unique {m n : Nat} (h : Token (List.replicate (m + 1) c) s rest)
    (h' : Token (List.replicate (n + 1) c) s rest') (hrs : rest.head? ≠ some c)
    (hrs' : rest'.head? ≠ some c) : m = n ∧ rest = rest' := by
  obtain ⟨hm, hr⟩ := replicate_append_unique hrs hrs' (h.symm.trans h')
  exact ⟨Nat.succ.inj hm, hr⟩

end Tokens

/-! ## Names and numbers -/

section Names

variable {n s rest : List Char} {c : Char}

theorem identifierStart_range (h : isIdentifierStart c = true) :
    (65 ≤ c.toNat ∧ c.toNat ≤ 90) ∨ (97 ≤ c.toNat ∧ c.toNat ≤ 122) ∨ c.toNat = 95 := by
  simp only [isIdentifierStart, Char.isAlpha, Char.isUpper, Char.isLower, Bool.or_eq_true,
    Bool.and_eq_true, decide_eq_true_eq, beq_iff_eq] at h
  rcases h with (h | h) | rfl
  · exact .inl h
  · exact .inr (.inl h)
  · exact .inr (.inr rfl)

theorem digitSignOrPoint_range (h : digitSignOrPoint c = true) :
    (48 ≤ c.toNat ∧ c.toNat ≤ 57) ∨ c.toNat = 43 ∨ c.toNat = 45 ∨ c.toNat = 46 := by
  simp only [digitSignOrPoint, Char.isDigit, Bool.or_eq_true, Bool.and_eq_true, decide_eq_true_eq, beq_iff_eq] at h
  rcases h with ((h | rfl) | rfl) | rfl
  · exact .inl h
  · exact .inr (.inl rfl)
  · exact .inr (.inr (.inl rfl))
  · exact .inr (.inr (.inr rfl))

theorem identifierStart_not_number (h : isIdentifierStart c = true) : digitSignOrPoint c = false := by
  by_contra hd
  have hs := identifierStart_range h
  have hn := digitSignOrPoint_range (by simpa using hd)
  omega

/-- The characters of identifiers. -/
def isNameCharacter (c : Char) : Bool := isIdentifierPart c || lineTerminators.contains c

theorem isValidIdentifier_start (h : isValidIdentifier n = true) :
    ∃ c cs, n = c :: cs ∧ isIdentifierStart c = true := by
  cases n with
  | nil => cases h
  | cons c cs =>
    simp only [isValidIdentifier, Bool.and_eq_true] at h
    exact ⟨c, cs, rfl, h.1⟩

theorem isValidIdentifier_characters (h : isValidIdentifier n = true) : ∀ c ∈ n, isNameCharacter c = true := by
  cases n with
  | nil => cases h
  | cons c cs =>
    simp only [isValidIdentifier, Bool.and_eq_true] at h
    obtain ⟨hs, hr⟩ := h
    intro d hd
    rcases List.mem_cons.1 hd with rfl | hd
    · have hp : isIdentifierPart d = true := by
        simp only [isIdentifierStart, Bool.or_eq_true] at hs
        rcases hs with h | h <;> simp [isIdentifierPart, h]
      simp [isNameCharacter, hp]
    · rw [← List.takeWhile_append_dropWhile (p := isIdentifierPart) (l := cs), List.mem_append] at hd
      rcases hd with hd | hd
      · simp [isNameCharacter, List.mem_takeWhile_imp hd]
      · have hter : d ∈ lineTerminators := by
          simp only [Bool.or_eq_true, List.isEmpty_iff, beq_iff_eq, List.any_eq_true] at hr
          rcases hr with (h | h) | ⟨t, ht, h⟩
          · rw [h] at hd
            cases hd
          · rw [h] at hd
            simp only [List.mem_cons, List.not_mem_nil, or_false] at hd
            rcases hd with rfl | rfl <;> decide
          · rw [h, List.mem_singleton] at hd
            exact hd ▸ ht
        simp [isNameCharacter, hter]

theorem readsName_iff {after : List Char} (ha : ∀ c ∈ after, isNameCharacter c = false) : ReadsName after n s rest ↔
      isValidIdentifier n = true ∧ scanUpTo whitespaceAndNewline after.contains s = some (n, rest) := by
  constructor
  · rintro ⟨hv, ht, he⟩
    obtain ⟨c, cs, rfl, -⟩ := isValidIdentifier_start hv
    refine ⟨hv, scanUpTo_eq_some_iff.2 ⟨List.cons_ne_nil _ _, fun d hd => ?_, fun d hd => ?_, ht⟩⟩
    · have hn := isValidIdentifier_characters hv d hd
      by_contra hm
      rw [ha d (by simpa using hm)] at hn
      cases hn
    · simpa using he d hd
  · rintro ⟨hv, hs⟩
    obtain ⟨-, -, he, ht⟩ := scanUpTo_eq_some_iff.1 hs
    exact ⟨hv, ht, fun c hc => by simpa using he c hc⟩

theorem ReadsName.unique {after n' rest' : List Char} (ha : ∀ c ∈ after, isNameCharacter c = false)
    (h : ReadsName after n s rest) (h' : ReadsName after n' s rest') : n = n' ∧ rest = rest' := by
  have hs := ((readsName_iff ha).1 h).2
  rw [((readsName_iff ha).1 h').2] at hs
  exact ⟨(Prod.mk.inj (Option.some.inj hs)).1.symm, (Prod.mk.inj (Option.some.inj hs)).2.symm⟩

theorem ReadsName.next {after : List Char} (h : ReadsName after n s rest) :
    ∃ c, Next c s ∧ isIdentifierStart c = true := by
  obtain ⟨c, cs, rfl, hc⟩ := isValidIdentifier_start h.valid
  exact ⟨c, Token.next h.token, hc⟩

theorem ReadsName.length_lt {after : List Char} (h : ReadsName after n s rest) : rest.length < s.length := by
  obtain ⟨c, cs, rfl, -⟩ := isValidIdentifier_start h.valid
  exact Token.length_lt h.token

end Names

section Values

variable {N : Type} {scan : List Char → Option (N × List Char)} {after s rest rest' : List Char} {v : N}
  {value value' : Value N} {c d : Char}

/-- The characters with which a value begins. -/
def beginsValue (c : Char) : Bool := digitSignOrPoint c || isIdentifierStart c

theorem ReadsNumbers.next (hsc : ReadsNumbers scan) (h : scan s = some (v, rest)) :
    ∃ c, Next c s ∧ digitSignOrPoint c = true := by
  obtain ⟨c, t, hs, hc, -⟩ := hsc s v rest h
  exact ⟨c, by rw [Next, hs]; rfl, hc⟩

theorem ReadsNumbers.length_lt (hsc : ReadsNumbers scan) (h : scan s = some (v, rest)) : rest.length < s.length := by
  obtain ⟨c, t, hs, -, hr⟩ := hsc s v rest h
  have hsk := skip_length_le whitespaceAndNewline s
  have hle := hr.length_le
  rw [hs, List.length_cons] at hsk
  omega

theorem ReadsNumbers.none_of_next (hs : ReadsNumbers scan) (hn : Next c s)
    (hc : digitSignOrPoint c = false) : scan s = none := by
  cases h : scan s with
  | none => rfl
  | some r =>
    obtain ⟨d, hd, hdig⟩ := hs.next h
    rw [hn.unique hd, hdig] at hc
    cases hc

theorem Value.Reads.next (hs : ReadsNumbers scan) (h : value.Reads scan after s rest) :
    ∃ c, Next c s ∧ beginsValue c = true := by
  cases h with
  | number h =>
    obtain ⟨c, hn, hc⟩ := hs.next h
    exact ⟨c, hn, by simp [beginsValue, hc]⟩
  | name h =>
    obtain ⟨c, hn, hc⟩ := h.next
    exact ⟨c, hn, by simp [beginsValue, hc]⟩

theorem Value.Reads.length_lt (hs : ReadsNumbers scan) (h : value.Reads scan after s rest) :
    rest.length < s.length := by
  cases h with
  | number h => exact hs.length_lt h
  | name h => exact h.length_lt

theorem Value.Reads.unique (hs : ReadsNumbers scan) (ha : ∀ c ∈ after, isNameCharacter c = false)
    (h : value.Reads scan after s rest) (h' : value'.Reads scan after s rest') : value = value' ∧ rest = rest' := by
  cases h with
  | number h =>
    cases h' with
    | number h' =>
      rw [h] at h'
      cases h'
      exact ⟨rfl, rfl⟩
    | name h' =>
      obtain ⟨c, hn, hc⟩ := h'.next
      rw [hs.none_of_next hn (identifierStart_not_number hc)] at h
      cases h
  | name h =>
    cases h' with
    | number h' =>
      obtain ⟨c, hn, hc⟩ := h.next
      rw [hs.none_of_next hn (identifierStart_not_number hc)] at h'
      cases h'
    | name h' =>
      obtain ⟨rfl, rfl⟩ := h.unique ha h'
      exact ⟨rfl, rfl⟩

theorem head?_ne_of_next (h : Next c s) (hd : whitespaceAndNewline d = false) (hne : c ≠ d) : s.head? ≠ some d := by
  intro hh
  cases s with
  | nil => cases hh
  | cons e s =>
    cases hh
    exact hne (h.unique (next_cons hd))

end Values

/-! ## The parts of a format -/

section Unique

variable {N : Type} {numbers : NumberScanner N} {s rest rest' : List Char}

theorem Connection.Reads.unique {c c' : Connection N} (h : c.Reads numbers s rest)
    (h' : c'.Reads numbers s rest') : c = c' ∧ rest = rest' := by
  cases h with
  | flush h =>
    cases h' with
    | flush => exact ⟨rfl, rfl⟩
    | standard h' => exact absurd h'.next h
    | spaced h' => exact absurd h'.next h
  | standard h hn =>
    cases h' with
    | flush h' => exact absurd h.next h'
    | standard h' => exact ⟨rfl, h.rest_unique h'⟩
    | spaced h' hv =>
      cases h.rest_unique h'
      obtain ⟨d, hd, hb⟩ := hv.next numbers.readsFloats
      rcases hn with hn | hn | hn
      · cases hn.unique hd
        cases hb
      · cases hn.unique hd
        cases hb
      · exact absurd hn hd.not_atEnd
  | spaced h hv hc =>
    cases h' with
    | flush h' => exact absurd h.next h'
    | standard h' hn =>
      cases h.rest_unique h'
      obtain ⟨d, hd, hb⟩ := hv.next numbers.readsFloats
      rcases hn with hn | hn | hn
      · cases hn.unique hd
        cases hb
      · cases hn.unique hd
        cases hb
      · exact absurd hn hd.not_atEnd
    | spaced h' hv' hc' =>
      cases h.rest_unique h'
      obtain ⟨rfl, rfl⟩ := hv.unique numbers.readsFloats (none_of_marks rfl) hv'
      exact ⟨rfl, hc.rest_unique hc'⟩

theorem Connection.Reads.length_le {c : Connection N} (h : c.Reads numbers s rest) : rest.length ≤ s.length := by
  cases h with
  | flush => exact Nat.le_refl _
  | standard h => exact Nat.le_of_lt (Token.length_lt h)
  | spaced h hv hc =>
    exact Nat.le_of_lt (((Token.length_lt hc).trans (hv.length_lt numbers.readsFloats)).trans (Token.length_lt h))

theorem mark_unique {r r' : NSLayoutRelation} (h : Token r.mark s rest) (h' : Token r'.mark s rest') :
    r = r' ∧ rest = rest' := by
  cases r <;> cases r' <;>
    first
    | exact ⟨rfl, h.rest_unique h'⟩
    | exact absurd (h.next.unique h'.next) (by decide)

theorem ReadsRelation.unique {r r' : Option NSLayoutRelation} (h : ReadsRelation r s rest)
    (h' : ReadsRelation r' s rest') : r = r' ∧ rest = rest' := by
  cases h with
  | unwritten h =>
    cases h' with
    | unwritten => exact ⟨rfl, rfl⟩
    | written h' => exact absurd h' (h _ _)
  | written h =>
    cases h' with
    | unwritten h' => exact absurd h (h' _ _)
    | written h' =>
      obtain ⟨rfl, rfl⟩ := mark_unique h h'
      exact ⟨rfl, rfl⟩

theorem Value.Reads.head?_ne {scan : List Char → Option (N × List Char)} {after : List Char}
    {value : Value N} {d : Char} (hs : ReadsNumbers scan) (h : value.Reads scan after s rest)
    (hd : whitespaceAndNewline d = false) (hb : beginsValue d = false) : s.head? ≠ some d := by
  obtain ⟨c, hn, hc⟩ := h.next hs
  refine head?_ne_of_next hn hd fun hcd => ?_
  rw [hcd, hb] at hc
  cases hc

theorem ReadsPriority.unique {p p' : Option (Nat × Value N)} (h : ReadsPriority numbers p s rest)
    (h' : ReadsPriority numbers p' s rest') : p = p' ∧ rest = rest' := by
  cases h with
  | unwritten h =>
    cases h' with
    | unwritten => exact ⟨rfl, rfl⟩
    | written h' => exact absurd (Token.next h') h
  | written h hv =>
    cases h' with
    | unwritten h' => exact absurd (Token.next h) h'
    | written h' hv' =>
      obtain ⟨rfl, rfl⟩ := h.replicate_unique h'
        (hv.head?_ne numbers.readsDoubles (by decide) (by decide))
        (hv'.head?_ne numbers.readsDoubles (by decide) (by decide))
      obtain ⟨rfl, rfl⟩ := hv.unique numbers.readsDoubles (none_of_marks rfl) hv'
      exact ⟨rfl, rfl⟩

theorem Predicate.Reads.unique {p p' : Predicate N} (h : p.Reads numbers s rest)
    (h' : p'.Reads numbers s rest') : p = p' ∧ rest = rest' := by
  obtain ⟨s₁, s₂, hrel, hobj, hpr⟩ := h
  obtain ⟨s₁', s₂', hrel', hobj', hpr'⟩ := h'
  obtain ⟨hr, rfl⟩ := hrel.unique hrel'
  obtain ⟨ho, rfl⟩ := hobj.unique numbers.readsDoubles (none_of_marks rfl) hobj'
  obtain ⟨hp, rfl⟩ := hpr.unique hpr'
  cases p
  cases p'
  exact ⟨by simp_all only, rfl⟩

theorem ReadsPredicates.unique {ps ps' : List (Predicate N)} (h : ReadsPredicates numbers ps s rest)
    (h' : ReadsPredicates numbers ps' s rest') : ps = ps' ∧ rest = rest' := by
  induction h generalizing ps' with
  | last hp hcl =>
    cases h' with
    | last hp' hcl' =>
      obtain ⟨rfl, rfl⟩ := hp.unique hp'
      exact ⟨rfl, hcl.rest_unique hcl'⟩
    | cons hp' hc' =>
      obtain ⟨rfl, rfl⟩ := hp.unique hp'
      exact absurd (hcl.next.unique hc'.next) (by decide)
  | cons hp hc _ ih =>
    cases h' with
    | last hp' hcl' =>
      obtain ⟨rfl, rfl⟩ := hp.unique hp'
      exact absurd (hc.next.unique hcl'.next) (by decide)
    | cons hp' hc' h' =>
      obtain ⟨rfl, rfl⟩ := hp.unique hp'
      cases hc.rest_unique hc'
      obtain ⟨rfl, rfl⟩ := ih h'
      exact ⟨rfl, rfl⟩

theorem ReadsPredicateList.unique {ps ps' : List (Predicate N)} (h : ReadsPredicateList numbers ps s rest)
    (h' : ReadsPredicateList numbers ps' s rest') : ps = ps' ∧ rest = rest' := by
  cases h with
  | unwritten h =>
    cases h' with
    | unwritten => exact ⟨rfl, rfl⟩
    | written h' => exact absurd h'.next h
  | written h hp =>
    cases h' with
    | unwritten h' => exact absurd h.next h'
    | written h' hp' =>
      cases h.rest_unique h'
      exact hp.unique hp'

theorem ReadsName.head?_ne {after n : List Char} {d : Char} (h : ReadsName after n s rest)
    (hd : whitespaceAndNewline d = false) (hs : isIdentifierStart d = false) : s.head? ≠ some d := by
  obtain ⟨c, hn, hc⟩ := h.next
  refine head?_ne_of_next hn hd fun hcd => ?_
  rw [hcd, hs] at hc
  cases hc

theorem ViewText.Reads.unique {v v' : ViewText N} (h : v.Reads numbers s rest)
    (h' : v'.Reads numbers s rest') : v = v' ∧ rest = rest' := by
  obtain ⟨s₁, s₂, s₃, hop, hnm, hls, hcl, hr⟩ := h
  obtain ⟨s₁', s₂', s₃', hop', hnm', hls', hcl', hr'⟩ := h'
  obtain ⟨ho, rfl⟩ := hop.replicate_unique hop' (hnm.head?_ne (by decide) (by decide))
    (hnm'.head?_ne (by decide) (by decide))
  obtain ⟨hn, rfl⟩ := hnm.unique (none_of_marks rfl) hnm'
  obtain ⟨hl, rfl⟩ := hls.unique hls'
  obtain ⟨hc, rfl⟩ := hcl.replicate_unique hcl' hr hr'
  cases v
  cases v'
  exact ⟨by simp_all only, rfl⟩

theorem ReadsBar.unique {b b' : Bool} (h : ReadsBar b s rest) (h' : ReadsBar b' s rest') : b = b' ∧ rest = rest' := by
  cases h with
  | unwritten h =>
    cases h' with
    | unwritten => exact ⟨rfl, rfl⟩
    | written h' => exact absurd h'.next h
  | written h =>
    cases h' with
    | unwritten h' => exact absurd h.next h'
    | written h' => exact ⟨rfl, h.rest_unique h'⟩

theorem ReadsBar.length_le {b : Bool} (h : ReadsBar b s rest) : rest.length ≤ s.length := by
  cases h with
  | unwritten => exact Nat.le_refl _
  | written h => exact Nat.le_of_lt (Token.length_lt h)

theorem ViewText.Reads.next {v : ViewText N} (h : v.Reads numbers s rest) : Next '[' s := by
  obtain ⟨s₁, s₂, s₃, ho, -⟩ := h
  exact Token.next ho

theorem ReadsItems.unique {items items' : List (Item N)} (h : ReadsItems numbers items s)
    (h' : ReadsItems numbers items' s) : items = items' := by
  induction h generalizing items' with
  | nil he =>
    cases h' with
    | nil => rfl
    | cons hvw => exact absurd he hvw.next.not_atEnd
  | @cons item _ _ _ _ _ hvw hcn hbar _ ih =>
    cases h' with
    | nil he => exact absurd he hvw.next.not_atEnd
    | @cons item' _ _ _ _ _ hvw' hcn' hbar' hits' =>
      obtain ⟨hv, rfl⟩ := hvw.unique hvw'
      obtain ⟨hc, rfl⟩ := hcn.unique hcn'
      obtain ⟨hb, rfl⟩ := hbar.unique hbar'
      cases item
      cases item'
      simp_all only [ih hits']

theorem orientationMark_unique {v v' u u' : Bool} (h : Token (orientationMark v u) s rest)
    (h' : Token (orientationMark v' u') s rest') : (v = v' ∧ u = u') ∧ rest = rest' := by
  have hn := Next.unique (Token.next h) (Token.next h')
  have hm : v = v' ∧ u = u' := by
    revert hn
    cases v <;> cases u <;> cases v' <;> cases u' <;> decide
  obtain ⟨rfl, rfl⟩ := hm
  exact ⟨⟨rfl, rfl⟩, h.rest_unique h'⟩

theorem Orientation.Reads.unique {o o' : Orientation} (h : o.Reads s rest) (h' : o'.Reads s rest') :
    o = o' ∧ rest = rest' := by
  cases h with
  | unmarked h =>
    cases h' with
    | unmarked => exact ⟨rfl, rfl⟩
    | marked h' => exact absurd h' (h _ _ _)
  | marked h =>
    cases h' with
    | unmarked h' => exact absurd h (h' _ _ _)
    | marked h' =>
      obtain ⟨⟨rfl, rfl⟩, rfl⟩ := orientationMark_unique h h'
      exact ⟨rfl, rfl⟩

theorem ReadsLeading.unique {c c' : Option (Connection N)} (h : ReadsLeading numbers c s rest)
    (h' : ReadsLeading numbers c' s rest') : c = c' ∧ rest = rest' := by
  cases h with
  | unwritten h =>
    cases h' with
    | unwritten => exact ⟨rfl, rfl⟩
    | written h' => exact absurd h'.next h
  | written h hc =>
    cases h' with
    | unwritten h' => exact absurd h.next h'
    | written h' hc' =>
      cases h.rest_unique h'
      obtain ⟨rfl, rfl⟩ := hc.unique hc'
      exact ⟨rfl, rfl⟩

theorem Format.Reads.unique {f f' : Format N} (h : f.Reads numbers s) (h' : f'.Reads numbers s) : f = f' := by
  obtain ⟨-, s₁, s₂, hor, hld, hits⟩ := h
  obtain ⟨-, s₁', s₂', hor', hld', hits'⟩ := h'
  obtain ⟨ho, rfl⟩ := hor.unique hor'
  obtain ⟨hl, rfl⟩ := hld.unique hld'
  have hi := hits.unique hits'
  cases f
  cases f'
  simp_all only

end Unique

end GnustepGui.VisualFormat
