import Mathlib

/-!
# Nesting

The nesting depth of a text with an opening and a closing mark, of which one that follows an escape mark
does not count. `levels` are the changes of the depth, `low` is the lowest depth a text reaches, and
`Amounts` says that a text comes to the same as some changes (`balanced_iff`).
-/

namespace Nesting

structure Marks (α : Type*) where
  opening : α
  closing : α
  escape : α
  opening_ne : opening ≠ escape
  closing_ne : closing ≠ escape
  distinct : closing ≠ opening

variable {α : Type*} [DecidableEq α] (m : Marks α)

/-- The changes of the depth. The flag says that the first character is escaped. -/
def levels : Bool → List α → List Int
  | _, [] => []
  | true, _ :: l => levels false l
  | false, x :: l =>
    if x = m.escape then levels true l
    else if x = m.opening then 1 :: levels false l
    else if x = m.closing then -1 :: levels false l
    else levels false l

/-- The character behind the text is escaped. -/
def escapes : Bool → List α → Bool
  | b, [] => b
  | true, _ :: l => escapes false l
  | false, x :: l => if x = m.escape then escapes true l else escapes false l

def depth (l : List α) : Int :=
  (levels m false l).sum

/-- The depth is zero at the end, and not before. -/
def Balanced (text : List α) : Prop :=
  (∀ l, l <+: text → l ≠ [] → l ≠ text → 0 < depth m l) ∧ depth m text = 0

/-! ## The lowest depth -/

def low : List Int → Int
  | [] => 0
  | x :: s => min 0 (x + low s)

theorem low_nonpos (s : List Int) : low s ≤ 0 := by
  cases s with
  | nil => exact le_rfl
  | cons x s => exact min_le_left _ _

theorem low_append (s s' : List Int) : low (s ++ s') = min (low s) (s.sum + low s') := by
  induction s with
  | nil =>
    have := low_nonpos s'
    simp only [List.nil_append, low, List.sum_nil]
    omega
  | cons x s ih =>
    simp only [List.cons_append, low, List.sum_cons, ih]
    omega

theorem levels_append (b : Bool) (l l' : List α) :
    levels m b (l ++ l') = levels m b l ++ levels m (escapes m b l) l' := by
  induction l generalizing b with
  | nil => rfl
  | cons x l ih =>
    cases b with
    | true => exact ih false
    | false =>
      simp only [List.cons_append, levels, escapes]
      split
      · exact ih true
      · split
        · rw [ih, List.cons_append]
        · split
          · rw [ih, List.cons_append]
          · exact ih false

theorem escapes_append (b : Bool) (l l' : List α) : escapes m b (l ++ l') = escapes m (escapes m b l) l' := by
  induction l generalizing b with
  | nil => rfl
  | cons x l ih =>
    cases b with
    | true => exact ih false
    | false =>
      simp only [List.cons_append, escapes]
      split
      · exact ih true
      · exact ih false

/-- No beginning of a text is below the lowest depth, and one is there. -/
theorem forall_prefix_iff (b : Bool) (l : List α) (d : Int) :
    (∀ p, p <+: l → 0 ≤ d + (levels m b p).sum) ↔ 0 ≤ d + low (levels m b l) := by
  induction l generalizing b d with
  | nil =>
    constructor
    · intro h
      exact h [] List.prefix_rfl
    · intro h p hp
      rw [List.prefix_nil.mp hp]
      exact h
  | cons x l ih =>
    have hc : (∀ p, p <+: x :: l → 0 ≤ d + (levels m b p).sum) ↔
        0 ≤ d ∧ ∀ p, p <+: l → 0 ≤ d + (levels m b (x :: p)).sum := by
      constructor
      · intro h
        refine ⟨?_, fun p hp => h (x :: p) ((List.prefix_cons_inj x).mpr hp)⟩
        simpa [levels] using h [] List.nil_prefix
      · rintro ⟨hd, h⟩ p hp
        obtain rfl | ⟨q, rfl, hq⟩ := List.prefix_cons_iff.mp hp
        · simpa [levels] using hd
        · exact h q hq
    rw [hc]
    cases b with
    | true =>
      simp only [levels]
      have := low_nonpos (levels m false l)
      rw [ih false d]
      omega
    | false =>
      simp only [levels]
      split
      · have := low_nonpos (levels m true l)
        rw [ih true d]
        omega
      · split
        · simp only [List.sum_cons, ← add_assoc, ih false (d + 1), low]
          omega
        · split
          · simp only [List.sum_cons, ← add_assoc, ih false (d + -1), low]
            omega
          · have := low_nonpos (levels m false l)
            rw [ih false d]
            omega

/-! ## What a text amounts to -/

structure Amounts (l : List α) (s : List Int) : Prop where
  escapes : escapes m false l = false
  low : low (levels m false l) = low s
  sum : (levels m false l).sum = s.sum

variable {m}

theorem Amounts.append {l l' : List α} {s s' : List Int} (h : Amounts m l s) (h' : Amounts m l' s') :
    Amounts m (l ++ l') (s ++ s') where
  escapes := by rw [escapes_append, h.escapes, h'.escapes]
  low := by rw [levels_append, h.escapes, low_append, low_append, h.low, h.sum, h'.low]
  sum := by rw [levels_append, h.escapes, List.sum_append, List.sum_append, h.sum, h'.sum]

variable {l : List α}

theorem Amounts.congr {s s' : List Int} (h : Amounts m l s) (hl : Nesting.low s = Nesting.low s')
    (hs : s.sum = s'.sum) : Amounts m l s' := ⟨h.escapes, h.low.trans hl, h.sum.trans hs⟩

theorem amounts_nil : Amounts m [] [] := ⟨rfl, rfl, rfl⟩

theorem amounts_flatMap {β : Type*} {f : β → List α} {g : β → List Int} (xs : List β)
    (h : ∀ x ∈ xs, Amounts m (f x) (g x)) : Amounts m (xs.flatMap f) (xs.flatMap g) := by
  induction xs with
  | nil => exact amounts_nil
  | cons x xs ih =>
    rw [List.flatMap_cons, List.flatMap_cons]
    exact (h x List.mem_cons_self).append (ih fun y hy => h y (List.mem_cons_of_mem _ hy))

/-- A character that is no mark. -/
def Plain (m : Marks α) (x : α) : Prop :=
  x ≠ m.escape ∧ x ≠ m.opening ∧ x ≠ m.closing

variable {x : α}

theorem levels_plain (hx : Plain m x) (l : List α) : levels m false (x :: l) = levels m false l := by
  rw [levels, if_neg hx.1, if_neg hx.2.1, if_neg hx.2.2]

theorem escapes_plain (hx : Plain m x) (l : List α) : escapes m false (x :: l) = escapes m false l := by
  rw [escapes, if_neg hx.1]

theorem amounts_plain (h : ∀ x ∈ l, Plain m x) : Amounts m l [] := by
  induction l with
  | nil => exact amounts_nil
  | cons x l ih =>
    have hx := h x List.mem_cons_self
    obtain ⟨he, hl, hs⟩ := ih fun y hy => h y (List.mem_cons_of_mem _ hy)
    refine ⟨?_, ?_, ?_⟩
    · rw [escapes_plain hx]
      exact he
    · rw [levels_plain hx]
      exact hl
    · rw [levels_plain hx]
      exact hs

/-- An escaped character and some that are no marks. -/
theorem amounts_escape (x : α) (h : ∀ y ∈ l, Plain m y) : Amounts m (m.escape :: x :: l) [] := by
  obtain ⟨he, hl, hs⟩ := amounts_plain h
  refine ⟨?_, ?_, ?_⟩
  · rw [escapes, if_pos rfl, escapes]
    exact he
  · rw [levels, if_pos rfl, levels]
    exact hl
  · rw [levels, if_pos rfl, levels]
    exact hs

theorem amounts_opening : Amounts m [m.opening] [1] := by
  refine ⟨?_, ?_, ?_⟩
  · rw [escapes, if_neg m.opening_ne, escapes]
  · rw [levels, if_neg m.opening_ne, if_pos rfl, levels]
  · rw [levels, if_neg m.opening_ne, if_pos rfl, levels]

theorem amounts_closing : Amounts m [m.closing] [-1] := by
  refine ⟨?_, ?_, ?_⟩
  · rw [escapes, if_neg m.closing_ne, escapes]
  · rw [levels, if_neg m.closing_ne, if_neg m.distinct, if_pos rfl, levels]
  · rw [levels, if_neg m.closing_ne, if_neg m.distinct, if_pos rfl, levels]

theorem amounts_text (l : List α) (hx : Plain m x) : Amounts m (l ++ [x]) (levels m false l) := by
  have hl : levels m (escapes m false l) [x] = [] := by
    cases escapes m false l with
    | true => rfl
    | false => exact levels_plain hx []
  refine ⟨?_, ?_, ?_⟩
  · rw [escapes_append]
    cases escapes m false l with
    | true => rfl
    | false => exact escapes_plain hx []
  · rw [levels_append, hl, List.append_nil]
  · rw [levels_append, hl, List.append_nil]

theorem balanced_iff {s : List Int} (h : Amounts m l s) :
    Balanced m (m.opening :: (l ++ [m.closing])) ↔ 0 ≤ low s ∧ s.sum = 0 := by
  have hd (p : List α) : depth m (m.opening :: p) = 1 + (levels m false p).sum := by
    rw [depth, levels, if_neg m.opening_ne, if_pos rfl, List.sum_cons]
  have ha : depth m (m.opening :: (l ++ [m.closing])) = s.sum := by
    have hc : levels m false [m.closing] = [-1] := by
      rw [levels, if_neg m.closing_ne, if_neg m.distinct, if_pos rfl, levels]
    rw [hd, levels_append, h.escapes, hc, List.sum_append, h.sum, List.sum_singleton]
    omega
  have hb : (∀ p, p <+: m.opening :: (l ++ [m.closing]) → p ≠ [] → p ≠ m.opening :: (l ++ [m.closing]) →
      0 < depth m p) ↔ ∀ p, p <+: l → 0 ≤ 0 + (levels m false p).sum := by
    constructor
    · intro hpos p hp
      have hl := hp.length_le
      have := hpos (m.opening :: p) ((List.prefix_cons_inj _).mpr (hp.trans (List.prefix_append _ _)))
        (List.cons_ne_nil _ _) fun heq => by
          have := congrArg List.length heq
          rw [List.length_cons, List.length_cons, List.length_append, List.length_singleton] at this
          omega
      rw [hd] at this
      omega
    · intro hpos p hp hne ha
      obtain rfl | ⟨q, rfl, hq⟩ := List.prefix_cons_iff.mp hp
      · exact absurd rfl hne
      · obtain rfl | hq := List.prefix_concat_iff.mp hq
        · exact absurd rfl ha
        · have := hpos q hq
          rw [hd]
          omega
  rw [Balanced, ha, hb, forall_prefix_iff, h.low, zero_add]

end Nesting
