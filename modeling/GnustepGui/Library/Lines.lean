import Mathlib.Data.List.Basic

/-!
# Lines

A text cut into lines, where an element may end a line in view of what follows it. The lines of a text
are not empty and make it up (`lines_flatten`), and a change that leaves the ends of lines alone can be
made line by line (`lines_of_map`).
-/

namespace Lines

variable {α β : Type*}

/-- The lines of a text. The last one may have no end. -/
def lines (ends : α → List α → Bool) : List α → List (List α)
  | [] => []
  | c :: cs =>
    match lines ends cs with
    | [] => [[c]]
    | l :: ls => if ends c cs then [c] :: l :: ls else (c :: l) :: ls

/-- Where the line that holds a position starts and ends; the lines stand from `start` on. -/
def rangeAt : Nat → List (List α) → Nat → Option (Nat × Nat)
  | _, [], _ => none
  | start, l :: ls, loc =>
    if loc < start + l.length then some (start, start + l.length) else rangeAt (start + l.length) ls loc

variable {ends : α → List α → Bool} {text : List α} {l : List α} {pre ls : List (List α)} {start loc : Nat}

theorem lines_flatten : (lines ends text).flatten = text := by
  induction text with
  | nil => rfl
  | cons c cs ih =>
    rw [lines]
    split
    · rename_i hn
      rw [hn] at ih
      rw [← ih]
      rfl
    · rename_i l ls hc
      rw [hc] at ih
      split <;> simp [← ih]

theorem ne_nil_of_mem (h : l ∈ lines ends text) : l ≠ [] := by
  induction text generalizing l with
  | nil => exact nomatch h
  | cons c cs ih =>
    rw [lines] at h
    split at h
    · rw [List.mem_singleton.1 h]
      exact List.cons_ne_nil c []
    · rename_i l' ls hc
      have hr (k : List α) (hk : k ∈ l' :: ls) : k ≠ [] := ih (hc ▸ hk)
      split at h
      · rcases List.mem_cons.1 h with rfl | h
        · exact List.cons_ne_nil c []
        · exact hr l h
      · rcases List.mem_cons.1 h with rfl | h
        · exact List.cons_ne_nil c l'
        · exact hr l (List.mem_cons_of_mem l' h)

/-- A text with the same ends of lines has lines of the same lengths. -/
theorem lines_of_map {key : α → β} {endsKey : β → List β → Bool}
    (he : ∀ c cs, ends c cs = endsKey (key c) (cs.map key)) (text : List α) :
    (lines ends text).map (List.map key) = lines endsKey (text.map key) := by
  induction text with
  | nil => rfl
  | cons c cs ih =>
    rw [lines, List.map_cons, lines, ← ih, he]
    cases lines ends cs with
    | nil => rfl
    | cons l ls => simp only [List.map_cons]; split <;> rfl

theorem flatten_injective_of_lengths {ls ls' : List (List α)}
    (hl : ls.map List.length = ls'.map List.length) (hw : ls.flatten = ls'.flatten) : ls = ls' := by
  induction ls generalizing ls' with
  | nil =>
    cases ls' with
    | nil => rfl
    | cons => exact nomatch hl
  | cons l ls ih =>
    cases ls' with
    | nil => exact nomatch hl
    | cons l' ls' =>
      simp only [List.map_cons, List.cons.injEq] at hl
      rw [List.flatten_cons, List.flatten_cons] at hw
      obtain ⟨rfl, hr⟩ := List.append_inj hw hl.1
      rw [ih hl.2 hr]

theorem lines_eq_of_keys {key : α → β} {endsKey : β → List β → Bool}
    (he : ∀ c cs, ends c cs = endsKey (key c) (cs.map key)) {parts : List (List α)}
    (hk : parts.map (List.map key) = lines endsKey (parts.flatten.map key)) : lines ends parts.flatten = parts := by
  refine flatten_injective_of_lengths ?_ lines_flatten
  have h := congrArg (List.map List.length) ((lines_of_map he parts.flatten).trans hk.symm)
  simpa only [List.map_map, Function.comp_def, List.length_map] using h

theorem rangeAt_append (hp : start + pre.flatten.length ≤ loc) :
    rangeAt start (pre ++ ls) loc = rangeAt (start + pre.flatten.length) ls loc := by
  induction pre generalizing start with
  | nil => rfl
  | cons l pre ih =>
    rw [List.flatten_cons, List.length_append] at hp ⊢
    rw [List.cons_append, rangeAt, if_neg (by omega), ih (by omega), Nat.add_assoc]

theorem rangeAt_line (hp : pre.flatten.length ≤ loc) (hl : loc < pre.flatten.length + l.length) :
    rangeAt 0 (pre ++ l :: ls) loc = some (pre.flatten.length, pre.flatten.length + l.length) := by
  rw [rangeAt_append (by omega), rangeAt, Nat.zero_add, if_pos hl]

theorem exists_line {ls : List (List α)} (hl : loc < ls.flatten.length) :
    ∃ pre l post, ls = pre ++ l :: post ∧ pre.flatten.length ≤ loc ∧ loc < pre.flatten.length + l.length := by
  induction ls generalizing loc with
  | nil => exact absurd hl (Nat.not_lt_zero loc)
  | cons l ls ih =>
    rw [List.flatten_cons, List.length_append] at hl
    rcases Nat.lt_or_ge loc l.length with hlt | hge
    · exact ⟨[], l, ls, rfl, Nat.zero_le loc, by simpa using hlt⟩
    · have hr : loc - l.length < ls.flatten.length := by omega
      obtain ⟨pre, k, post, rfl, hle, hlt⟩ := ih hr
      refine ⟨l :: pre, k, post, rfl, ?_, ?_⟩
      · rw [List.flatten_cons, List.length_append]
        omega
      · rw [List.flatten_cons, List.length_append]
        omega

end Lines
