import Mathlib.Data.List.InsertIdx

/-!
# Edits of a list by index

A list is changed by insertions and removals of which only the index is recorded. `replay` carries a
recorded list of edits out later, with a function that says what an insertion at an index puts there.
-/

namespace IndexEdits

inductive Edit where
  | inserted (index : Nat)
  | removed (index : Nat)
  deriving DecidableEq, Repr

variable {β γ : Type*}

/-- One edit; `none` where the index is beyond the list. -/
def Edit.apply (new : Nat → β) (l : List β) : Edit → Option (List β)
  | inserted i => if i ≤ l.length then some (l.insertIdx i (new i)) else none
  | removed i => if i < l.length then some (l.eraseIdx i) else none

def replay (new : Nat → β) (l : List β) (edits : List Edit) : Option (List β) :=
  edits.foldlM (Edit.apply new) l

theorem replay_cons (new : Nat → β) (l : List β) (e : Edit) (edits : List Edit) :
    replay new l (e :: edits) = (e.apply new l).bind fun l' => replay new l' edits := rfl

theorem replay_append (new : Nat → β) (l : List β) (edits rest : List Edit) :
    replay new l (edits ++ rest) = (replay new l edits).bind fun l' => replay new l' rest := by
  unfold replay
  rw [List.foldlM_append]
  rfl

theorem replay_concat (new : Nat → β) (l : List β) (edits : List Edit) (e : Edit) :
    replay new l (edits ++ [e]) = (replay new l edits).bind (e.apply new) := by
  rw [replay_append]
  congr 1
  funext l'
  rw [replay_cons]
  exact Option.bind_fun_some _

theorem Edit.apply_map (f : β → γ) (new : Nat → β) (l : List β) (e : Edit) :
    e.apply (f ∘ new) (l.map f) = (e.apply new l).map (List.map f) := by
  cases e with
  | inserted i =>
    simp only [apply, List.length_map]
    split
    · rw [Option.map_some, List.map_insertIdx]
      rfl
    · rfl
  | removed i =>
    simp only [apply, List.length_map]
    split
    · rw [Option.map_some, List.eraseIdx_map]
    · rfl

theorem replay_map (f : β → γ) (new : Nat → β) (l : List β) (edits : List Edit) :
    replay (f ∘ new) (l.map f) edits = (replay new l edits).map (List.map f) := by
  induction edits generalizing l with
  | nil => rfl
  | cons e edits ih =>
    rw [replay_cons, replay_cons, Edit.apply_map]
    cases h : e.apply new l with
    | none => rfl
    | some l' => exact ih l'

/-- What a list holds after the edits it held before, or an insertion put it there. -/
theorem Edit.mem_apply {new : Nat → β} {l l' : List β} {e : Edit} (h : e.apply new l = some l') {x : β}
    (hx : x ∈ l') : x ∈ l ∨ ∃ i, e = inserted i ∧ x = new i := by
  cases e with
  | inserted i =>
    simp only [apply] at h
    split at h
    · rename_i hi
      obtain rfl := Option.some.inj h
      rcases List.eq_or_mem_of_mem_insertIdx hx with rfl | hx
      · exact .inr ⟨i, rfl, rfl⟩
      · exact .inl hx
    · exact nomatch h
  | removed i =>
    simp only [apply] at h
    split at h
    · obtain rfl := Option.some.inj h
      exact .inl (List.mem_of_mem_eraseIdx hx)
    · exact nomatch h

theorem mem_replay {new : Nat → β} {l l' : List β} {edits : List Edit} (h : replay new l edits = some l')
    {x : β} (hx : x ∈ l') : x ∈ l ∨ ∃ i, x = new i := by
  induction edits generalizing l with
  | nil =>
    obtain rfl := Option.some.inj h
    exact .inl hx
  | cons e edits ih =>
    rw [replay_cons] at h
    obtain ⟨next, hnx, hr⟩ := Option.bind_eq_some_iff.1 h
    rcases ih hr with hx | hn
    · rcases Edit.mem_apply hnx hx with hx | ⟨i, -, hi⟩
      · exact .inl hx
      · exact .inr ⟨i, hi⟩
    · exact .inr hn

end IndexEdits
