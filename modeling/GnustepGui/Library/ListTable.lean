import Mathlib

/-!
# Tables of lists

An association list from keys to lists of values, to which values are added at a key.
-/

abbrev ListTable (K V : Type*) := List (K × List V)

namespace ListTable

variable {K V W : Type*} [DecidableEq K]

/-- The value at the end of the list of the key, which is made if there is none. -/
def add (v : V) (k : K) : ListTable K V → ListTable K V
  | [] => [(k, [v])]
  | (key, l) :: rest => if key = k then (key, l ++ [v]) :: rest else (key, l) :: add v k rest

theorem lookup_cons (k key : K) (l : List V) (rest : ListTable K V) :
    List.lookup k ((key, l) :: rest) = if k = key then some l else List.lookup k rest := by
  rw [List.lookup]
  by_cases h : k = key
  · rw [h, beq_self_eq_true, if_pos rfl]
  · rw [beq_false_of_ne h, if_neg h]

theorem lookup_add (v : V) (k k' : K) (t : ListTable K V) :
    List.lookup k' (add v k t) =
      if k' = k then some ((List.lookup k t).getD [] ++ [v]) else List.lookup k' t := by
  induction t with
  | nil =>
    rw [add, lookup_cons]
    rfl
  | cons entry rest ih =>
    obtain ⟨key, l⟩ := entry
    rw [add]
    by_cases hkey : key = k
    · subst hkey
      rw [if_pos rfl, lookup_cons, lookup_cons, if_pos rfl]
      split
      · rfl
      · rw [lookup_cons, if_neg ‹_›]
    · rw [if_neg hkey, lookup_cons, lookup_cons, lookup_cons, ih, if_neg (Ne.symm hkey)]
      by_cases hk : k' = key
      · rw [if_pos hk, if_pos hk, if_neg]
        rintro rfl
        exact hkey hk.symm
      · rw [if_neg hk, if_neg hk]

theorem lookup_add_self (v : V) (k : K) (t : ListTable K V) :
    List.lookup k (add v k t) = some ((List.lookup k t).getD [] ++ [v]) := by
  rw [lookup_add, if_pos rfl]

theorem lookup_add_ne {k k' : K} (h : k' ≠ k) (v : V) (t : ListTable K V) :
    List.lookup k' (add v k t) = List.lookup k' t := by
  rw [lookup_add, if_neg h]

/-- Every list with its values replaced, if all of them can be. -/
def replace (f : V → Option W) (t : ListTable K V) : Option (ListTable K W) :=
  t.mapM fun entry => (entry.2.mapM f).map fun l => (entry.1, l)

theorem lookup_replace {f : V → Option W} {t : ListTable K V} {t' : ListTable K W} (h : replace f t = some t') (k : K) :
    (List.lookup k t = none ∧ List.lookup k t' = none) ∨
      ∃ l l', List.lookup k t = some l ∧ List.lookup k t' = some l' ∧ l.mapM f = some l' := by
  induction t generalizing t' with
  | nil =>
    obtain rfl := Option.some.inj h
    exact .inl ⟨rfl, rfl⟩
  | cons entry rest ih =>
    obtain ⟨key, l⟩ := entry
    simp only [replace, List.mapM_cons, Option.bind_eq_bind, Option.bind_eq_some_iff, Option.map_eq_some_iff,
      Option.pure_def, Option.some.injEq] at h
    obtain ⟨entry', ⟨l', hl', rfl⟩, rest', hr', rfl⟩ := h
    rw [lookup_cons, lookup_cons]
    split
    · exact .inr ⟨l, l', rfl, rfl, hl'⟩
    · exact ih hr'

end ListTable
