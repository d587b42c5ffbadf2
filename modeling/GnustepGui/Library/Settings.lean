import Mathlib.Data.List.Perm.Basic

/-!
# Settings

A list of settings, of which each is for some component. `p` gives the value that a setting has for one
component, and `Once p l` says that no two settings of `l` are for it (`foldl_component`, `foldl_touched`).
-/

namespace Settings

variable {α σ β ν : Type*} {p : α → Option ν} {l k : List α}

def Once (p : α → Option ν) (l : List α) : Prop :=
  l.Pairwise fun a b => p a = none ∨ p b = none

theorem Once.sublist (h : Once p l) (hk : k.Sublist l) : Once p k := List.Pairwise.sublist hk h

theorem Once.perm (h : Once p l) (hk : k.Perm l) : Once p k := hk.symm.pairwise h Or.symm

theorem Once.findSome?_eq_some (h : Once p l) {a : α} {v : ν} (ha : a ∈ l) (hv : p a = some v) :
    l.findSome? p = some v := by
  induction l with
  | nil => cases ha
  | cons b l ih =>
    obtain ⟨hb, hl⟩ := List.pairwise_cons.mp h
    obtain rfl | ha := List.mem_cons.mp ha
    · rw [List.findSome?_cons, hv]
    · have hn : p b = none := (hb a ha).resolve_right (by rw [hv]; exact Option.some_ne_none v)
      rw [List.findSome?_cons, hn]
      exact ih hl ha

theorem Once.findSome?_perm (h : Once p l) (hk : k.Perm l) : k.findSome? p = l.findSome? p := by
  cases hl : k.findSome? p with
  | some v =>
    obtain ⟨a, ha, hv⟩ := List.exists_of_findSome?_eq_some hl
    exact (h.findSome?_eq_some (hk.mem_iff.mp ha) hv).symm
  | none =>
    rw [eq_comm, List.findSome?_eq_none_iff]
    exact fun a ha => List.findSome?_eq_none_iff.mp hl a (hk.mem_iff.mpr ha)

theorem findSome?_difference [DecidableEq α] [DecidableEq ν] (hl : Once p l) (hk : Once p k)
    (hi : ∀ a b v, p a = some v → p b = some v → a = b) :
    (l.filter (· ∉ k)).findSome? p = if l.findSome? p = k.findSome? p then none else l.findSome? p := by
  split
  · rename_i heq
    rw [List.findSome?_eq_none_iff]
    intro a ha
    obtain ⟨hal, hak⟩ := List.mem_filter.mp ha
    cases hv : p a with
    | none => rfl
    | some v =>
      rw [hl.findSome?_eq_some hal hv, eq_comm] at heq
      obtain ⟨b, hb, hbv⟩ := List.exists_of_findSome?_eq_some heq
      rw [hi a b v hv hbv] at hak
      exact absurd hb (of_decide_eq_true hak)
  · rename_i hne
    cases hv : l.findSome? p with
    | none =>
      rw [List.findSome?_eq_none_iff] at hv ⊢
      exact fun a ha => hv a (List.mem_filter.mp ha).1
    | some v =>
      obtain ⟨a, ha, hav⟩ := List.exists_of_findSome?_eq_some hv
      have hak : a ∉ k := fun hak => hne (by rw [hv, hk.findSome?_eq_some hak hav])
      exact (hl.sublist List.filter_sublist).findSome?_eq_some (List.mem_filter.mpr ⟨ha, decide_eq_true hak⟩) hav

theorem foldl_component {act : σ → α → σ} {π : σ → β} {g : ν → β → β} (hl : Once p l)
    (hn : ∀ s a, p a = none → π (act s a) = π s) (hs : ∀ s a v, p a = some v → π (act s a) = g v (π s))
    (s : σ) : π (l.foldl act s) = (l.findSome? p).elim (π s) fun v => g v (π s) := by
  induction l generalizing s with
  | nil => rfl
  | cons a l ih =>
    obtain ⟨ha, hl⟩ := List.pairwise_cons.mp hl
    rw [List.foldl_cons, ih hl, List.findSome?_cons]
    cases hv : p a with
    | none => rw [hn s a hv]
    | some v =>
      have hr : l.findSome? p = none := by
        rw [List.findSome?_eq_none_iff]
        exact fun b hb => (ha b hb).resolve_left (by rw [hv]; exact Option.some_ne_none v)
      rw [hr, Option.elim_none, Option.elim_some, hs s a v hv]

theorem foldl_touched (act : σ → α → σ) (π : σ → β) (g : β → β) (q : α → Prop) [DecidablePred q]
    (ht : ∀ s a, q a → π (act s a) = g (π s)) (hu : ∀ s a, ¬ q a → π (act s a) = π s)
    (hg : ∀ b, g (g b) = g b) (l : List α) (s : σ) :
    π (l.foldl act s) = if ∃ a ∈ l, q a then g (π s) else π s := by
  induction l generalizing s with
  | nil => exact (if_neg fun ⟨a, ha, _⟩ => nomatch ha).symm
  | cons a l ih =>
    rw [List.foldl_cons, ih]
    by_cases ha : q a
    · rw [ht s a ha, hg, ite_self, if_pos ⟨a, List.mem_cons_self, ha⟩]
    · have hc : (∃ b ∈ a :: l, q b) ↔ ∃ b ∈ l, q b := by rw [List.exists_mem_cons_iff, or_iff_right ha]
      rw [hu s a ha]
      exact if_congr hc.symm rfl rfl

theorem foldl_unchanged {act : σ → α → σ} {π : σ → β} (ha : ∀ s, ∀ a ∈ l, π (act s a) = π s) (s : σ) :
    π (l.foldl act s) = π s := by
  induction l generalizing s with
  | nil => rfl
  | cons a l ih =>
    rw [List.foldl_cons, ih fun s b hb => ha s b (List.mem_cons_of_mem _ hb)]
    exact ha s a List.mem_cons_self

end Settings
