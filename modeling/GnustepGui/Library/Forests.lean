import Mathlib

/-!
# Forests of arrays

The array of the roots and the array of the children of each node, with the paths of indexes that
lead to the nodes (`walk`). Taking nodes out of the arrays moves their later siblings: a path then
leads to a node whose own path was nowhere smaller (`walk_keeping_le`), and to the same node as before
exactly when no node taken out displaces it (`walk_keeping_of_not_displaced`,
`not_displaces_of_walk_keeping`).
-/

namespace Forests

variable {α : Type*}

/-! ## Lists with some elements taken out -/

theorem getElem?_filter_le {l : List α} {keep : α → Bool} {i : Nat} {x : α}
    (h : (l.filter keep)[i]? = some x) : ∃ j, i ≤ j ∧ l[j]? = some x := by
  induction l generalizing i with
  | nil => simp at h
  | cons a l ih =>
    by_cases ha : keep a
    · rw [List.filter_cons_of_pos ha] at h
      cases i with
      | zero => exact ⟨0, Nat.le_refl 0, h⟩
      | succ i =>
        obtain ⟨j, hi, hj⟩ := ih h
        exact ⟨j + 1, Nat.succ_le_succ hi, hj⟩
    · rw [List.filter_cons_of_neg ha] at h
      obtain ⟨j, hi, hj⟩ := ih h
      exact ⟨j + 1, Nat.le_succ_of_le hi, hj⟩

theorem getElem?_filter_of_kept {l : List α} {keep : α → Bool} {i : Nat}
    (h : ∀ j ≤ i, ∀ x, l[j]? = some x → keep x) : (l.filter keep)[i]? = l[i]? := by
  induction l generalizing i with
  | nil => rfl
  | cons a l ih =>
    have ha : keep a := h 0 (Nat.zero_le i) a rfl
    rw [List.filter_cons_of_pos ha]
    cases i with
    | zero => rfl
    | succ i => exact ih fun j hj x hx => h (j + 1) (Nat.succ_le_succ hj) x hx

theorem kept_of_getElem?_filter {l : List α} {keep : α → Bool} {i : Nat} {x : α} (hnd : l.Nodup)
    (hx : l[i]? = some x) (h : (l.filter keep)[i]? = some x) : ∀ j ≤ i, ∀ y, l[j]? = some y → keep y := by
  induction l generalizing i with
  | nil => simp at hx
  | cons a l ih =>
    rw [List.nodup_cons] at hnd
    by_cases ha : keep a
    · rw [List.filter_cons_of_pos ha] at h
      intro j hj y hy
      cases j with
      | zero =>
        obtain rfl := Option.some.inj hy
        exact ha
      | succ j =>
        cases i with
        | zero => omega
        | succ i => exact ih hnd.2 hx h j (by omega) y hy
    · rw [List.filter_cons_of_neg ha] at h
      obtain ⟨j, hij, hj⟩ := getElem?_filter_le h
      have hl : (a :: l)[j + 1]? = some x := hj
      obtain ⟨hi, hx⟩ := List.getElem?_eq_some_iff.1 hx
      obtain ⟨hj', hl⟩ := List.getElem?_eq_some_iff.1 hl
      have heq := (List.Nodup.getElem_inj_iff (List.nodup_cons.2 hnd)).1 (hx.trans hl.symm)
      omega

theorem forall₂_sum {β : Type*} {f : β → Nat} {R : β → β → Prop} (hle : ∀ a b, R a b → f a ≤ f b)
    (heq : ∀ a b, R a b → f b ≤ f a → a = b) {l l' : List β} (h : List.Forall₂ R l l') :
    (l.map f).sum ≤ (l'.map f).sum ∧ ((l'.map f).sum ≤ (l.map f).sum → l = l') := by
  induction h with
  | nil => exact ⟨Nat.le_refl _, fun _ => rfl⟩
  | cons ha hr ih =>
    obtain ⟨hs, hb⟩ := ih
    have hf := hle _ _ ha
    simp only [List.map_cons, List.sum_cons]
    refine ⟨by omega, fun hl => ?_⟩
    rw [heq _ _ ha (by omega), hb (by omega)]

/-! ## Walks -/

/-- The array of the roots, at `none`, and that of the children of each node. -/
abbrev Arrays (α : Type*) := Option α → Option (List α)

/-- Follows the indexes of a path, from a node or from the top. -/
def walk (arrays : Arrays α) : Option α → List Nat → Option (Option α)
  | s, [] => some s
  | s, i :: path => (arrays s).bind fun l => (l[i]?).bind fun x => walk arrays (some x) path

/-- No node stands in two places. -/
structure IsForest (arrays : Arrays α) : Prop where
  nodup : ∀ {s l}, arrays s = some l → l.Nodup
  parent : ∀ {s s' l l' x}, arrays s = some l → arrays s' = some l' → x ∈ l → x ∈ l' → s = s'

section Walk

variable {arrays : Arrays α} {s t : Option α} {p q : List Nat} {x : α}

theorem walk_cons {i : Nat} : walk arrays s (i :: p) = some t ↔
      ∃ l x, arrays s = some l ∧ l[i]? = some x ∧ walk arrays (some x) p = some t := by
  simp only [walk, Option.bind_eq_some_iff]
  constructor
  · rintro ⟨l, hl, x, hx, ht⟩
    exact ⟨l, x, hl, hx, ht⟩
  · rintro ⟨l, x, hl, hx, ht⟩
    exact ⟨l, hl, x, hx, ht⟩

theorem walk_append : walk arrays s (p ++ q) = some t ↔ ∃ u, walk arrays s p = some u ∧ walk arrays u q = some t := by
  induction p generalizing s with
  | nil => simp [walk]
  | cons i p ih =>
    rw [List.cons_append, walk_cons]
    constructor
    · rintro ⟨l, x, hl, hx, ht⟩
      obtain ⟨u, hu, ht⟩ := ih.1 ht
      exact ⟨u, walk_cons.2 ⟨l, x, hl, hx, hu⟩, ht⟩
    · rintro ⟨u, hu, ht⟩
      obtain ⟨l, x, hl, hx, hu⟩ := walk_cons.1 hu
      exact ⟨l, x, hl, hx, ih.2 ⟨u, hu, ht⟩⟩

theorem walk_concat {i : Nat} : walk arrays s (p ++ [i]) = some t ↔
      ∃ u l x, walk arrays s p = some u ∧ arrays u = some l ∧ l[i]? = some x ∧ t = some x := by
  rw [walk_append]
  constructor
  · rintro ⟨u, hu, ht⟩
    obtain ⟨l, x, hl, hx, ht⟩ := walk_cons.1 ht
    exact ⟨u, l, x, hu, hl, hx, (Option.some.inj ht).symm⟩
  · rintro ⟨u, l, x, hu, hl, hx, rfl⟩
    exact ⟨u, hu, walk_cons.2 ⟨l, x, hl, hx, rfl⟩⟩

theorem walk_ne_top (hp : p ≠ []) : walk arrays s p ≠ some none := by
  intro h
  obtain ⟨q, i, rfl⟩ := (List.eq_nil_or_concat p).resolve_left hp
  obtain ⟨u, l, x, -, -, -, ht⟩ := walk_concat.1 (List.concat_eq_append ▸ h)
  exact nomatch ht

/-- What a path leads to stands in an array. -/
theorem mem_of_walk (h : walk arrays none p = some (some x)) : ∃ u l, arrays u = some l ∧ x ∈ l := by
  rcases List.eq_nil_or_concat p with rfl | ⟨q, i, rfl⟩
  · exact nomatch h
  · rw [List.concat_eq_append, walk_concat] at h
    obtain ⟨u, l, y, -, hl, hy, heq⟩ := h
    obtain rfl := Option.some.inj heq
    exact ⟨u, l, hl, List.mem_of_getElem? hy⟩

theorem IsForest.walk_injective (h : IsForest arrays) (hp : walk arrays none p = some t)
    (hq : walk arrays none q = some t) : p = q := by
  induction p using List.reverseRecOn generalizing q t with
  | nil =>
    obtain rfl := Option.some.inj hp
    by_contra hne
    exact walk_ne_top (Ne.symm hne) hq
  | append_singleton p i ih =>
    obtain ⟨u, l, x, hu, hl, hx, rfl⟩ := walk_concat.1 hp
    rcases List.eq_nil_or_concat q with rfl | ⟨q, j, rfl⟩
    · exact nomatch hq
    · rw [List.concat_eq_append, walk_concat] at hq
      obtain ⟨u', l', x', hu', hl', hx', heq⟩ := hq
      obtain rfl := Option.some.inj heq
      obtain rfl := h.parent hl hl' (List.mem_of_getElem? hx) (List.mem_of_getElem? hx')
      obtain rfl := Option.some.inj (hl.symm.trans hl')
      obtain ⟨hi, hx⟩ := List.getElem?_eq_some_iff.1 hx
      obtain ⟨hj, hx'⟩ := List.getElem?_eq_some_iff.1 hx'
      rw [ih hu hu', (List.Nodup.getElem_inj_iff (h.nodup hl)).1 (hx.trans hx'.symm), List.concat_eq_append]

end Walk

/-! ## Adding a node -/

section Adding

variable [DecidableEq α] {arrays : Arrays α} {s t u : Option α} {l : List α} {p : List Nat} {x : α}

/-- The arrays with a node put behind the others of an array. -/
def adding (arrays : Arrays α) (s : Option α) (l : List α) (x : α) : Arrays α :=
  Function.update arrays s (some (l ++ [x]))

theorem adding_self : adding arrays s l x s = some (l ++ [x]) := Function.update_self ..

theorem adding_cases {m : List α} (hs : arrays s = some l) (hm : adding arrays s l x u = some m) :
    (u = s ∧ m = l ++ [x]) ∨ (u ≠ s ∧ arrays u = some m) := by
  by_cases hu : u = s
  · subst hu
    rw [adding_self] at hm
    exact .inl ⟨rfl, (Option.some.inj hm).symm⟩
  · rw [adding, Function.update_of_ne hu] at hm
    exact .inr ⟨hu, hm⟩

theorem IsForest.adding (h : IsForest arrays) (hs : arrays s = some l)
    (hf : ∀ u m, arrays u = some m → x ∉ m) : IsForest (adding arrays s l x) where
  nodup hm := by
    rcases adding_cases hs hm with ⟨rfl, rfl⟩ | ⟨-, ho⟩
    · rw [← List.concat_eq_append]
      exact (List.nodup_concat _ _).2 ⟨hf _ _ hs, h.nodup hs⟩
    · exact h.nodup ho
  parent hm hm' hy hy' := by
    rcases adding_cases hs hm with ⟨rfl, rfl⟩ | ⟨-, ho⟩
    · rcases adding_cases hs hm' with ⟨rfl, rfl⟩ | ⟨-, ho'⟩
      · rfl
      · rcases List.mem_append.1 hy with hy | hy
        · exact h.parent hs ho' hy hy'
        · obtain rfl := List.mem_singleton.1 hy
          exact absurd hy' (hf _ _ ho')
    · rcases adding_cases hs hm' with ⟨rfl, rfl⟩ | ⟨-, ho'⟩
      · rcases List.mem_append.1 hy' with hy' | hy'
        · exact h.parent ho hs hy hy'
        · obtain rfl := List.mem_singleton.1 hy'
          exact absurd hy (hf _ _ ho)
      · exact h.parent ho ho' hy hy'

/-- A path leads to the same node as before. -/
theorem walk_adding (hs : arrays s = some l) (h : walk arrays u p = some t) :
    walk (adding arrays s l x) u p = some t := by
  induction p generalizing u with
  | nil => exact h
  | cons i p ih =>
    obtain ⟨m, y, hm, hy, ht⟩ := walk_cons.1 h
    by_cases hu : u = s
    · subst hu
      obtain rfl := Option.some.inj (hs.symm.trans hm)
      have hlt := (List.getElem?_eq_some_iff.1 hy).1
      exact walk_cons.2 ⟨l ++ [x], y, adding_self, (List.getElem?_append_left hlt).trans hy, ih ht⟩
    · exact walk_cons.2 ⟨m, y, (Function.update_of_ne hu _ _).trans hm, hy, ih ht⟩

end Adding

/-! ## Taking nodes out -/

/-- The arrays with only the nodes that are kept. -/
def keeping (keep : α → Bool) (arrays : Arrays α) : Arrays α := fun s => (arrays s).map (·.filter keep)

/-- Taking out the node of the first path moves the node of the second one, or cuts it off. -/
def Displaces (p r : List Nat) : Prop :=
  ∃ q a b s, p = q ++ [a] ∧ r = q ++ b :: s ∧ (a < b ∨ a = b ∧ s ≠ [])

section Keeping

variable {arrays : Arrays α} {keep : α → Bool} {s t : Option α} {p r : List Nat} {x y : α}

theorem keeping_eq_some {l : List α} : keeping keep arrays s = some l ↔ ∃ l', arrays s = some l' ∧ l'.filter keep = l :=
  Option.map_eq_some_iff

theorem IsForest.keeping (h : IsForest arrays) (keep : α → Bool) : IsForest (keeping keep arrays) where
  nodup hl := by
    obtain ⟨l', hl', rfl⟩ := keeping_eq_some.1 hl
    exact (h.nodup hl').filter _
  parent hl hm hx hxm := by
    obtain ⟨l', hl', rfl⟩ := keeping_eq_some.1 hl
    obtain ⟨m', hm', rfl⟩ := keeping_eq_some.1 hm
    exact h.parent hl' hm' (List.mem_filter.1 hx).1 (List.mem_filter.1 hxm).1

theorem walk_keeping_le (h : walk (keeping keep arrays) s p = some t) :
    ∃ p', List.Forall₂ (· ≤ ·) p p' ∧ walk arrays s p' = some t := by
  induction p generalizing s with
  | nil => exact ⟨[], .nil, h⟩
  | cons i p ih =>
    obtain ⟨l, x, hl, hx, ht⟩ := walk_cons.1 h
    obtain ⟨l', hl', rfl⟩ := keeping_eq_some.1 hl
    obtain ⟨j, hi, hj⟩ := getElem?_filter_le hx
    obtain ⟨p', hp', ht⟩ := ih ht
    exact ⟨j :: p', .cons hi hp', walk_cons.2 ⟨l', x, hl', hj, ht⟩⟩

theorem walk_keeping_of_not_displaced (h : IsForest arrays) (hp : walk arrays none p = some (some x))
    (ho : ∀ y, keep y = false → ∃ r, walk arrays none r = some (some y) ∧ r ≠ p ∧ ¬ Displaces r p) :
    walk (keeping keep arrays) none p = some (some x) := by
  have hf : ∀ q r, p = q ++ r → walk (keeping keep arrays) none q = walk arrays none q := by
    intro q
    induction q using List.reverseRecOn with
    | nil => exact fun _ _ => rfl
    | append_singleton q b ih =>
      intro r hs
      rw [List.append_assoc, List.singleton_append] at hs
      obtain ⟨u, hu, hrs⟩ := walk_append.1 (hs ▸ hp)
      obtain ⟨l, v, hl, hv, -⟩ := walk_cons.1 hrs
      have hk : ∀ a ≤ b, ∀ y, l[a]? = some y → keep y := by
        intro a ha y hy
        by_contra hc
        obtain ⟨r', hr', hne, hn⟩ := ho y (Bool.eq_false_iff.2 hc)
        obtain rfl := h.walk_injective hr' (walk_concat.2 ⟨u, l, y, hu, hl, hy, rfl⟩)
        rcases Nat.lt_or_eq_of_le ha with hlt | rfl
        · exact hn ⟨q, a, b, r, rfl, hs, .inl hlt⟩
        · by_cases hr : r = []
          · exact hne (hr ▸ hs.symm)
          · exact hn ⟨q, a, a, r, rfl, hs, .inr ⟨rfl, hr⟩⟩
      have hsm := (getElem?_filter_of_kept hk).trans hv
      rw [walk_concat.2 ⟨u, l, v, hu, hl, hv, rfl⟩]
      exact walk_concat.2 ⟨u, _, v, (ih _ hs).trans hu, keeping_eq_some.2 ⟨l, hl, rfl⟩, hsm, rfl⟩
  rw [hf p [] (List.append_nil p).symm]
  exact hp

theorem not_displaces_of_walk_keeping (h : IsForest arrays) (hp : walk arrays none p = some (some x))
    (hkt : walk (keeping keep arrays) none p = some (some x)) (hr : walk arrays none r = some (some y))
    (ho : keep y = false) : ¬ Displaces r p := by
  rintro ⟨q, a, b, s, rfl, rfl, ha⟩
  obtain ⟨u, hu, hrs⟩ := walk_append.1 hkt
  obtain ⟨l, v, hl, hv, hrs⟩ := walk_cons.1 hrs
  obtain ⟨l', hl', rfl⟩ := keeping_eq_some.1 hl
  obtain ⟨q', hq', hu⟩ := walk_keeping_le hu
  obtain ⟨b', -, hv'⟩ := getElem?_filter_le hv
  obtain ⟨s', hs', hrs⟩ := walk_keeping_le hrs
  have hpt : q ++ b :: s = q' ++ b' :: s' :=
    h.walk_injective hp (walk_append.2 ⟨u, hu, walk_cons.2 ⟨l', v, hl', hv', hrs⟩⟩)
  obtain ⟨rfl, ht⟩ := List.append_inj hpt hq'.length_eq
  obtain ⟨rfl, -⟩ := List.cons.inj ht
  obtain ⟨u', m, z, hu', hm, hz, heq⟩ := walk_concat.1 hr
  obtain rfl := Option.some.inj (hu.symm.trans hu')
  obtain rfl := Option.some.inj (hl'.symm.trans hm)
  obtain rfl := Option.some.inj heq
  have hk := kept_of_getElem?_filter (h.nodup hl') hv' hv a (by omega) _ hz
  rw [ho] at hk
  exact Bool.noConfusion hk

/-- Paths that lead to as many nodes as their indexes add up to are the paths of these nodes. -/
theorem eq_of_forall₂_le_of_perm {paths others : List (List Nat)}
    (h : List.Forall₂ (List.Forall₂ (· ≤ ·)) paths others) (hpm : paths.Perm others) : paths = others := by
  have ho (p r : List Nat) (hp : List.Forall₂ (· ≤ ·) p r) : p.sum ≤ r.sum ∧ (r.sum ≤ p.sum → p = r) := by
    have hs := forall₂_sum (f := fun i : Nat => i) (fun a b hab => hab)
      (fun a b hab hb => Nat.le_antisymm hab hb) hp
    simpa only [List.map_id'] using hs
  have ha := forall₂_sum (f := List.sum) (fun p r hp => (ho p r hp).1)
    (fun p r hp => (ho p r hp).2) h
  exact ha.2 (Nat.le_of_eq (hpm.map List.sum).sum_nat.symm)

end Keeping

end Forests
