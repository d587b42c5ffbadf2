import Mathlib.Data.Fintype.Card

/-!
# Linked trees

Nodes with a link to the parent and an ordered list of children. `detach` takes a node out of its parent and
`attach` puts one that has no parent below another, and the links stay those of a forest where the new parent
is not below the node.
-/

structure Links (α : Type*) where
  parent : α → Option α
  children : α → List α

namespace Links

variable {α : Type*} (f : Links α)

def Up (a b : α) : Prop :=
  f.parent a = some b

/-- `a` is `b` or below it. -/
def Below (a b : α) : Prop :=
  Relation.ReflTransGen f.Up a b

structure IsForest : Prop where
  acyclic : ∀ a, ¬ Relation.TransGen f.Up a a
  mem_children_iff : ∀ a p, a ∈ f.children p ↔ f.parent a = some p
  nodup : ∀ p, (f.children p).Nodup

section Operations

variable [DecidableEq α]

def detach (a : α) : Links α :=
  match f.parent a with
  | none => f
  | some p =>
    { parent := Function.update f.parent a none
      children := Function.update f.children p ((f.children p).filter (· ≠ a)) }

def attach (p a : α) (i : Nat) : Links α where
  parent := Function.update f.parent a (some p)
  children := Function.update f.children p ((f.children p).insertIdx i a)

/-- The children of `p` in the order of `l`. -/
def reorder (p : α) (l : List α) : Links α :=
  { f with children := Function.update f.children p l }

/-- The search for `b` from `a` upwards, with a bound on its depth. -/
def isBelow : Nat → α → α → Option Bool
  | 0, _, _ => none
  | depth + 1, a, b =>
    if b = a then some true
    else
      match f.parent a with
      | none => some false
      | some p => if p = b then some true else isBelow depth p b

end Operations

variable {f}

/-! ## Going up -/

theorem Below.refl (a : α) : f.Below a a := Relation.ReflTransGen.refl

theorem below_iff_of_parent_eq_none {a b : α} (h : f.parent a = none) : f.Below a b ↔ b = a := by
  constructor
  · intro hb
    obtain rfl | ⟨c, hup, -⟩ := Relation.ReflTransGen.cases_head hb
    · rfl
    · exact nomatch h.symm.trans hup
  · rintro rfl
    exact .refl b

theorem below_iff_of_parent_eq_some {a b p : α} (h : f.parent a = some p) : f.Below a b ↔ b = a ∨ f.Below p b := by
  constructor
  · intro hb
    obtain rfl | ⟨c, hup, hr⟩ := Relation.ReflTransGen.cases_head hb
    · exact .inl rfl
    · obtain rfl := Option.some.inj (h.symm.trans hup)
      exact .inr hr
  · rintro (rfl | hr)
    · exact .refl b
    · exact .head h hr

open Classical in
/-- The nodes above a node. -/
noncomputable def above [Fintype α] (f : Links α) (a : α) : Finset α :=
  Finset.univ.filter fun b => Relation.TransGen f.Up a b

theorem mem_above [Fintype α] {a b : α} : b ∈ f.above a ↔ Relation.TransGen f.Up a b := by
  simp [above]

theorem IsForest.card_above [Fintype α] (h : f.IsForest) (a : α) : (f.above a).card < Fintype.card α := by
  refine Finset.card_lt_card (Finset.ssubset_iff_of_subset (Finset.subset_univ _) |>.mpr ⟨a, Finset.mem_univ a, ?_⟩)
  exact fun ha => h.acyclic a (mem_above.mp ha)

theorem IsForest.card_above_lt [Fintype α] (h : f.IsForest) {a p : α} (hp : f.parent a = some p) :
    (f.above p).card < (f.above a).card := by
  have hup : Relation.TransGen f.Up a p := .single hp
  refine Finset.card_lt_card ((Finset.ssubset_iff_of_subset fun c hc => ?_).mpr ⟨p, mem_above.mpr hup, ?_⟩)
  · exact mem_above.mpr (hup.trans (mem_above.mp hc))
  · exact fun hc => h.acyclic p (mem_above.mp hc)

/-- In a forest of finitely many nodes the search ends. -/
theorem IsForest.isBelow_spec [Fintype α] [DecidableEq α] (h : f.IsForest) (a b : α) :
    ∃ found, f.isBelow (Fintype.card α) a b = some found ∧ (found = true ↔ f.Below a b) := by
  suffices hd : ∀ depth a, (f.above a).card < depth →
      ∃ found, f.isBelow depth a b = some found ∧ (found = true ↔ f.Below a b) from hd _ a (h.card_above a)
  intro depth
  induction depth with
  | zero => exact fun a ha => absurd ha (Nat.not_lt_zero _)
  | succ depth ih =>
    intro a ha
    rw [isBelow]
    by_cases hab : b = a
    · rw [if_pos hab]
      exact ⟨true, rfl, iff_of_true rfl (hab ▸ .refl b)⟩
    · rw [if_neg hab]
      cases hp : f.parent a with
      | none =>
        refine ⟨false, rfl, iff_of_false Bool.false_ne_true fun hb => hab ?_⟩
        exact (below_iff_of_parent_eq_none hp).mp hb
      | some p =>
        simp only
        by_cases hpb : p = b
        · rw [if_pos hpb]
          exact ⟨true, rfl, iff_of_true rfl (.single (hp.trans (congrArg some hpb)))⟩
        · rw [if_neg hpb]
          have hc := h.card_above_lt hp
          obtain ⟨found, hf, hi⟩ := ih p (by omega)
          refine ⟨found, hf, hi.trans ?_⟩
          rw [below_iff_of_parent_eq_some hp, or_iff_right hab]

/-! ## Common ancestors -/

theorem IsForest.below_antisymm (h : f.IsForest) {a b : α} (ha : f.Below a b) (hb : f.Below b a) : a = b := by
  rcases Relation.reflTransGen_iff_eq_or_transGen.mp ha with rfl | hup
  · rfl
  · exact absurd (hup.trans_left hb) (h.acyclic a)

/-- `c` is above both, or one of them. -/
def Shared (f : Links α) (a b c : α) : Prop := f.Below a c ∧ f.Below b c

/-- Every common ancestor is above `c`, or is `c`. -/
def Lowest (f : Links α) (a b c : α) : Prop := f.Shared a b c ∧ ∀ d, f.Shared a b d → f.Below c d

theorem Shared.symm {a b c : α} (h : f.Shared a b c) : f.Shared b a c := And.symm h

theorem Lowest.symm {a b c : α} (h : f.Lowest a b c) : f.Lowest b a c := ⟨h.1.symm, fun d hd => h.2 d hd.symm⟩

theorem IsForest.lowest_unique (h : f.IsForest) {a b c d : α} (hc : f.Lowest a b c) (hd : f.Lowest a b d) : c = d :=
  h.below_antisymm (hc.2 d hd.1) (hd.2 c hc.1)

/-- Two nodes of one tree, whichever way the links are followed, have a common ancestor. -/
theorem exists_shared_iff {a b : α} : (∃ c, f.Shared a b c) ↔ Relation.EqvGen f.Up a b := by
  have heq : Equivalence (Relation.Join (Relation.ReflTransGen f.Up)) :=
    Relation.equivalence_join_reflTransGen fun a b c hb hc => by
      obtain rfl : b = c := Option.some.inj (hb.symm.trans hc)
      exact ⟨b, .refl, .refl⟩
  constructor
  · rintro ⟨c, ha, hbc⟩
    have hup : ∀ {x y : α}, f.Below x y → Relation.EqvGen f.Up x y := fun hx => by
      induction hx with
      | refl => exact .refl _
      | tail _ hs ih => exact .trans _ _ _ ih (.rel _ _ hs)
    exact .trans _ c _ (hup ha) (.symm _ _ (hup hbc))
  · intro hg
    induction hg with
    | rel x y hx => exact ⟨y, .single hx, .refl y⟩
    | refl x => exact heq.refl x
    | symm x y _ ih => exact heq.symm ih
    | trans x y z _ _ hx hy => exact heq.trans hx hy

theorem shared_iff_of_parents {a b p q c : α} (ha : f.parent a = some p) (hb : f.parent b = some q)
    (hab : ¬ f.Below a b) (hba : ¬ f.Below b a) : f.Shared a b c ↔ f.Shared p q c := by
  unfold Shared
  rw [below_iff_of_parent_eq_some ha, below_iff_of_parent_eq_some hb]
  constructor
  · rintro ⟨rfl | hp, hbc⟩
    · exact absurd ((below_iff_of_parent_eq_some hb).mpr hbc) hba
    · rcases hbc with rfl | hq
      · exact absurd ((below_iff_of_parent_eq_some ha).mpr (.inr hp)) hab
      · exact ⟨hp, hq⟩
  · exact fun ⟨hp, hq⟩ => ⟨.inr hp, .inr hq⟩

theorem lowest_of_below {a b : α} (h : f.Below a b) : f.Lowest a b b := ⟨⟨h, .refl b⟩, fun _ hd => hd.2⟩

theorem not_shared_of_root {a b c : α} (ha : f.parent a = none) (hba : ¬ f.Below b a) : ¬ f.Shared a b c := by
  rintro ⟨hac, hb⟩
  rw [(below_iff_of_parent_eq_none ha).mp hac] at hb
  exact hba hb

/-! ## Taking a node out -/

section Operations

variable [DecidableEq α] {a p : α}

theorem detach_parent (a : α) : (f.detach a).parent = Function.update f.parent a none := by
  unfold detach
  cases h : f.parent a with
  | none => exact (Function.update_eq_self_iff.mpr h.symm).symm
  | some p => rfl

theorem detach_eq_self (h : f.parent a = none) : f.detach a = f := by
  unfold detach
  rw [h]

variable {b c : α}

theorem up_of_up_detach (h : (f.detach a).Up b c) : f.Up b c := by
  rw [Up, detach_parent] at h
  by_cases hb : b = a
  · rw [hb, Function.update_self] at h
    cases h
  · rwa [Function.update_of_ne hb] at h

theorem below_of_below_detach (h : (f.detach a).Below b c) : f.Below b c :=
  Relation.ReflTransGen.mono (fun _ _ => up_of_up_detach) b c h

theorem IsForest.detach_children (h : f.IsForest) (a q : α) :
    (f.detach a).children q = (f.children q).filter (· ≠ a) := by
  have hother (hq : f.parent a ≠ some q) : (f.children q).filter (· ≠ a) = f.children q := by
    rw [List.filter_eq_self]
    intro b hb
    refine decide_eq_true fun hba => hq ?_
    rw [← hba]
    exact (h.mem_children_iff b q).mp hb
  unfold detach
  cases hp : f.parent a with
  | none => exact (hother (by rw [hp]; exact (nomatch ·))).symm
  | some p =>
    by_cases hq : q = p
    · rw [hq]
      exact Function.update_self ..
    · rw [hother (by rw [hp]; exact fun heq => hq (Option.some.inj heq).symm)]
      exact Function.update_of_ne hq ..

theorem IsForest.detach (h : f.IsForest) (a : α) : (f.detach a).IsForest where
  acyclic b hc := h.acyclic b (Relation.TransGen.mono (fun _ _ => up_of_up_detach) b b hc)
  mem_children_iff b q := by
    rw [h.detach_children, detach_parent, List.mem_filter, h.mem_children_iff, decide_eq_true_iff]
    by_cases hb : b = a
    · rw [hb, Function.update_self]
      exact iff_of_false (fun hba => hba.2 rfl) (nomatch ·)
    · rw [Function.update_of_ne hb]
      exact and_iff_left hb
  nodup q := by
    rw [h.detach_children]
    exact (h.nodup q).filter _

/-! ## Putting a node below another -/

variable {i : Nat}

theorem attach_parent_self : (f.attach p a i).parent a = some p := Function.update_self ..

theorem attach_parent_of_ne {b : α} (hb : b ≠ a) : (f.attach p a i).parent b = f.parent b :=
  Function.update_of_ne hb ..

theorem below_of_below_attach (hl : ¬ f.Below p a) (h : (f.attach p a i).Below b c) :
    f.Below b c ∨ f.Below b a ∧ f.Below p c := by
  induction h with
  | refl => exact .inl (.refl b)
  | @tail c d _ hup ih =>
    by_cases hc : c = a
    · subst hc
      obtain rfl : p = d := Option.some.inj (attach_parent_self.symm.trans hup)
      obtain hb | ⟨-, hb⟩ := ih
      · exact .inr ⟨hb, .refl p⟩
      · exact absurd hb hl
    · have hup : f.Up c d := (attach_parent_of_ne hc).symm.trans hup
      obtain hb | ⟨hba, hb⟩ := ih
      · exact .inl (hb.tail hup)
      · exact .inr ⟨hba, hb.tail hup⟩

theorem below_attach_iff (hl : ¬ f.Below p a) {c : α} (h : (f.attach p a i).Below p c) : f.Below p c := by
  obtain hb | ⟨hb, -⟩ := below_of_below_attach hl h
  · exact hb
  · exact absurd hb hl

theorem IsForest.attach (h : f.IsForest) {i : Nat} (ha : f.parent a = none) (hl : ¬ f.Below p a)
    (hi : i ≤ (f.children p).length) : (f.attach p a i).IsForest where
  acyclic b hc := by
    obtain ⟨c, hup, hr⟩ := Relation.TransGen.head'_iff.mp hc
    by_cases hb : b = a
    · subst hb
      obtain rfl : p = c := Option.some.inj (attach_parent_self.symm.trans hup)
      exact hl (below_attach_iff hl hr)
    · have hup : f.Up b c := (attach_parent_of_ne hb).symm.trans hup
      obtain hblw | ⟨hca, hp⟩ := below_of_below_attach hl hr
      · exact h.acyclic b (Relation.TransGen.head' hup hblw)
      · exact hl (hp.trans (hca.head hup))
  mem_children_iff b q := by
    by_cases hq : q = p
    · subst hq
      have hk : (f.attach q a i).children q = (f.children q).insertIdx i a := Function.update_self ..
      rw [hk, List.mem_insertIdx hi, h.mem_children_iff]
      by_cases hb : b = a
      · subst hb
        exact iff_of_true (.inl rfl) attach_parent_self
      · rw [attach_parent_of_ne hb, or_iff_right hb]
    · have hk : (f.attach p a i).children q = f.children q := Function.update_of_ne hq ..
      rw [hk, h.mem_children_iff]
      by_cases hb : b = a
      · subst hb
        rw [ha, attach_parent_self]
        exact iff_of_false (nomatch ·) fun heq => hq (Option.some.inj heq).symm
      · rw [attach_parent_of_ne hb]
  nodup q := by
    by_cases hq : q = p
    · subst hq
      have hk : (f.attach q a i).children q = (f.children q).insertIdx i a := Function.update_self ..
      have hn : a ∉ f.children q := by
        rw [h.mem_children_iff, ha]
        exact (nomatch ·)
      rw [hk, (List.perm_insertIdx a (f.children q) hi).nodup_iff]
      exact List.nodup_cons.mpr ⟨hn, h.nodup q⟩
    · have hk : (f.attach p a i).children q = f.children q := Function.update_of_ne hq ..
      rw [hk]
      exact h.nodup q

theorem IsForest.reorder (h : f.IsForest) {l : List α} (hl : l.Nodup) (hm : ∀ b, b ∈ l ↔ b ∈ f.children p) :
    (f.reorder p l).IsForest where
  acyclic := h.acyclic
  mem_children_iff b q := by
    by_cases hq : q = p
    · subst hq
      have hk : (f.reorder q l).children q = l := Function.update_self ..
      rw [hk, hm]
      exact h.mem_children_iff b q
    · have hk : (f.reorder p l).children q = f.children q := Function.update_of_ne hq ..
      rw [hk]
      exact h.mem_children_iff b q
  nodup q := by
    by_cases hq : q = p
    · subst hq
      have hk : (f.reorder q l).children q = l := Function.update_self ..
      rw [hk]
      exact hl
    · have hk : (f.reorder p l).children q = f.children q := Function.update_of_ne hq ..
      rw [hk]
      exact h.nodup q

end Operations

end Links
