import GnustepGui.View.Tree

/-!
# The ancestor that two views share

`ancestorSharedWithView:` goes up from both views at once, one level at a time, wherever they stand. It meets the
lowest common ancestor all the same, since neither view leaves it behind before the tests for descendants say so.
-/

namespace GnustepGui.NSView

open Links

variable {V : Type*} [Fintype V] [DecidableEq V]

/-- `ancestorSharedWithView:`, for two views. The inner `none` is `nil`; the outer one stands for a call that does not
come back within `depth` calls. -/
def ancestorSharedWithView (tree : Links V) : (depth : Nat) → (self aView : V) → Option (Option V)
  | 0, _, _ => none
  | depth + 1, self, aView =>
    if self = aView then some (some self)
    else
      match isDescendantOf tree self aView with
      | none => none
      | some true => some (some aView)
      | some false =>
        match isDescendantOf tree aView self with
        | none => none
        | some true => some (some self)
        | some false =>
          match tree.parent self with
          | none => some none
          | some superView =>
            match tree.parent aView with
            | none => some none
            | some otherSuperView => ancestorSharedWithView tree depth superView otherSuperView

/-- The call comes back with the lowest common ancestor, or with `nil` for views of different trees, and it does not
matter which of the two views is asked. -/
def SharesLowest (tree : Links V) (self aView : V) : Prop :=
  ∃ shared, ancestorSharedWithView tree (Fintype.card V) self aView = some shared ∧
    ancestorSharedWithView tree (Fintype.card V) aView self = some shared ∧
    (∀ view, shared = some view ↔ tree.Lowest self aView view) ∧
    (shared = none ↔ ¬ Relation.EqvGen tree.Up self aView)

variable {tree : Links V}

theorem isDescendantOf_cases (ht : tree.IsForest) (self aView : V) :
    isDescendantOf tree self aView = some true ∧ tree.Below self aView ∨
      isDescendantOf tree self aView = some false ∧ ¬ tree.Below self aView := by
  obtain ⟨found, hf, hb⟩ := ht.isBelow_spec self aView
  cases found with
  | true => exact .inl ⟨hf, hb.mp rfl⟩
  | false => exact .inr ⟨hf, fun h => Bool.false_ne_true (hb.mpr h)⟩

/-- The views above `self` are enough for the depth. -/
theorem ancestorSharedWithView_spec (htr : tree.IsForest) {depth : Nat} {self : V}
    (hdep : (tree.above self).card < depth) (aView : V) :
    ∃ shared, ancestorSharedWithView tree depth self aView = some shared ∧
      (∀ view, shared = some view → tree.Lowest self aView view) ∧
      (shared = none → ∀ view, ¬ tree.Shared self aView view) := by
  induction depth generalizing self aView with
  | zero => exact absurd hdep (Nat.not_lt_zero _)
  | succ depth ih =>
    unfold ancestorSharedWithView
    by_cases heq : self = aView
    · subst heq
      rw [if_pos rfl]
      refine ⟨some self, rfl, ?_, fun h => nomatch h⟩
      rintro view ⟨⟩
      exact lowest_of_below (.refl self)
    rw [if_neg heq]
    rcases isDescendantOf_cases htr self aView with ⟨ht, hb⟩ | ⟨ht, hb⟩
    · rw [ht]
      refine ⟨some aView, rfl, ?_, fun h => nomatch h⟩
      rintro view ⟨⟩
      exact lowest_of_below hb
    rcases isDescendantOf_cases htr aView self with ⟨ht', hb'⟩ | ⟨ht', hb'⟩
    · rw [ht, ht']
      refine ⟨some self, rfl, ?_, fun h => nomatch h⟩
      rintro view ⟨⟩
      exact (lowest_of_below hb').symm
    rw [ht, ht']
    dsimp only
    cases hsl : tree.parent self with
    | none => exact ⟨none, rfl, fun _ h => (nomatch h), fun _ _ => not_shared_of_root hsl hb'⟩
    | some superView =>
      cases hother : tree.parent aView with
      | none =>
        refine ⟨none, rfl, fun _ h => (nomatch h), fun _ view hs => ?_⟩
        exact not_shared_of_root hother hb hs.symm
      | some otherSuperView =>
        have hc := htr.card_above_lt hsl
        obtain ⟨shared, hr, hl, hn⟩ := ih (show (tree.above superView).card < depth by omega) otherSuperView
        have hsm (view : V) := shared_iff_of_parents (c := view) hsl hother hb hb'
        refine ⟨shared, hr, fun view hv => ?_, fun h view hs => hn h view ((hsm view).mp hs)⟩
        obtain ⟨hs, hls⟩ := hl view hv
        exact ⟨(hsm view).mpr hs, fun d hd => hls d ((hsm d).mp hd)⟩

end GnustepGui.NSView
