import Mathlib
import GnustepGui.Library.Links
import GnustepGui.Library.Positions

/-!
# The tree of views

`_super_view` and `_sub_views` of the views, which are the `parent` and the `children` of `Links`. What the
views, the window and the layout are told of a change is left out.

`isDescendantOf:` goes up as far as there are views, and `none` stands for one that does not come back.
-/

namespace GnustepGui.NSView

open Links

inductive NSWindowOrderingMode where
  | above | below | out
  deriving DecidableEq, Repr

inductive Outcome where
  | returned | raised
  deriving DecidableEq, Repr

section Calls

variable {V : Type*} [Fintype V] [DecidableEq V]

def isDescendantOf (tree : Links V) (self aView : V) : Option Bool :=
  tree.isBelow (Fintype.card V) self aView

def removeFromSuperview (tree : Links V) (self : V) : Links V :=
  tree.detach self

/-- Where a view goes among the subviews, `NSNotFound` being the bottom or the top. -/
def subviewIndex (subviews : List V) (place : NSWindowOrderingMode) (otherView : Option V) : Nat :=
  match otherView.bind subviews.idxOf? with
  | none => if place = .below then 0 else subviews.length
  | some index => if place ≠ .below then index + 1 else index

/-- `addSubview:positioned:relativeTo:` -/
def addSubview (tree : Links V) (self : V) (aView : Option V) (place : NSWindowOrderingMode)
    (otherView : Option V) : Option (Outcome × Links V) :=
  match aView with
  | none => some (.returned, tree)
  | some aView =>
    match isDescendantOf tree self aView with
    | none => none
    | some true => some (.raised, tree)
    | some false =>
      if some aView = otherView then some (.returned, tree)
      else
        let tree := removeFromSuperview tree aView
        some (.returned, tree.attach self aView (subviewIndex (tree.children self) place otherView))

/-- `replaceSubview:with:` -/
def replaceSubview (tree : Links V) (self : V) (oldView newView : Option V) : Links V :=
  if newView = oldView then tree
  else
    match oldView, newView with
    | none, none => tree
    | none, some newView =>
      let tree := removeFromSuperview tree newView
      tree.attach self newView (tree.children self).length
    | some oldView, newView =>
      if oldView ∈ tree.children self then
        match newView with
        | none => removeFromSuperview tree oldView
        | some newView =>
          let tree := removeFromSuperview tree newView
          let index := (tree.children self).idxOf oldView
          (removeFromSuperview tree oldView).attach self newView index
      else tree

/-- The second loop of `setSubviews:`, with `uniqNew`. -/
def addNewSubviews (self : V) : Links V → List V → List V → Option (Outcome × Links V × List V)
  | tree, uniqNew, [] => some (.returned, tree, uniqNew)
  | tree, uniqNew, aView :: views =>
    let supersub := tree.parent aView
    if supersub ≠ none ∧ supersub ≠ some self then some (.raised, tree, uniqNew)
    else if aView ∈ uniqNew then some (.raised, tree, uniqNew)
    else if aView ∉ tree.children self then
      match addSubview tree self (some aView) .above none with
      | none => none
      | some (.raised, tree) => some (.raised, tree, uniqNew)
      | some (.returned, tree) => addNewSubviews self tree (uniqNew ++ [aView]) views
    else addNewSubviews self tree (uniqNew ++ [aView]) views

/-- The first loop of `setSubviews:`, over a copy of the subviews. -/
def removeOldSubviews (newSubviews : List V) (tree : Links V) (self : V) : Links V :=
  (tree.children self).foldl
    (fun tree aView => if aView ∈ newSubviews then tree else removeFromSuperview tree aView) tree

def setSubviews (tree : Links V) (self : V) (newSubviews : Option (List V)) : Option (Outcome × Links V) :=
  match newSubviews with
  | none => some (.raised, tree)
  | some newSubviews =>
    match addNewSubviews self (removeOldSubviews newSubviews tree self) [] newSubviews with
    | none => none
    | some (.raised, tree, _) => some (.raised, tree)
    | some (.returned, tree, uniqNew) => some (.returned, tree.reorder self uniqNew)

/-! ## Runs -/

inductive Call (V : Type*) where
  | addSubview (self : V) (aView : Option V) (place : NSWindowOrderingMode) (otherView : Option V)
  | removeFromSuperview (self : V)
  | replaceSubview (self : V) (oldView newView : Option V)
  | setSubviews (self : V) (newSubviews : Option (List V))
  deriving DecidableEq

def perform (tree : Links V) : Call V → Option (Outcome × Links V)
  | .addSubview self aView place otherView => addSubview tree self aView place otherView
  | .removeFromSuperview self => some (.returned, removeFromSuperview tree self)
  | .replaceSubview self oldView newView => some (.returned, replaceSubview tree self oldView newView)
  | .setSubviews self newSubviews => setSubviews tree self newSubviews

/-- `P` holds of every call of a run, with the tree before it. -/
def Along (P : Links V → Call V → Prop) : Links V → List (Call V) → Prop
  | _, [] => True
  | tree, call :: calls => P tree call ∧ ∀ outcome tree', perform tree call = some (outcome, tree') → Along P tree' calls

/-! ## What is claimed -/

/-- A view that is added relative to another subview is directly above or below it, and the other subviews
keep their order. -/
def Placed (tree tree' : Links V) : Call V → Prop
  | .addSubview self (some aView) place (some otherView) =>
    aView ≠ otherView → otherView ∈ tree.children self → ∃ before behind,
      tree'.children self =
        (if place = .below then before ++ aView :: otherView :: behind else before ++ otherView :: aView :: behind) ∧
      before ++ otherView :: behind = (tree.children self).filter (· ≠ aView)
  | _ => True

/-- The call comes back, the links are those of a forest, and a call that raises changes nothing. -/
def Kept (tree : Links V) (call : Call V) : Prop :=
  ∃ outcome tree', perform tree call = some (outcome, tree') ∧ tree'.IsForest ∧
    (outcome = .raised → tree' = tree) ∧ (outcome = .returned → Placed tree tree' call)

/-! ## Where it holds -/

/-- A view that is not taken as a new subview. -/
def Offends (tree : Links V) (self : V) (before : List V) (aView : V) : Prop :=
  (tree.parent aView ≠ none ∧ tree.parent aView ≠ some self) ∨ aView ∈ before ∨
    (tree.parent aView = none ∧ tree.Below self aView)

/-- The new view of a replacement is not above the receiver. New subviews are all taken, or none of those
present is missing and the first one that is not taken has only present ones before it. -/
def Fits (tree : Links V) : Call V → Prop
  | .replaceSubview self oldView (some newView) =>
    (∀ view ∈ oldView, view ≠ newView ∧ view ∈ tree.children self) → ¬ tree.Below self newView
  | .setSubviews self (some newSubviews) =>
    (∀ before aView behind, newSubviews = before ++ aView :: behind → ¬ Offends tree self before aView) ∨
      tree.children self ⊆ newSubviews ∧
        ∃ before aView behind, newSubviews = before ++ aView :: behind ∧ before.Nodup ∧
          before ⊆ tree.children self ∧ Offends tree self before aView
  | _ => True

/-! ## Adding -/

variable {tree : Links V} {self : V}

omit [Fintype V] in
theorem subviewIndex_le (subviews : List V) (place : NSWindowOrderingMode) (otherView : Option V) :
    subviewIndex subviews place otherView ≤ subviews.length := by
  unfold subviewIndex
  cases h : otherView.bind subviews.idxOf? with
  | none =>
    simp only
    split
    · exact Nat.zero_le _
    · exact Nat.le_refl _
  | some index =>
    obtain ⟨view, -, hi⟩ := Option.bind_eq_some_iff.mp h
    obtain ⟨hlt, -⟩ := List.idxOf?_eq_some_iff.mp hi
    simp only
    split <;> omega

omit [Fintype V] in
/-- A view goes directly above or below the reference view. -/
theorem insertIdx_subviewIndex {subviews : List V} (place : NSWindowOrderingMode) {otherView : V}
    (h : otherView ∈ subviews) (aView : V) :
    ∃ before behind, subviews = before ++ otherView :: behind ∧
      subviews.insertIdx (subviewIndex subviews place (some otherView)) aView =
        if place = .below then before ++ aView :: otherView :: behind else before ++ otherView :: aView :: behind := by
  obtain ⟨before, behind, rfl, hbef⟩ := List.eq_append_cons_of_mem h
  have hi : (before ++ otherView :: behind).idxOf? otherView = some before.length := by
    rw [List.idxOf?_eq_some_iff]
    refine ⟨by simp, by simp, fun j hj => ?_⟩
    rw [List.getElem_append_left hj]
    intro heq
    exact hbef (heq ▸ List.getElem_mem hj)
  refine ⟨before, behind, rfl, ?_⟩
  rw [subviewIndex, Option.bind_some, hi]
  simp only
  by_cases hb : place = .below
  · rw [if_neg (not_not_intro hb), if_pos hb]
    exact Positions.insertIdx_at before (otherView :: behind) aView
  · rw [if_pos hb, if_neg hb]
    exact Positions.insertIdx_after before otherView aView behind

theorem addSubview_kept (ht : tree.IsForest) (aView : Option V) (place : NSWindowOrderingMode)
    (otherView : Option V) : Kept tree (.addSubview self aView place otherView) := by
  cases aView with
  | none => exact ⟨.returned, tree, rfl, ht, fun _ => rfl, fun _ => trivial⟩
  | some aView =>
    obtain ⟨found, hf, hb⟩ := ht.isBelow_spec self aView
    cases found with
    | true =>
      refine ⟨.raised, tree, ?_, ht, fun _ => rfl, (fun h => by cases h)⟩
      simp only [perform, addSubview, isDescendantOf, hf]
    | false =>
      have hl : ¬ tree.Below self aView := fun h => Bool.false_ne_true (hb.mpr h)
      by_cases hother : some aView = otherView
      · refine ⟨.returned, tree, ?_, ht, fun _ => rfl, fun _ => ?_⟩
        · simp only [perform, addSubview, isDescendantOf, hf, if_pos hother]
        · subst hother
          exact fun hne => absurd rfl hne
      · have hd := ht.detach aView
        refine ⟨.returned, (tree.detach aView).attach self aView
          (subviewIndex ((tree.detach aView).children self) place otherView), ?_, ?_, (fun h => by cases h), fun _ => ?_⟩
        · simp only [perform, addSubview, isDescendantOf, hf, if_neg hother, removeFromSuperview]
        · refine hd.attach ?_ (fun h => hl (below_of_below_detach h)) (subviewIndex_le _ _ _)
          rw [detach_parent, Function.update_self]
        · cases otherView with
          | none => trivial
          | some otherView =>
            intro hne hm
            have hm' : otherView ∈ (tree.detach aView).children self := by
              rw [ht.detach_children]
              exact List.mem_filter.mpr ⟨hm, decide_eq_true (Ne.symm hne)⟩
            obtain ⟨before, behind, heq, hin⟩ := insertIdx_subviewIndex place hm' aView
            refine ⟨before, behind, ?_, ?_⟩
            · rw [← hin]
              exact Function.update_self ..
            · rw [← heq, ht.detach_children]

/-! ## Replacing -/

omit [Fintype V] in
theorem removeFromSuperview_parent (view : V) : (removeFromSuperview tree view).parent view = none := by
  rw [removeFromSuperview, detach_parent, Function.update_self]

omit [Fintype V] in
theorem replaceSubview_isForest (ht : tree.IsForest) {oldView newView : Option V}
    (hft : Fits tree (.replaceSubview self oldView newView)) : (replaceSubview tree self oldView newView).IsForest := by
  unfold replaceSubview
  split
  · exact ht
  · rename_i hne
    cases oldView with
    | none =>
      cases newView with
      | none => exact ht
      | some newView =>
        have hl : ¬ tree.Below self newView := hft fun view hv => nomatch hv
        exact (ht.detach newView).attach (removeFromSuperview_parent newView)
          (fun h => hl (below_of_below_detach h)) (Nat.le_refl _)
    | some oldView =>
      simp only
      split
      · rename_i hm
        cases newView with
        | none => exact ht.detach oldView
        | some newView =>
          have hne : oldView ≠ newView := fun h => hne (congrArg some h.symm)
          have hl : ¬ tree.Below self newView := by
            refine hft fun view hv => ?_
            obtain rfl : oldView = view := Option.some.inj hv
            exact ⟨hne, hm⟩
          have hf2 := (ht.detach newView).detach oldView
          refine hf2.attach ?_ (fun h => hl (below_of_below_detach (below_of_below_detach h))) ?_
          · rw [detach_parent]
            by_cases h : newView = oldView
            · rw [h, Function.update_self]
            · rw [Function.update_of_ne h]
              exact removeFromSuperview_parent newView
          · -- the old view is gone, so the index is at most the number of those that are left
            have ho : oldView ∈ (tree.detach newView).children self := by
              rw [ht.detach_children]
              exact List.mem_filter.mpr ⟨hm, decide_eq_true hne⟩
            have he : ((tree.detach newView).children self).filter (· ≠ oldView) =
                ((tree.detach newView).children self).erase oldView := by
              rw [((ht.detach newView).nodup self).erase_eq_filter oldView]
              exact List.filter_congr fun view _ => by simp [bne, beq_eq_decide]
            rw [(ht.detach newView).detach_children, he, List.length_erase_of_mem ho]
            have hlt := List.idxOf_lt_length_iff.mpr ho
            have hle : ((removeFromSuperview tree newView).children self).idxOf oldView ≤
                ((tree.detach newView).children self).length - 1 := Nat.le_sub_one_of_lt hlt
            exact hle
      · exact ht

/-! ## Setting the subviews -/

variable (self) in
omit [Fintype V] in
theorem removeOldSubviews_spec (newSubviews : List V) (ht : tree.IsForest) :
    (removeOldSubviews newSubviews tree self).IsForest ∧
      (∀ view, (removeOldSubviews newSubviews tree self).parent view =
        if tree.parent view = some self ∧ view ∉ newSubviews then none else tree.parent view) ∧
      ∀ view view', (removeOldSubviews newSubviews tree self).Below view view' → tree.Below view view' := by
  suffices hfl : ∀ (l : List V) (tree : Links V), tree.IsForest →
      (l.foldl (fun tree aView => if aView ∈ newSubviews then tree else removeFromSuperview tree aView)
          tree).IsForest ∧
        (∀ view, (l.foldl (fun tree aView => if aView ∈ newSubviews then tree else removeFromSuperview tree aView)
          tree).parent view = if view ∈ l ∧ view ∉ newSubviews then none else tree.parent view) ∧
        ∀ view view', (l.foldl (fun tree aView => if aView ∈ newSubviews then tree
          else removeFromSuperview tree aView) tree).Below view view' → tree.Below view view' by
    obtain ⟨hf2, hp, hb⟩ := hfl (tree.children self) tree ht
    refine ⟨hf2, fun view => ?_, hb⟩
    rw [removeOldSubviews, hp]
    simp only [ht.mem_children_iff]
  intro l
  induction l with
  | nil => exact fun tree ht => ⟨ht, fun view => by simp, fun _ _ h => h⟩
  | cons aView l ih =>
    intro tree ht
    rw [List.foldl_cons]
    by_cases hn : aView ∈ newSubviews
    · rw [if_pos hn]
      obtain ⟨hf2, hp, hb⟩ := ih tree ht
      refine ⟨hf2, fun view => ?_, hb⟩
      rw [hp]
      by_cases hv : view = aView
      · subst hv
        rw [if_neg fun h => h.2 hn, if_neg fun h => h.2 hn]
      · simp only [List.mem_cons, hv, false_or]
    · rw [if_neg hn]
      obtain ⟨hf2, hp, hb⟩ := ih (removeFromSuperview tree aView) (ht.detach aView)
      refine ⟨hf2, fun view => ?_, fun view view' h => below_of_below_detach (hb view view' h)⟩
      rw [hp, removeFromSuperview, detach_parent]
      by_cases hv : view = aView
      · subst hv
        rw [Function.update_self, ite_self, if_pos ⟨List.mem_cons_self, hn⟩]
      · rw [Function.update_of_ne hv]
        simp only [List.mem_cons, hv, false_or]

theorem addSubview_eq (ht : tree.IsForest) {aView : V} (hp : tree.parent aView = none) (hl : ¬ tree.Below self aView) :
    addSubview tree self (some aView) .above none =
      some (.returned, tree.attach self aView (tree.children self).length) := by
  obtain ⟨found, hfnd, hb⟩ := ht.isBelow_spec self aView
  have hf : found = false := Bool.eq_false_iff.mpr fun h => hl (hb.mp h)
  subst hf
  simp only [addSubview, isDescendantOf, hfnd, removeFromSuperview, detach_eq_self hp]
  rfl

variable (self) in
theorem addNewSubviews_returned (views : List V) : ∀ {tree : Links V} {uniqNew : List V}, tree.IsForest →
    (∀ view ∈ uniqNew, view ∈ tree.children self) → (∀ view ∈ tree.children self, view ∈ uniqNew ∨ view ∈ views) →
    (∀ view ∈ views, (tree.parent view = none ∨ tree.parent view = some self) ∧
      (tree.parent view = none → ¬ tree.Below self view)) → (uniqNew ++ views).Nodup →
    ∃ tree', addNewSubviews self tree uniqNew views = some (.returned, tree', uniqNew ++ views) ∧ tree'.IsForest ∧
      ∀ view, view ∈ uniqNew ++ views ↔ view ∈ tree'.children self := by
  induction views with
  | nil =>
    intro tree uniqNew ht hs hk hv hnd
    rw [List.append_nil]
    refine ⟨tree, rfl, ht, fun view => ⟨hs view, fun hvw => ?_⟩⟩
    exact (hk view hvw).resolve_right List.not_mem_nil
  | cons aView views ih =>
    intro tree uniqNew ht hs hk hv hnd
    obtain ⟨hsp, hl⟩ := hv aView List.mem_cons_self
    have ha : uniqNew ++ aView :: views = uniqNew ++ [aView] ++ views := by
      rw [List.append_assoc, List.singleton_append]
    have hnot : aView ∉ uniqNew := fun hm =>
      (List.nodup_append.mp hnd).2.2 aView hm aView List.mem_cons_self rfl
    have hsup : ¬ (tree.parent aView ≠ none ∧ tree.parent aView ≠ some self) := by
      rintro ⟨hnn, hsl⟩
      exact hsp.elim hnn hsl
    rw [addNewSubviews, if_neg hsup, if_neg hnot, ha]
    rw [ha] at hnd
    by_cases hm : aView ∈ tree.children self
    · rw [if_neg (not_not_intro hm)]
      refine ih ht ?_ ?_ (fun view hvw => hv view (List.mem_cons_of_mem _ hvw)) hnd
      · exact List.forall_mem_append.mpr ⟨hs, List.forall_mem_singleton.mpr hm⟩
      · intro view hvw
        obtain h | h := hk view hvw
        · exact .inl (List.mem_append_left _ h)
        · obtain rfl | h := List.mem_cons.mp h
          · exact .inl (List.mem_append_right _ List.mem_cons_self)
          · exact .inr h
    · have hp : tree.parent aView = none := hsp.resolve_right fun h => hm ((ht.mem_children_iff aView self).mpr h)
      have hn : (tree.attach self aView (tree.children self).length).children self = tree.children self ++ [aView] :=
        (Function.update_self ..).trans List.insertIdx_length_self
      rw [if_pos hm, addSubview_eq ht hp (hl hp)]
      refine ih (ht.attach hp (hl hp) (Nat.le_refl _)) ?_ ?_ ?_ hnd
      · rw [hn]
        intro view hvw
        obtain h | h := List.mem_append.mp hvw
        · exact List.mem_append_left _ (hs view h)
        · exact List.mem_append_right _ h
      · rw [hn]
        intro view hvw
        obtain h | h := List.mem_append.mp hvw
        · obtain h | h := hk view h
          · exact .inl (List.mem_append_left _ h)
          · obtain rfl | h := List.mem_cons.mp h
            · exact .inl (List.mem_append_right _ List.mem_cons_self)
            · exact .inr h
        · exact .inl (List.mem_append_right _ h)
      · intro view hvw
        have hne : view ≠ aView := by
          rintro rfl
          exact (List.nodup_append.mp hnd).2.2 view (List.mem_append_right _ List.mem_cons_self) view hvw rfl
        rw [attach_parent_of_ne hne]
        obtain ⟨hsp', hl'⟩ := hv view (List.mem_cons_of_mem _ hvw)
        exact ⟨hsp', fun hnn h => hl' hnn (below_attach_iff (hl hp) h)⟩

theorem addNewSubviews_present (ht : tree.IsForest) {before : List V} (hb : before ⊆ tree.children self)
    (views : List V) : ∀ {uniqNew : List V}, (uniqNew ++ before).Nodup →
    addNewSubviews self tree uniqNew (before ++ views) = addNewSubviews self tree (uniqNew ++ before) views := by
  induction before with
  | nil =>
    intro uniqNew hnd
    rw [List.append_nil, List.nil_append]
  | cons aView before ih =>
    intro uniqNew hnd
    have ha : uniqNew ++ aView :: before = uniqNew ++ [aView] ++ before := by
      rw [List.append_assoc, List.singleton_append]
    have hn : aView ∉ uniqNew := fun hm =>
      (List.nodup_append.mp hnd).2.2 aView hm aView List.mem_cons_self rfl
    have hm := hb List.mem_cons_self
    have hs : ¬ (tree.parent aView ≠ none ∧ tree.parent aView ≠ some self) := by
      rw [(ht.mem_children_iff aView self).mp hm]
      exact fun h => h.2 rfl
    rw [List.cons_append, addNewSubviews, if_neg hs, if_neg hn, if_neg (not_not_intro hm), ha]
    rw [ha] at hnd
    exact ih (fun view hv => hb (List.mem_cons_of_mem _ hv)) hnd

theorem addNewSubviews_raised (ht : tree.IsForest) {before : List V} {aView : V}
    (h : Offends tree self before aView) (views : List V) :
    addNewSubviews self tree before (aView :: views) = some (.raised, tree, before) := by
  rw [addNewSubviews]
  by_cases hs : tree.parent aView ≠ none ∧ tree.parent aView ≠ some self
  · rw [if_pos hs]
  · rw [if_neg hs]
    by_cases hm : aView ∈ before
    · rw [if_pos hm]
    · obtain ⟨hp, hb⟩ := (h.resolve_left hs).resolve_left hm
      have hn : aView ∉ tree.children self := by
        rw [ht.mem_children_iff, hp]
        exact (nomatch ·)
      obtain ⟨found, hf, hi⟩ := ht.isBelow_spec self aView
      rw [hi.mpr hb] at hf
      rw [if_neg hm, if_pos hn]
      simp only [addSubview, isDescendantOf, hf]

omit [Fintype V] in
theorem removeOldSubviews_eq_self {newSubviews : List V} (h : tree.children self ⊆ newSubviews) :
    removeOldSubviews newSubviews tree self = tree := by
  unfold removeOldSubviews
  revert h
  generalize tree.children self = views
  intro h
  induction views with
  | nil => rfl
  | cons aView views ih =>
    rw [List.foldl_cons, if_pos (h List.mem_cons_self)]
    exact ih fun view hv => h (List.mem_cons_of_mem _ hv)

omit [Fintype V] [DecidableEq V] in
theorem nodup_of_split {l : List V} (h : ∀ before a behind, l = before ++ a :: behind → a ∉ before) : l.Nodup := by
  induction l using List.reverseRecOn with
  | nil => exact List.nodup_nil
  | append_singleton l a ih =>
    refine List.nodup_append.mpr ⟨ih fun before b behind heq => ?_, List.nodup_singleton a, ?_⟩
    · exact h before b (behind ++ [a]) (by rw [heq, List.append_assoc, List.cons_append])
    · intro b hb c hc heq
      rw [List.mem_singleton.mp hc] at heq
      exact h l a [] rfl (heq ▸ hb)

theorem setSubviews_kept (ht : tree.IsForest) {newSubviews : Option (List V)}
    (hft : Fits tree (.setSubviews self newSubviews)) : Kept tree (.setSubviews self newSubviews) := by
  cases newSubviews with
  | none => exact ⟨.raised, tree, rfl, ht, fun _ => rfl, (nomatch ·)⟩
  | some newSubviews =>
    obtain ha | ⟨hsb, before, aView, behind, rfl, hnd, hb, ho⟩ := hft
    · obtain ⟨hf2, hp, hblw⟩ := removeOldSubviews_spec self newSubviews ht
      have hnd : newSubviews.Nodup := nodup_of_split fun before view behind heq hm =>
        ha before view behind heq (.inr (.inl hm))
      have hn {view : V} (hv : view ∈ newSubviews) :
          (removeOldSubviews newSubviews tree self).parent view = tree.parent view := by
        rw [hp, if_neg fun h => h.2 hv]
      obtain ⟨tree', hr, hf2', hm⟩ := addNewSubviews_returned self newSubviews
        hf2 (fun view (hv : view ∈ ([] : List V)) => nomatch hv)
        (by
          intro view hv
          have hs := (hf2.mem_children_iff view self).mp hv
          by_contra hnot
          rw [hp] at hs
          split at hs
          · cases hs
          · rename_i hk
            exact hk ⟨hs, fun h => hnot (.inr h)⟩)
        (by
          intro view hv
          obtain ⟨before, behind, heq⟩ := List.mem_iff_append.mp hv
          have hno := ha before view behind heq
          rw [hn hv]
          refine ⟨?_, fun hnn h => hno (.inr (.inr ⟨hnn, hblw self view h⟩))⟩
          by_contra hsp
          exact hno (.inl (not_or.mp hsp)))
        hnd
      refine ⟨.returned, tree'.reorder self newSubviews, ?_, hf2'.reorder hnd hm, (nomatch ·), fun _ => trivial⟩
      simp only [perform, setSubviews, hr]
      rfl
    · refine ⟨.raised, tree, ?_, ht, fun _ => rfl, (nomatch ·)⟩
      simp only [perform, setSubviews, removeOldSubviews_eq_self hsb]
      rw [addNewSubviews_present ht hb (aView :: behind) (by rw [List.nil_append]; exact hnd),
        List.nil_append, addNewSubviews_raised ht ho]

/-! ## Runs -/

theorem perform_kept (ht : tree.IsForest) {call : Call V} (hf : Fits tree call) : Kept tree call := by
  cases call with
  | addSubview self aView place otherView => exact addSubview_kept ht aView place otherView
  | removeFromSuperview self => exact ⟨.returned, _, rfl, ht.detach self, (nomatch ·), fun _ => trivial⟩
  | replaceSubview self oldView newView =>
    exact ⟨.returned, _, rfl, replaceSubview_isForest ht hf, (nomatch ·), fun _ => trivial⟩
  | setSubviews self newSubviews => exact setSubviews_kept ht hf

/-- In a run whose calls fit, every call keeps the tree. -/
theorem tree_kept (htree : tree.IsForest) {calls : List (Call V)} (hfits : Along Fits tree calls) :
    Along Kept tree calls := by
  induction calls generalizing tree with
  | nil => trivial
  | cons call calls ih =>
    have hk := perform_kept htree hfits.1
    refine ⟨hk, fun outcome tree' hp => ih ?_ (hfits.2 outcome tree' hp)⟩
    obtain ⟨outcome₀, tree₀, hp₀, hf2, -⟩ := hk
    obtain ⟨-, rfl⟩ := Prod.mk.inj (Option.some.inj (hp₀.symm.trans hp))
    exact hf2

end Calls

/-- Views without superviews. -/
def noLinks (V : Type*) : Links V where
  parent _ := none
  children _ := []

theorem noLinks_isForest (V : Type*) : (noLinks V).IsForest where
  acyclic a hc := by
    obtain ⟨b, hup, -⟩ := Relation.TransGen.head'_iff.mp hc
    exact nomatch hup
  mem_children_iff _ _ := iff_of_false List.not_mem_nil (nomatch ·)
  nodup _ := List.nodup_nil

theorem tree_kept_replacing : Along Kept (noLinks (Fin 3))
    [.replaceSubview 0 none (some 1), .addSubview 0 (some 2) .below (some 1)] := by
  refine tree_kept (noLinks_isForest _) ⟨fun _ hb => ?_, fun _ _ _ => ⟨trivial, fun _ _ _ => trivial⟩⟩
  exact absurd ((below_iff_of_parent_eq_none rfl).mp hb) (by decide)

/-- A view whose subview is replaced by its own superview. -/
theorem tree_not_kept : ∃ calls : List (Call (Fin 2)), ¬ Along Kept (noLinks (Fin 2)) calls := by
  refine ⟨[.addSubview 0 (some 1) .above none, .replaceSubview 1 none (some 0)], fun h => ?_⟩
  obtain ⟨outcome, tree', hp, hf2, -⟩ := (h.2 .returned _ rfl).1
  obtain ⟨-, rfl⟩ := Prod.mk.inj (Option.some.inj hp)
  refine hf2.acyclic 0 (.tail (b := 1) (.single ?_) ?_)
  · rfl
  · rfl

end GnustepGui.NSView
