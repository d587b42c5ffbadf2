import GnustepGui.Library.Links
import Mathlib.Data.Fintype.Order
import Mathlib.SetTheory.Cardinal.NatCard

/-!
# Values cached along a forest

A forest of finitely many nodes, with a value for each node that is computed from the one of its parent and
cached with a mark that it is valid. `refresh` computes what is not valid from the node upwards, and `assign`
gives a node and what is below it one mark, up to nodes that have it (`Holds.assign`).
-/

/-- Links that are those of a forest. -/
structure LinkedForest (α : Type*) extends Links α where
  isForest : toLinks.IsForest

structure LinkedCache (α β : Type*) where
  valid : α → Bool
  value : α → β

namespace LinkedForest

open Links

variable {α β : Type*} (f : LinkedForest α)

theorem wellFounded_up [Finite α] : WellFounded fun a b => f.Up b a := by
  have : IsTrans α fun a b => Relation.TransGen f.Up b a := ⟨fun a b c ha hb => hb.trans ha⟩
  have : Std.Irrefl fun a b => Relation.TransGen f.Up b a := ⟨f.isForest.acyclic⟩
  exact Subrelation.wf (fun h => Relation.TransGen.single h)
    (Finite.wellFounded_of_trans_of_irrefl fun a b => Relation.TransGen f.Up b a)

theorem wellFounded_down [Finite α] : WellFounded f.Up := by
  have : IsTrans α (Relation.TransGen f.Up) := ⟨fun a b c ha hb => ha.trans hb⟩
  have : Std.Irrefl (Relation.TransGen f.Up) := ⟨f.isForest.acyclic⟩
  exact Subrelation.wf (fun h => Relation.TransGen.single h)
    (Finite.wellFounded_of_trans_of_irrefl (Relation.TransGen f.Up))

/-- The value of every node, computed anew from the one of its parent. -/
def computed [Finite α] (compute : α → Option (α × β) → β) (a : α) : β :=
  match _h : f.parent a with
  | none => compute a none
  | some p => compute a (some (p, computed compute p))
termination_by f.wellFounded_up.wrap a
decreasing_by exact _h

/-- The node or one above it is marked. -/
def isMarked [Finite α] (marked : α → Bool) (a : α) : Bool :=
  f.computed (fun a above => marked a || (above.map Prod.snd).getD false) a

def refresh [Finite α] [DecidableEq α] (stale : α → β → Bool) (compute : α → Option (α × β) → β) (a : α) (c : LinkedCache α β) :
    LinkedCache α β :=
  if c.valid a = false ∨ stale a (c.value a) then
    match _h : f.parent a with
    | none => ⟨Function.update c.valid a true, Function.update c.value a (compute a none)⟩
    | some p =>
      let c := refresh stale compute p ⟨Function.update c.valid a true, c.value⟩
      ⟨c.valid, Function.update c.value a (compute a (some (p, c.value p)))⟩
  else c
termination_by f.wellFounded_up.wrap a
decreasing_by exact _h

/-- Gives a node and what is below it the mark `x`, up to nodes that have it. -/
def assign {γ : Type*} [Finite α] [DecidableEq α] [DecidableEq γ] (x : γ) (a : α) (mark : α → γ) : α → γ :=
  if mark a = x then mark
  else (f.children a).attach.foldl (fun mark b => assign x b.1 mark) (Function.update mark a x)
termination_by f.wellFounded_down.wrap a
decreasing_by exact (f.isForest.mem_children_iff _ _).mp b.2

/-- Takes a node out of its parent. -/
def detach [DecidableEq α] (a : α) : LinkedForest α :=
  ⟨f.toLinks.detach a, f.isForest.detach a⟩

/-- Puts a node without a parent below another. -/
def attach [DecidableEq α] (p a : α) (i : Nat) (ha : f.parent a = none) (hloop : ¬ f.Below p a)
    (hi : i ≤ (f.children p).length) : LinkedForest α :=
  ⟨f.toLinks.attach p a i, f.isForest.attach ha hloop hi⟩

variable {f}

/-! ## Above a node -/

section Above

variable [Finite α]

theorem computed_of_parent_eq_none {compute : α → Option (α × β) → β} {a : α} (h : f.parent a = none) :
    f.computed compute a = compute a none := by
  rw [computed]
  split
  · rfl
  · rename_i p hp
    exact nomatch h.symm.trans hp

theorem computed_of_parent_eq_some {compute : α → Option (α × β) → β} {a p : α} (h : f.parent a = some p) :
    f.computed compute a = compute a (some (p, f.computed compute p)) := by
  rw [computed]
  split
  · rename_i hp
    exact nomatch hp.symm.trans h
  · rename_i q hq
    obtain rfl := Option.some.inj (hq.symm.trans h)
    rfl

/-- What is computed depends on the node and on what is above it. -/
theorem computed_congr {f' : LinkedForest α} {compute compute' : α → Option (α × β) → β} {a : α}
    (hpar : ∀ b, f.Below a b → f'.parent b = f.parent b) (hr : ∀ b, f.Below a b → compute' b none = compute b none)
    (hs : ∀ b p x, f.Below a b → f.parent b = some p → compute' b (some (p, x)) = compute b (some (p, x))) :
    f'.computed compute' a = f.computed compute a := by
  induction a using f.wellFounded_up.induction with
  | _ a ih =>
    cases hp : f.parent a with
    | none =>
      rw [computed_of_parent_eq_none hp, computed_of_parent_eq_none ((hpar a (.refl a)).trans hp)]
      exact hr a (.refl a)
    | some p =>
      rw [computed_of_parent_eq_some hp, computed_of_parent_eq_some ((hpar a (.refl a)).trans hp),
        ih p hp (fun b hb => hpar b (hb.head hp)) (fun b hb => hr b (hb.head hp))
          fun b q x hb => hs b q x (hb.head hp)]
      exact hs a p _ (.refl a) hp

theorem isMarked_congr {f' : LinkedForest α} {marked marked' : α → Bool} {a : α}
    (hp : ∀ b, f.Below a b → f'.parent b = f.parent b)
    (hm : ∀ b, f.Below a b → marked' b = marked b) : f'.isMarked marked' a = f.isMarked marked a :=
  computed_congr hp (fun b hb => by rw [hm b hb]) fun b p x hb _ => by rw [hm b hb]

theorem isMarked_iff (marked : α → Bool) (a : α) : f.isMarked marked a = true ↔ ∃ b, f.Below a b ∧ marked b = true := by
  induction a using f.wellFounded_up.induction with
  | _ a ih =>
    cases hp : f.parent a with
    | none =>
      rw [isMarked, computed_of_parent_eq_none hp, Option.map_none, Option.getD_none, Bool.or_false]
      constructor
      · exact fun ha => ⟨a, .refl a, ha⟩
      · rintro ⟨b, hblw, hb⟩
        obtain rfl := (below_iff_of_parent_eq_none hp).mp hblw
        exact hb
    | some p =>
      have hi := ih p hp
      rw [isMarked] at hi
      rw [isMarked, computed_of_parent_eq_some hp, Option.map_some, Option.getD_some, Bool.or_eq_true, hi]
      constructor
      · rintro (ha | ⟨b, hblw, hb⟩)
        · exact ⟨a, .refl a, ha⟩
        · exact ⟨b, hblw.head hp, hb⟩
      · rintro ⟨b, hblw, hb⟩
        obtain rfl | hblw := (below_iff_of_parent_eq_some hp).mp hblw
        · exact .inl hb
        · exact .inr ⟨b, hblw, hb⟩

end Above

/-! ## The cache -/

/-- A valid node has a good value, and its parent is valid. -/
def HoldsAt (f : LinkedForest α) (Good : α → β → Prop) (c : LinkedCache α β) (a : α) : Prop :=
  c.valid a = true → Good a (c.value a) ∧ ∀ p, f.parent a = some p → c.valid p = true

def Holds (f : LinkedForest α) (Good : α → β → Prop) (c : LinkedCache α β) : Prop :=
  ∀ a, f.HoldsAt Good c a

section Cache

variable [Finite α] [DecidableEq α] {stale : α → β → Bool} {compute : α → Option (α × β) → β}
  {Good : α → β → Prop}

/-- What `refresh` does above the node and elsewhere. -/
structure Refreshed (f : LinkedForest α) (Good : α → β → Prop) (a : α) (c c' : LinkedCache α β) : Prop where
  valid : c'.valid a = true
  above : ∀ b, f.Below a b → f.HoldsAt Good c' b
  value_eq : ∀ b, ¬ f.Below a b → c'.value b = c.value b
  valid_eq : ∀ b, ¬ f.Below a b → c'.valid b = c.valid b
  valid_of_valid : ∀ b, c.valid b = true → c'.valid b = true

theorem refreshed (hr : ∀ a, f.parent a = none → Good a (compute a none))
    (hs : ∀ a p x, f.parent a = some p → Good p x → Good a (compute a (some (p, x)))) {a : α} :
    ∀ {c : LinkedCache α β}, (∀ b, f.Below a b → f.HoldsAt Good c b) →
      Refreshed f Good a c (f.refresh stale compute a c) := by
  induction a using f.wellFounded_up.induction with
  | _ a ih =>
    intro c hc
    have hother {b : α} (hb : ¬ f.Below a b) : b ≠ a := by
      rintro rfl
      exact hb (.refl b)
    rw [refresh]
    split
    · split
      · rename_i hp
        have ha {b : α} (hb : f.Below a b) : b = a := (below_iff_of_parent_eq_none hp).mp hb
        refine ⟨Function.update_self .., fun b hb => ?_, fun b hb => ?_, fun b hb => ?_, fun b hb => ?_⟩
        · obtain rfl := ha hb
          intro _
          refine ⟨?_, fun p hp' => nomatch hp.symm.trans hp'⟩
          simp only [Function.update_self]
          exact hr b hp
        · exact Function.update_of_ne (hother hb) ..
        · exact Function.update_of_ne (hother hb) ..
        · simp only [Function.update_apply, hb, ite_self]
      · rename_i p hp
        have hn {b : α} (hb : f.Below p b) : b ≠ a := by
          rintro rfl
          exact f.isForest.acyclic b (Relation.TransGen.head' hp hb)
        have hst : ∀ b, f.Below p b → f.HoldsAt Good ⟨Function.update c.valid a true, c.value⟩ b := by
          intro b hb hv
          simp only [Function.update_of_ne (hn hb)] at hv
          obtain ⟨hg, hpar⟩ := hc b (hb.head hp) hv
          refine ⟨hg, fun q hq => ?_⟩
          simp only [Function.update_of_ne (hn (hb.tail hq))]
          exact hpar q hq
        obtain ⟨hv, ha, hval, heq, hm⟩ := ih p hp hst
        have hsl : ¬ f.Below p a := fun h => hn h rfl
        dsimp only
        refine ⟨?_, fun b hb => ?_, fun b hb => ?_, fun b hb => ?_, fun b hb => ?_⟩
        · rw [heq a hsl]
          exact Function.update_self ..
        · obtain rfl | hb := (below_iff_of_parent_eq_some hp).mp hb
          · intro _
            refine ⟨?_, fun q hq => ?_⟩
            · simp only [Function.update_self]
              exact hs b p _ hp (ha p (.refl p) hv).1
            · obtain rfl := Option.some.inj (hp.symm.trans hq)
              exact hv
          · intro hb'
            simp only [Function.update_of_ne (hn hb)]
            exact ha b hb hb'
        · simp only [Function.update_of_ne (hother hb)]
          exact hval b fun h => hb (h.head hp)
        · rw [heq b fun h => hb (h.head hp)]
          exact Function.update_of_ne (hother hb) ..
        · refine hm b ?_
          simp only [Function.update_apply, hb, ite_self]
    · rename_i hn
      obtain ⟨hv, -⟩ := not_or.mp hn
      exact ⟨Bool.not_eq_false _ ▸ hv, hc, fun _ _ => rfl, fun _ _ => rfl, fun _ h => h⟩

/-- A refreshed cache holds, and the node is valid. -/
theorem Holds.refresh {c : LinkedCache α β} (hc : f.Holds Good c)
    (hr : ∀ a, f.parent a = none → Good a (compute a none))
    (hs : ∀ a p x, f.parent a = some p → Good p x → Good a (compute a (some (p, x)))) (a : α) :
    f.Holds Good (f.refresh stale compute a c) ∧ (f.refresh stale compute a c).valid a = true := by
  obtain ⟨hv, ha, hval, heq, hm⟩ := @refreshed _ _ f _ _ stale _ _ hr hs a c fun b _ => hc b
  refine ⟨fun b => ?_, hv⟩
  by_cases hb : f.Below a b
  · exact ha b hb
  · intro hb'
    rw [heq b hb] at hb'
    obtain ⟨hg, hpar⟩ := hc b hb'
    rw [hval b hb]
    exact ⟨hg, fun p hp => hm p (hpar p hp)⟩

end Cache

/-! ## Marks -/

theorem below_iff_eq_or_exists {a b : α} : f.Below b a ↔ b = a ∨ ∃ c ∈ f.children a, f.Below b c := by
  constructor
  · intro h
    obtain rfl | ⟨c, hb, hup⟩ := Relation.ReflTransGen.cases_tail h
    · exact .inl rfl
    · exact .inr ⟨c, (f.isForest.mem_children_iff c a).mpr hup, hb⟩
  · rintro (rfl | ⟨c, hc, hb⟩)
    · exact .refl b
    · exact hb.tail ((f.isForest.mem_children_iff c a).mp hc)

section Marks

variable {γ : Type*} {x : γ} {mark : α → γ}

/-- The mark `x` of a node in the tree of `a` goes down. -/
def GoesDown (f : LinkedForest α) (x : γ) (mark : α → γ) (a : α) : Prop :=
  ∀ b p, f.Up b p → f.Below p a → mark p = x → mark b = x

theorem GoesDown.mark_eq {a : α} (h : f.GoesDown x mark a) (ha : mark a = x) {b : α} (hb : f.Below b a) :
    mark b = x := by
  induction hb using Relation.ReflTransGen.head_induction_on with
  | refl => exact ha
  | @head b p hup hblw ih => exact h b p hup hblw ih

open Classical in
/-- The node and what is below it have the mark `x`. -/
noncomputable def marked (f : LinkedForest α) (x : γ) (a : α) (mark : α → γ) (b : α) : γ :=
  if f.Below b a then x else mark b

theorem marked_of_below {a b : α} (h : f.Below b a) : f.marked x a mark b = x := if_pos h

theorem marked_of_not_below {a b : α} (h : ¬ f.Below b a) : f.marked x a mark b = mark b := if_neg h

theorem marked_eq_self {a : α} (h : f.GoesDown x mark a) (ha : mark a = x) : f.marked x a mark = mark := by
  funext b
  by_cases hb : f.Below b a
  · rw [marked_of_below hb, h.mark_eq ha hb]
  · exact marked_of_not_below hb

theorem GoesDown.marked {a : α} (h : f.GoesDown x mark a) (c : α) : f.GoesDown x (f.marked x c mark) a := by
  intro b p hup hblw hp
  by_cases hb : f.Below b c
  · exact marked_of_below hb
  · rw [marked_of_not_below fun hpc => hb (hpc.head hup)] at hp
    rw [marked_of_not_below hb]
    exact h b p hup hblw hp

open Classical in
theorem foldl_marked (l : List α) (mark : α → γ) (b : α) :
    l.foldl (fun mark c => f.marked x c mark) mark b = if ∃ c ∈ l, f.Below b c then x else mark b := by
  induction l generalizing mark with
  | nil => simp
  | cons c l ih =>
    rw [List.foldl_cons, ih]
    by_cases hc : f.Below b c
    · rw [marked_of_below hc, ite_self, if_pos ⟨c, List.mem_cons_self, hc⟩]
    · simp only [marked_of_not_below hc, List.exists_mem_cons_iff, hc, false_or]

variable [Finite α] [DecidableEq α] [DecidableEq γ]

/-- The search ends early at nodes with the mark, as all below them have it. -/
theorem assign_eq {a : α} : ∀ {mark : α → γ}, f.GoesDown x mark a → f.assign x a mark = f.marked x a mark := by
  induction a using f.wellFounded_down.induction with
  | _ a ih =>
    intro mark h
    have hf (l : List {b // b ∈ f.children a}) : ∀ mark : α → γ, (∀ b ∈ l, f.GoesDown x mark b.1) →
        l.foldl (fun mark b => f.assign x b.1 mark) mark =
          (l.map Subtype.val).foldl (fun mark b => f.marked x b mark) mark := by
      induction l with
      | nil => exact fun _ _ => rfl
      | cons b l ihl =>
        intro mark h
        have hup : f.Up b.1 a := (f.isForest.mem_children_iff b.1 a).mp b.2
        rw [List.foldl_cons, List.map_cons, List.foldl_cons, ih b.1 hup (h b List.mem_cons_self)]
        exact ihl _ fun c hc => (h c (List.mem_cons_of_mem _ hc)).marked b.1
    rw [assign]
    split
    · rename_i ha
      exact (marked_eq_self h ha).symm
    · have hk : ∀ b ∈ (f.children a).attach, f.GoesDown x (Function.update mark a x) b.1 := by
        intro b _ c p hup hb hp
        have hu : f.Up b.1 a := (f.isForest.mem_children_iff _ _).mp b.2
        have hne : p ≠ a := by
          rintro rfl
          exact f.isForest.acyclic b.1 (Relation.TransGen.head' hu hb)
        rw [Function.update_of_ne hne] at hp
        by_cases hca : c = a
        · rw [hca, Function.update_self]
        · rw [Function.update_of_ne hca]
          exact h c p hup (hb.tail hu) hp
      rw [hf _ _ hk, List.attach_map_subtype_val]
      funext c
      rw [foldl_marked]
      by_cases hca : c = a
      · subst hca
        rw [Function.update_self, ite_self, marked_of_below (.refl c)]
      · rw [Function.update_of_ne hca]
        by_cases hb : ∃ d ∈ f.children a, f.Below c d
        · rw [if_pos hb, marked_of_below (below_iff_eq_or_exists.mpr (.inr hb))]
        · rw [if_neg hb, marked_of_not_below fun h => hb ((below_iff_eq_or_exists.mp h).resolve_left hca)]

theorem foldl_assign (l : List α) : ∀ mark : α → γ, (∀ b ∈ l, f.GoesDown x mark b) →
    l.foldl (fun mark b => f.assign x b mark) mark = l.foldl (fun mark b => f.marked x b mark) mark := by
  induction l with
  | nil => exact fun _ _ => rfl
  | cons b l ih =>
    intro mark h
    rw [List.foldl_cons, List.foldl_cons, assign_eq (h b List.mem_cons_self)]
    exact ih _ fun c hc => (h c (List.mem_cons_of_mem _ hc)).marked b

end Marks

/-! ## Taking the marks of the cache away -/

section Cache

variable {Good : α → β → Prop} {c : LinkedCache α β}

theorem Holds.goesDown (hc : f.Holds Good c) (a : α) : f.GoesDown false c.valid a := by
  intro b p hup _ hp
  by_contra hb
  rw [(hc b (Bool.not_eq_false _ ▸ hb)).2 p hup] at hp
  cases hp

open Classical in
theorem Holds.unmark (hc : f.Holds Good c) (changed : α → Prop)
    (hchg : ∀ b p, f.parent b = some p → changed p → changed b) {valid : α → Bool}
    (hv : ∀ b, valid b = if changed b then false else c.valid b) {f' : LinkedForest α} {Good' : α → β → Prop}
    (hpar : ∀ b, ¬ changed b → f'.parent b = f.parent b)
    (hg : ∀ b x, ¬ changed b → Good b x → Good' b x) : f'.Holds Good' { c with valid := valid } := by
  intro b hb
  by_cases hn : changed b
  · simp only [hv, if_pos hn] at hb
    cases hb
  · simp only [hv, if_neg hn] at hb
    obtain ⟨hx, hp⟩ := hc b hb
    refine ⟨hg b _ hn hx, fun p hup => ?_⟩
    rw [hpar b hn] at hup
    simp only [hv, if_neg fun h => hn (hchg b p hup h)]
    exact hp p hup

variable [Finite α] [DecidableEq α]

theorem Holds.assign (hc : f.Holds Good c) (a : α) {f' : LinkedForest α} {Good' : α → β → Prop}
    (hp : ∀ b, ¬ f.Below b a → f'.parent b = f.parent b)
    (hg : ∀ b x, ¬ f.Below b a → Good b x → Good' b x) :
    f'.Holds Good' { c with valid := f.assign false a c.valid } := by
  refine hc.unmark (f.Below · a) (fun b p hup h => h.head hup) (fun b => ?_) hp hg
  rw [assign_eq (hc.goesDown a)]
  rfl

theorem Holds.assignChildren (hc : f.Holds Good c) (a : α) {Good' : α → β → Prop}
    (hg : ∀ b x, (∀ p, f.parent b = some p → ¬ f.Below p a) → Good b x → Good' b x) :
    f.Holds Good' { c with valid := (f.children a).foldl (fun valid b => f.assign false b valid) c.valid } := by
  refine hc.unmark (fun b => ∃ d ∈ f.children a, f.Below b d) ?_ (fun b => ?_) (fun _ _ => rfl) ?_
  · rintro b p hup ⟨d, hd, hb⟩
    exact ⟨d, hd, hb.head hup⟩
  · rw [foldl_assign _ _ fun d _ => hc.goesDown d, foldl_marked]
    by_cases h : ∃ d ∈ f.children a, f.Below b d
    · rw [if_pos h, if_pos h]
    · rw [if_neg h, if_neg h]
  · refine fun b x hn => hg b x fun p hp h => hn ?_
    have hup : f.Up b p := hp
    obtain heq | hexists := below_iff_eq_or_exists.mp (h.head hup)
    · subst heq
      exact absurd (Relation.TransGen.head' hup h) (f.isForest.acyclic b)
    · exact hexists

end Cache

end LinkedForest
