import Mathlib.Data.List.Nodup

/-!
# Outlines

A finite forest of distinct nodes, and the preorder listing of the nodes that are seen when some nodes
are open and the others closed. A node is listed when every node above it is open (`mem_listing`), each
once (`listing_nodup`), and opening a node that is seen puts what is listed below it right behind it
(`listing_split`).
-/

/-- The children of the top, at `none`, and of each node. No node stands in two places, and the height
bounds what is below a node. -/
structure Outline (α : Type*) where
  children : Option α → List α
  height : α → Nat
  bound : Nat
  nodup : ∀ s, (children s).Nodup
  parent_unique : ∀ {s t x}, x ∈ children s → x ∈ children t → s = t
  height_lt : ∀ {x y}, y ∈ children (some x) → height y < height x
  height_lt_bound : ∀ x, height x < bound

namespace Outline

variable {α : Type*} (D : Outline α)

def size : Option α → Nat
  | none => D.bound
  | some x => D.height x

/-- The level of a node. -/
inductive Depth : α → Nat → Prop
  | top {x} : x ∈ D.children none → Depth x 0
  | child {x p n} : Depth p n → x ∈ D.children (some p) → Depth x (n + 1)

/-- Every node on the way down from `s` is open. -/
inductive Seen (isOpen : α → Bool) (s : Option α) : α → Prop
  | child {x} : x ∈ D.children s → Seen isOpen s x
  | deeper {x p} : Seen isOpen s p → isOpen p = true → x ∈ D.children (some p) → Seen isOpen s x

/-- Whatever is open. -/
abbrev Below (s : Option α) (x : α) : Prop := D.Seen (fun _ => true) s x

def listingFuel (isOpen : α → Bool) : Nat → Option α → List α
  | 0, _ => []
  | fuel + 1, s =>
    (D.children s).flatMap fun c => c :: if isOpen c then listingFuel isOpen fuel (some c) else []

/-- The nodes below `s` that are seen, in preorder. -/
def listing (isOpen : α → Bool) (s : Option α) : List α := D.listingFuel isOpen (D.size s + 1) s

variable {D} {isOpen isOpen' : α → Bool} {s t : Option α} {x y z : α}

theorem size_lt (h : x ∈ D.children s) : D.size (some x) < D.size s := by
  cases s with
  | none => exact D.height_lt_bound x
  | some p => exact D.height_lt h

theorem size_lt_bound (s : Option α) : D.size s ≤ D.bound := by
  cases s with
  | none => exact Nat.le_refl D.bound
  | some x => exact Nat.le_of_lt (D.height_lt_bound x)

variable (D) in
/-- What holds of a node when it holds of its children holds everywhere. -/
theorem induction {P : Option α → Prop} (h : ∀ s, (∀ c ∈ D.children s, P (some c)) → P s) (s : Option α) : P s := by
  induction hn : D.size s using Nat.strongRecOn generalizing s with
  | ind n ih =>
    subst hn
    exact h s fun c hc => ih _ (size_lt hc) (some c) rfl

/-! ## Nodes that are seen -/

namespace Seen

theorem trans (hs : D.Seen isOpen s x) (hx : isOpen x = true) (h : D.Seen isOpen (some x) y) : D.Seen isOpen s y := by
  induction h with
  | child hy => exact .deeper hs hx hy
  | deeper _ hp hy ih => exact .deeper ih hp hy

theorem toBelow (h : D.Seen isOpen s x) : D.Below s x := by
  induction h with
  | child hx => exact .child hx
  | deeper _ _ hx ih => exact .deeper ih rfl hx

theorem size_lt (h : D.Seen isOpen s x) : D.size (some x) < D.size s := by
  induction h with
  | child hx => exact Outline.size_lt hx
  | deeper _ _ hx ih => exact Nat.lt_trans (Outline.size_lt hx) ih

theorem parent (h : D.Seen isOpen s x) (hx : x ∈ D.children t) :
    t = s ∨ ∃ p, t = some p ∧ D.Seen isOpen s p ∧ isOpen p = true := by
  cases h with
  | child hs => exact .inl (D.parent_unique hx hs)
  | deeper hp ho hs => exact .inr ⟨_, D.parent_unique hx hs, hp, ho⟩

theorem between (h : D.Seen isOpen s y) (hx : D.size (some x) < D.size s) (hy : D.Below (some x) y) :
    D.Seen isOpen s x ∧ isOpen x = true ∧ D.Seen isOpen (some x) y := by
  induction hy with
  | child hy =>
    rcases h.parent hy with rfl | ⟨p, hp, hs, ho⟩
    · exact absurd hx (Nat.lt_irrefl _)
    · obtain rfl := Option.some.inj hp
      exact ⟨hs, ho, .child hy⟩
  | deeper hb _ hy ih =>
    rcases h.parent hy with rfl | ⟨p, hp, hs, ho⟩
    · exact absurd (Nat.lt_trans hx hb.size_lt) (Nat.lt_irrefl _)
    · obtain rfl := Option.some.inj hp
      obtain ⟨hsx, hox, hxp⟩ := ih hs
      exact ⟨hsx, hox, .deeper hxp ho hy⟩

theorem comparable (hx : D.Below (some x) z) (hy : D.Below (some y) z) :
    x = y ∨ D.Below (some x) y ∨ D.Below (some y) x := by
  induction hx with
  | child hz =>
    rcases hy.parent hz with heq | ⟨p, hp, hs, -⟩
    · exact .inl (Option.some.inj heq)
    · exact .inr (.inr (Option.some.inj hp ▸ hs))
  | deeper hb _ hz ih =>
    rcases hy.parent hz with heq | ⟨p, hp, hs, -⟩
    · exact .inr (.inl (Option.some.inj heq ▸ hb))
    · exact ih (Option.some.inj hp ▸ hs)

theorem siblings (hx : x ∈ D.children s) (hy : y ∈ D.children s) : ¬ D.Below (some x) y := by
  intro h
  rcases h.parent hy with rfl | ⟨p, rfl, hp, -⟩
  · exact Nat.lt_irrefl _ (Outline.size_lt hx)
  · exact Nat.lt_irrefl _ (Nat.lt_trans hp.size_lt (Outline.size_lt hx))

theorem apart (hx : x ∈ D.children s) (hy : y ∈ D.children s) (hne : x ≠ y) (hz : z = y ∨ D.Below (some y) z) :
    z ≠ x ∧ ¬ D.Below (some x) z := by
  rcases hz with rfl | hz
  · exact ⟨hne.symm, siblings hx hy⟩
  · refine ⟨?_, fun hxz => ?_⟩
    · rintro rfl
      exact siblings hy hx hz
    · rcases hxz.comparable hz with heq | hxy | hyx
      · exact hne heq
      · exact siblings hx hy hxy
      · exact siblings hy hx hyx

theorem congr (h : D.Seen isOpen s x) (hs : ∀ y, D.Below s y → isOpen' y = isOpen y) : D.Seen isOpen' s x := by
  induction h with
  | child hx => exact .child hx
  | deeper hp ho hx ih => exact .deeper ih ((hs _ hp.toBelow).trans ho) hx

theorem congr_above (h : D.Seen isOpen s x) (hs : ∀ y, D.Below (some y) x → isOpen' y = isOpen y) :
    D.Seen isOpen' s x := by
  induction h with
  | child hx => exact .child hx
  | deeper _ ho hx ih =>
    refine .deeper (ih fun y hy => hs y (.deeper hy rfl hx)) ?_ hx
    exact (hs _ (.child hx)).trans ho

end Seen

/-! ## The listing -/

theorem listingFuel_eq (fuel : Nat) (hf : D.size s < fuel) : D.listingFuel isOpen fuel s = D.listing isOpen s := by
  induction s using D.induction generalizing fuel with
  | h s ih =>
    obtain ⟨fuel, rfl⟩ : ∃ k, fuel = k + 1 := ⟨fuel - 1, by omega⟩
    rw [listing, listingFuel, listingFuel]
    refine List.flatMap_congr fun c hc => ?_
    have hs := size_lt hc
    rw [ih c hc fuel (by omega), ih c hc (D.size s) hs]

theorem listing_eq :
    D.listing isOpen s =
      (D.children s).flatMap fun c => c :: if isOpen c then D.listing isOpen (some c) else [] := by
  rw [listing, listingFuel]
  refine List.flatMap_congr fun c hc => ?_
  rw [listingFuel_eq _ (size_lt hc)]

theorem mem_listing_iff_child : x ∈ D.listing isOpen s ↔
      ∃ c ∈ D.children s, x = c ∨ (isOpen c = true ∧ x ∈ D.listing isOpen (some c)) := by
  rw [listing_eq, List.mem_flatMap]
  refine exists_congr fun c => and_congr_right fun _ => ?_
  rw [List.mem_cons]
  by_cases hc : isOpen c = true <;> simp [hc]

theorem mem_listing : x ∈ D.listing isOpen s ↔ D.Seen isOpen s x := by
  constructor
  · intro h
    induction s using D.induction with
    | h s ih =>
      obtain ⟨c, hc, rfl | ⟨ho, hx⟩⟩ := mem_listing_iff_child.1 h
      · exact .child hc
      · exact (Seen.child hc).trans ho (ih c hc hx)
  · intro h
    induction h with
    | child hx => exact mem_listing_iff_child.2 ⟨_, hx, .inl rfl⟩
    | deeper hp ho hx ih =>
      clear hp
      induction s using D.induction with
      | h s ihs =>
        obtain ⟨c, hc, rfl | ⟨hcop, hp⟩⟩ := mem_listing_iff_child.1 ih
        · exact mem_listing_iff_child.2 ⟨_, hc, .inr ⟨ho, mem_listing_iff_child.2 ⟨_, hx, .inl rfl⟩⟩⟩
        · exact mem_listing_iff_child.2 ⟨c, hc, .inr ⟨hcop, ihs c hc hp⟩⟩

theorem Seen.head (h : D.Seen isOpen s x) :
    ∃ c ∈ D.children s, x = c ∨ (isOpen c = true ∧ D.Seen isOpen (some c) x) := by
  obtain ⟨c, hc, hx⟩ := mem_listing_iff_child.1 (mem_listing.2 h)
  exact ⟨c, hc, hx.imp_right fun hx => ⟨hx.1, mem_listing.1 hx.2⟩⟩

theorem listing_nodup (isOpen : α → Bool) (s : Option α) : (D.listing isOpen s).Nodup := by
  induction s using D.induction with
  | h s ih =>
    have hp {c z : α} (h : z ∈ c :: if isOpen c then D.listing isOpen (some c) else []) :
        z = c ∨ D.Below (some c) z := by
      rcases List.mem_cons.1 h with rfl | h
      · exact .inl rfl
      · split at h
        · exact .inr (mem_listing.1 h).toBelow
        · exact nomatch h
    rw [listing_eq, List.nodup_flatMap]
    constructor
    · intro c hc
      split
      · refine List.nodup_cons.2 ⟨fun h => ?_, ih c hc⟩
        exact Nat.lt_irrefl _ (mem_listing.1 h).size_lt
      · exact List.nodup_singleton c
    · refine (D.nodup s).imp_of_mem fun {c d} hc hd hne => ?_
      intro z hzc hz
      rcases hp hzc with rfl | hcz
      · rcases hp hz with rfl | hdz
        · exact hne rfl
        · exact Seen.siblings hd hc hdz
      · rcases hp hz with rfl | hdz
        · exact Seen.siblings hc hd hcz
        · rcases hcz.comparable hdz with rfl | h | h
          · exact hne rfl
          · exact Seen.siblings hc hd h
          · exact Seen.siblings hd hc h

theorem listing_congr (h : ∀ y, D.Seen isOpen s y → isOpen' y = isOpen y) :
    D.listing isOpen' s = D.listing isOpen s := by
  induction s using D.induction with
  | h s ih =>
    rw [listing_eq, listing_eq]
    refine List.flatMap_congr fun c hc => ?_
    rw [h c (.child hc)]
    split
    · rename_i ho
      rw [ih c hc fun y hy => h y ((Seen.child hc).trans ho hy)]
    · rfl

theorem listing_split (hother : ∀ y, y ≠ x → isOpen' y = isOpen y) (hclo : isOpen x = false)
    (hop : isOpen' x = true) (hx : D.Seen isOpen s x) : ∃ front back, D.listing isOpen s = front ++ x :: back ∧
      D.listing isOpen' s = front ++ x :: (D.listing isOpen' (some x) ++ back) := by
  induction s using D.induction with
  | h s ih =>
    let part (f : α → Bool) (c : α) := c :: if f c then D.listing f (some c) else []
    obtain ⟨c, hc, hin⟩ := mem_listing_iff_child.1 (mem_listing.2 hx)
    obtain ⟨before, after, hk⟩ := List.append_of_mem hc
    have hs (f : α → Bool) : D.listing f s = before.flatMap (part f) ++ (part f c ++ after.flatMap (part f)) := by
      rw [listing_eq, hk, List.flatMap_append, List.flatMap_cons]
    have hxc : x = c ∨ D.Below (some c) x := hin.imp_right fun h => (mem_listing.1 h.2).toBelow
    -- the parts of the other children do not change, for the node is not in them
    have hsm (d : α) (hd : d ∈ D.children s) (hne : d ≠ c) : part isOpen' d = part isOpen d := by
      have hn : ¬ (x = d ∨ D.Below (some d) x) := by
        rintro (rfl | hdx)
        · exact Seen.siblings hc hd (hxc.resolve_left hne)
        · rcases hxc with rfl | hcx
          · exact Seen.siblings hd hc hdx
          · rcases hcx.comparable hdx with rfl | h | h
            · exact hne rfl
            · exact Seen.siblings hc hd h
            · exact Seen.siblings hd hc h
      have hdx : d ≠ x := fun h => hn (.inl h.symm)
      simp only [part, hother d hdx]
      rw [listing_congr fun y hy => hother y fun h => hn (.inr (h ▸ hy.toBelow))]
    have hnd := D.nodup s
    rw [hk, List.nodup_append] at hnd
    obtain ⟨-, hl, hdis⟩ := hnd
    have hb : before.flatMap (part isOpen') = before.flatMap (part isOpen) :=
      List.flatMap_congr fun d hd => hsm d (hk ▸ List.mem_append_left _ hd)
        (hdis d hd c List.mem_cons_self)
    have ha : after.flatMap (part isOpen') = after.flatMap (part isOpen) := by
      refine List.flatMap_congr fun d hd => hsm d ?_ ?_
      · exact hk ▸ List.mem_append_right _ (List.mem_cons_of_mem c hd)
      · rintro rfl
        exact (List.nodup_cons.1 hl).1 hd
    rw [hs isOpen, hs isOpen', hb, ha]
    rcases hin with rfl | ⟨hcop, hin⟩
    · refine ⟨before.flatMap (part isOpen), after.flatMap (part isOpen), ?_, ?_⟩
      · simp [part, hclo]
      · simp [part, hop]
    · have hne : c ≠ x := by
        rintro rfl
        rw [hclo] at hcop
        exact nomatch hcop
      obtain ⟨front, back, ho, hnew⟩ := ih c hc (mem_listing.1 hin)
      have hcop' : isOpen' c = true := (hother c hne).trans hcop
      refine ⟨before.flatMap (part isOpen) ++ c :: front, back ++ after.flatMap (part isOpen), ?_, ?_⟩
      · simp [part, hcop, ho]
      · simp [part, hcop', hnew]

end Outline
