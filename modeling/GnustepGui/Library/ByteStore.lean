import Mathlib.Data.Option.Basic

/-!
# Byte stores

A partial memory of bytes in blocks, read bit by bit as well: the bits of a block are counted from the
most significant bit of its first byte on (`bitAt_put`).
-/

/-- The bytes at the addresses of each block; there need not be one at every address. -/
abbrev ByteStore (ι : Type*) := ι → Nat → Option (BitVec 8)

namespace ByteStore

variable {ι : Type*} [DecidableEq ι] {m m' : ByteStore ι} {p q : ι} {a c k : Nat} {b : BitVec 8}

def put (m : ByteStore ι) (p : ι) (a : Nat) (b : BitVec 8) : ByteStore ι :=
  Function.update m p (Function.update (m p) a (some b))

/-- Only where there is a byte. -/
def store (m : ByteStore ι) (p : ι) (a : Nat) (b : BitVec 8) : Option (ByteStore ι) :=
  match m p a with
  | none => none
  | some _ => some (m.put p a b)

def bitAt (m : ByteStore ι) (p : ι) (k : Nat) : Bool := ((m p (k / 8)).getD 0).getLsbD (7 - k % 8)

theorem store_eq (h : (m p a).isSome) (b : BitVec 8) : m.store p a b = some (m.put p a b) := by
  obtain ⟨old, ho⟩ := Option.isSome_iff_exists.mp h
  rw [store, ho]

@[simp] theorem put_self : m.put p a b p a = some b := by
  rw [put, Function.update_self, Function.update_self]

theorem put_of_ne (h : ¬ (q = p ∧ c = a)) : m.put p a b q c = m q c := by
  by_cases hq : q = p
  · subst hq
    rw [put, Function.update_self, Function.update_of_ne fun hc => h ⟨rfl, hc⟩]
  · rw [put, Function.update_of_ne hq]

theorem put_eq : m.put p a b q c = if q = p ∧ c = a then some b else m q c := by
  split
  · rename_i h
    obtain ⟨rfl, rfl⟩ := h
    exact put_self
  · rename_i h
    exact put_of_ne h

/-- The bytes that there are stay the same ones. -/
theorem isSome_put (h : (m p a).isSome) (q : ι) (c : Nat) : (m.put p a b q c).isSome = (m q c).isSome := by
  rw [put_eq]
  split
  · rename_i hs
    obtain ⟨rfl, rfl⟩ := hs
    rw [h, Option.isSome_some]
  · rfl

theorem bitAt_put :
    (m.put p a b).bitAt q k = if q = p ∧ k / 8 = a then b.getLsbD (7 - k % 8) else m.bitAt q k := by
  unfold bitAt
  rw [put_eq]
  split <;> rfl

omit [DecidableEq ι] in
theorem getLsbD_of_bitAt (h : m p a = some b) {u : Nat} (hu : u < 8) : b.getLsbD u = m.bitAt p (8 * a + (7 - u)) := by
  have ha : (8 * a + (7 - u)) / 8 = a := by omega
  have hb : 7 - (8 * a + (7 - u)) % 8 = u := by omega
  rw [bitAt, ha, hb, h, Option.getD_some]

omit [DecidableEq ι] in
theorem eq_of_bitAt (hs : (m' p a).isSome = (m p a).isSome) (hb : ∀ u < 8, m'.bitAt p (8 * a + u) = m.bitAt p (8 * a + u)) :
    m' p a = m p a := by
  cases hm : m p a with
  | none =>
    rw [hm] at hs
    exact Option.not_isSome_iff_eq_none.mp (by rw [hs]; exact Bool.noConfusion)
  | some b =>
    rw [hm] at hs
    obtain ⟨b', hm'⟩ := Option.isSome_iff_exists.mp hs
    rw [hm', Option.some_inj]
    refine BitVec.eq_of_getLsbD_eq fun u hu => ?_
    rw [getLsbD_of_bitAt hm' hu, getLsbD_of_bitAt hm hu]
    exact hb (7 - u) (by omega)

/-! ## Loops -/

theorem store_eq_bind (b : BitVec 8) : m.store p a b = (m p a).bind fun _ => m.store p a b := by
  unfold store
  cases m p a <;> rfl

theorem foldlM_rewrite {κ : Type*} (cell : κ → ι × Nat) (rewrite : κ → BitVec 8 → BitVec 8) {l : List κ}
    (hnd : (l.map cell).Nodup) {m : ByteStore ι} (hs : ∀ i ∈ l, (m (cell i).1 (cell i).2).isSome) :
    ∃ m', l.foldlM (fun m i => (m (cell i).1 (cell i).2).bind fun b => m.store (cell i).1 (cell i).2 (rewrite i b)) m =
        some m' ∧ (∀ i ∈ l, m' (cell i).1 (cell i).2 = (m (cell i).1 (cell i).2).map (rewrite i)) ∧
        ∀ q c, (∀ i ∈ l, cell i ≠ (q, c)) → m' q c = m q c := by
  induction l generalizing m with
  | nil => exact ⟨m, rfl, by simp, fun _ _ _ => rfl⟩
  | cons i l ih =>
    rw [List.map_cons, List.nodup_cons] at hnd
    obtain ⟨b, hb⟩ := Option.isSome_iff_exists.mp (hs i (List.mem_cons_self ..))
    have hst := store_eq (hs i (List.mem_cons_self ..)) (rewrite i b)
    have hother : ∀ j ∈ l, ¬ ((cell j).1 = (cell i).1 ∧ (cell j).2 = (cell i).2) := fun j hj h =>
      hnd.1 (List.mem_map.mpr ⟨j, hj, Prod.ext h.1 h.2⟩)
    obtain ⟨m', hl, hc, hf⟩ := ih hnd.2 (m := m.put (cell i).1 (cell i).2 (rewrite i b))
      (fun j hj => by
        rw [put_of_ne (hother j hj)]
        exact hs j (List.mem_cons_of_mem i hj))
    refine ⟨m', ?_, fun j hj => ?_, fun q c hq => ?_⟩
    · rw [List.foldlM_cons, hb, Option.bind_some, hst]
      exact hl
    · rcases List.mem_cons.mp hj with rfl | hj
      · rw [hf _ _ fun k hk hcl => hnd.1 (List.mem_map.mpr ⟨k, hk, hcl⟩), put_self, hb, Option.map_some]
      · rw [hc j hj, put_of_ne (hother j hj)]
    · rw [hf q c fun j hj => hq j (List.mem_cons_of_mem i hj)]
      refine put_of_ne fun h => hq i (List.mem_cons_self ..) (Prod.ext h.1.symm h.2.symm)

end ByteStore
