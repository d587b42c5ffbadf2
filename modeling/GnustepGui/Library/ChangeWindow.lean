import Mathlib.Data.List.TakeDrop
import Mathlib.Order.Lattice

/-!
# Change windows

Between two versions of a list everything outside a window is the same: what is before `start`, and what
is after `stop` in the new version, which in the old one began `delta` earlier. A splice changes a
window (`ChangeWindow.splice`), and changes made one after another change the window that
encloses both (`ChangeWindow.trans`).
-/

/-- The new list differs from the old one between `start` and `stop` only, and is longer by `delta`. -/
structure ChangeWindow {α : Type*} (old new : List α) (start stop : Nat) (delta : Int) : Prop where
  stop_le : stop ≤ new.length
  nonneg : 0 ≤ (stop : Int) - delta
  le_old : (stop : Int) - delta ≤ old.length
  front : new.take start = old.take start
  back : new.drop stop = old.drop ((stop : Int) - delta).toNat

namespace ChangeWindow

variable {α : Type*} {old mid new l : List α} {start stop start' stop' : Nat} {delta delta' : Int}

theorem refl (l : List α) : ChangeWindow l l 0 0 0 := ⟨Nat.zero_le _, le_refl _, Int.natCast_nonneg _, rfl, rfl⟩

/-- The change in length is the one between the lists. -/
theorem delta_eq (h : ChangeWindow old new start stop delta) : delta = (new.length : Int) - old.length := by
  have hl := congrArg List.length h.back
  rw [List.length_drop, List.length_drop] at hl
  have h₁ := h.stop_le
  have h₂ := h.nonneg
  have h₃ := h.le_old
  omega

theorem splice (t : List α) (h : start ≤ stop) (hsp : stop ≤ l.length) :
    ChangeWindow l (l.take start ++ t ++ l.drop stop) start (start + t.length)
      ((t.length : Int) - (stop - start : Nat)) := by
  have hs : (l.take start).length = start := List.length_take_of_le (Nat.le_trans h hsp)
  have hc : ((start + t.length : Nat) : Int) - ((t.length : Int) - (stop - start : Nat)) = stop := by omega
  constructor
  · simp only [List.length_append, hs]
    omega
  · omega
  · omega
  · rw [List.append_assoc, List.take_append_of_le_length (Nat.le_of_eq hs.symm), List.take_take, min_self]
  · rw [hc, Int.toNat_natCast, List.drop_append_of_le_length (by simp only [List.length_append, hs]; omega),
      List.drop_eq_nil_of_le (by simp only [List.length_append, hs]; omega), List.nil_append]

theorem widen (h : ChangeWindow old new start stop delta) (hs : start' ≤ start) (hsp : stop ≤ stop')
    (hle : stop' ≤ new.length) : ChangeWindow old new start' stop' delta := by
  have hd := h.delta_eq
  have h₁ := h.nonneg
  refine ⟨hle, by omega, by omega, ?_, ?_⟩
  · have hf := congrArg (List.take start') h.front
    rwa [List.take_take, List.take_take, min_eq_left hs] at hf
  · have hb := congrArg (List.drop (stop' - stop)) h.back
    rw [List.drop_drop, List.drop_drop] at hb
    have hn : stop + (stop' - stop) = stop' := by omega
    have ho : ((stop : Int) - delta).toNat + (stop' - stop) = ((stop' : Int) - delta).toNat := by omega
    rwa [hn, ho] at hb

theorem comp (h : ChangeWindow old mid start stop delta) (h' : ChangeWindow mid new start stop' delta')
    (hs : (stop' : Int) - delta' = stop) : ChangeWindow old new start stop' (delta + delta') := by
  have hc : (stop' : Int) - (delta + delta') = stop - delta := by omega
  refine ⟨h'.stop_le, by rw [hc]; exact h.nonneg, by rw [hc]; exact h.le_old, h'.front.trans h.front, ?_⟩
  rw [h'.back, hs, Int.toNat_natCast, h.back, hc]

theorem trans {cut : Nat} (h : ChangeWindow old mid start stop delta)
    (h' : ChangeWindow mid new start' stop' delta') (hc : (stop' : Int) - delta' = cut) :
    ChangeWindow old new (min start start') ((max stop cut : Nat) + delta').toNat (delta + delta') := by
  have hd := h'.delta_eq
  have hle := h'.le_old
  have hs := h.stop_le
  have hle' := h'.stop_le
  have hw : ChangeWindow old mid (min start start') (max stop cut) delta :=
    h.widen (min_le_left _ _) (le_max_left _ _) (by omega)
  have hw' : ChangeWindow mid new (min start start') ((max stop cut : Nat) + delta').toNat delta' :=
    h'.widen (min_le_right _ _) (by omega) (by omega)
  exact hw.comp hw' (by omega)

end ChangeWindow
