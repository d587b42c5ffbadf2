import Mathlib.Data.Nat.Cast.Defs

/-!
# Numerals

The facts that the numerals of a field rest on, by name, for the definitions that take them as local instances.
-/

namespace Numerals

theorem two : Nat.AtLeastTwo 2 := ⟨Nat.le_refl 2⟩

theorem three : Nat.AtLeastTwo 3 := ⟨Nat.le_succ 2⟩

theorem ten : Nat.AtLeastTwo 10 := ⟨Nat.le_add_left 2 8⟩

end Numerals
