import Mathlib.Data.List.Basic

/-!
# Attributed strings

`NSMutableAttributedString` as one entry for each character: its code unit, the two attributes that the
fixing methods look at, and the rest of the attributes.
-/

namespace GnustepGui.AttributedString

/-- A character with its attributes. -/
structure AttributedCharacter (S A O : Type*) where
  character : UInt16
  paragraphStyle : Option S
  attachment : Option A
  others : O
  deriving DecidableEq

abbrev NSMutableAttributedString (S A O : Type*) := List (AttributedCharacter S A O)

inductive NSException where
  | rangeError
  | invalidArgument
  deriving DecidableEq

structure NSRange where
  location : Nat
  length : Nat
  deriving DecidableEq

def NSRange.max (range : NSRange) : Nat := range.location + range.length

theorem NSRange.max_mk (location length : Nat) : NSRange.max ⟨location, length⟩ = location + length := rfl

end GnustepGui.AttributedString
