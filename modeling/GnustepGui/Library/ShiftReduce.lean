import Mathlib.Logic.Basic

/-!
# Shift-reduce parsing

A parser keeps a stack of symbols, the topmost first, and a state on which the actions of its rules run.
Which step it takes is decided by tables that are not described here, so that `Step` has every step some
table could take. A rule with an empty right-hand side and a context is an action within another rule.

An error drops symbols from the stack until one is met that an error may follow.
-/

namespace ShiftReduce

structure Grammar (S T : Type*) where
  /-- The rule, with what stands in front of it, its right-hand side, its symbol and its action. -/
  Rule : List S → List S → S → (T → Option T) → Prop
  IsToken : S → Prop
  error : S
  /-- Recovery may drop these symbols down to the last one. -/
  Drops : List S → S → Prop

inductive Event (S T : Type*) where
  | shift (token : S)
  | reduce (rhs : List S) (lhs : S) (action : T → Option T)
  | recover (dropped : List S)
  | discard (token : S)

structure Config (S T : Type*) where
  stack : List S
  state : T

variable {S T : Type*}

inductive Step (G : Grammar S T) : Config S T → Event S T → Config S T → Prop
  | shift {stack : List S} {state : T} {token : S} (h : G.IsToken token) :
      Step G ⟨stack, state⟩ (.shift token) ⟨token :: stack, state⟩
  | reduce {stack context rhs : List S} {lhs : S} {action : T → Option T} {state state' : T}
      (h : G.Rule context rhs lhs action) (haction : action state = some state') :
      Step G ⟨rhs.reverse ++ (context.reverse ++ stack), state⟩ (.reduce rhs lhs action)
        ⟨lhs :: (context.reverse ++ stack), state'⟩
  | recover {stack dropped : List S} {last : S} {state : T} (h : G.Drops dropped last) :
      Step G ⟨dropped ++ last :: stack, state⟩ (.recover dropped) ⟨G.error :: last :: stack, state⟩
  | discard {stack : List S} {state : T} {token : S} (h : G.IsToken token) :
      Step G ⟨stack, state⟩ (.discard token) ⟨stack, state⟩

inductive Run (G : Grammar S T) : Config S T → List (Event S T) → Config S T → Prop
  | nil (c : Config S T) : Run G c [] c
  | snoc {c d e : Config S T} {events : List (Event S T)} {event : Event S T} (h : Run G c events d)
      (hstep : Step G d event e) : Run G c (events ++ [event]) e

theorem Run.invariant {G : Grammar S T} {P : Config S T → Prop}
    (hs : ∀ c event d, Step G c event d → P c → P d) {c d : Config S T} {events : List (Event S T)}
    (h : Run G c events d) (hc : P c) : P d := by
  induction h with
  | nil => exact hc
  | snoc _ hl ih => exact hs _ _ _ hl ih

end ShiftReduce
