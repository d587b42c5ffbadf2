import Mathlib.Data.List.Basic

/-!
# `GSKeyBindingTable`

A table is an array of bindings of keystrokes to an action or to a further table. `bindKey:toAction:`
turns a key sequence into nested dictionaries, merges a dictionary into the table it meets, and
replaces everything else. A dictionary stands for its enumeration: the list of its entries in the
order in which they come.
-/

namespace GnustepGui.KeyBinding

/-- `NSEventModifierFlags` -/
abbrev Modifiers := BitVec 32

def NSShiftKeyMask : Modifiers := 2 <<< 16
def NSControlKeyMask : Modifiers := 4 <<< 16
def NSAlternateKeyMask : Modifiers := 8 <<< 16
def NSNumericPadKeyMask : Modifiers := 32 <<< 16
def NSFunctionKeyMask : Modifiers := 128 <<< 16

structure KeyStroke where
  character : UInt16
  modifiers : Modifiers
deriving DecidableEq, Repr

/-- `GSKeyBindingAction`; an object of the caller's is known by its identity. -/
inductive GSKeyBindingAction
  | selector (sel : String)
  | selectorArray (sels : List String)
  | object (address : Nat)
deriving DecidableEq, Repr

/-! ## What is bound -/

/-- A key object: a string, an array, or something else. -/
inductive BindingKey
  | string (s : String)
  | array (keys : List BindingKey)
  | other

/-- The object a key is bound to. -/
inductive BindingValue
  | string (s : String)
  | array (sels : List String)
  | dictionary (entries : List (BindingKey × BindingValue))
  | action (a : GSKeyBindingAction)
  | other

abbrev BindingDictionary := List (BindingKey × BindingValue)

mutual

def BindingKey.weight : BindingKey → Nat
  | .string _ => 1
  | .array keys => keysWeight keys + 1
  | .other => 1

def keysWeight : List BindingKey → Nat
  | [] => 0
  | key :: keys => key.weight + 1 + keysWeight keys

end

mutual

def BindingValue.weight : BindingValue → Nat
  | .dictionary entries => dictionaryWeight entries
  | .string _ => 0
  | .array _ => 0
  | .action _ => 0
  | .other => 0

def dictionaryWeight : List (BindingKey × BindingValue) → Nat
  | [] => 0
  | (key, value) :: entries => key.weight + value.weight + 1 + dictionaryWeight entries

end

theorem BindingKey.weight_pos (key : BindingKey) : 0 < key.weight := by
  cases key with
  | string s => simp [BindingKey.weight]
  | array keys => simp [BindingKey.weight]
  | other => simp [BindingKey.weight]

/-! ## Parsing -/

/-- What the table asks of its surroundings: `parseKey:intoCharacter:andModifiers:` of
`NSInputManager`, and whether `NSSelectorFromString` knows a selector. -/
structure KeyParser where
  parseKey : String → Option (UInt16 × Modifiers)
  hasSelector : String → Bool

/-- Shift is kept for function keys only. -/
def maskModifiers (modifiers : Modifiers) : Modifiers :=
  if modifiers &&& NSFunctionKeyMask ≠ 0 then
    modifiers &&& (NSShiftKeyMask ||| NSAlternateKeyMask ||| NSControlKeyMask ||| NSNumericPadKeyMask)
  else modifiers &&& (NSAlternateKeyMask ||| NSControlKeyMask ||| NSNumericPadKeyMask)

/-- The temporary dictionaries of a key sequence: `action` under the keys behind the first. -/
def nestDictionaries (keys : List BindingKey) (action : BindingValue) : BindingValue :=
  keys.foldr (fun key value => .dictionary [(key, value)]) action

/-- The first key of a sequence, and the action as it is bound to that; `none` for an empty one. -/
def unrollKey (key : BindingKey) (action : BindingValue) : Option (BindingKey × BindingValue) :=
  match key with
  | .array [] => none
  | .array (key :: keys) => some (key, nestDictionaries keys action)
  | key => some (key, action)

namespace KeyParser

variable (p : KeyParser)

def keyStroke : BindingKey → Option KeyStroke
  | .string s => (p.parseKey s).map fun r => ⟨r.1, maskModifiers r.2⟩
  | _ => none

/-- The action of an object that is no dictionary; `nil` disables the binding. -/
def actionFor : BindingValue → Option GSKeyBindingAction
  | .string s => if s = "" then none else if p.hasSelector s then some (.selector s) else none
  | .array sels => if sels.all p.hasSelector then some (.selectorArray sels) else none
  | .action a => some a
  | .dictionary _ => none
  | .other => none

end KeyParser

theorem weight_nestDictionaries (keys : List BindingKey) (action : BindingValue) :
    (nestDictionaries keys action).weight = keysWeight keys + action.weight := by
  induction keys with
  | nil => simp [nestDictionaries, keysWeight]
  | cons key keys ih =>
    have hc : nestDictionaries (key :: keys) action =
        .dictionary [(key, nestDictionaries keys action)] := rfl
    rw [hc]
    simp only [BindingValue.weight, dictionaryWeight, keysWeight, ih]
    omega

theorem weight_unrollKey {key key' : BindingKey} {action : BindingValue}
    {entries : BindingDictionary} (h : unrollKey key action = some (key', .dictionary entries)) :
    dictionaryWeight entries < key.weight + action.weight := by
  have hs : ∀ {k : BindingKey}, action = .dictionary entries → dictionaryWeight entries < k.weight + action.weight := by
    rintro k rfl
    have := k.weight_pos
    simp only [BindingValue.weight]
    omega
  unfold unrollKey at h
  split at h
  · cases h
  · rename_i k keys
    obtain ⟨-, he⟩ := Prod.mk.inj (Option.some.inj h)
    have hw := weight_nestDictionaries keys action
    rw [he] at hw
    simp only [BindingValue.weight] at hw
    simp only [BindingKey.weight, keysWeight]
    omega
  · exact hs (Prod.mk.inj (Option.some.inj h)).2

/-! ## Tables -/

mutual

inductive GSKeyBindingTable
  | table (bindings : List GSKeyBinding)

/-- `struct _GSKeyBinding` -/
inductive GSKeyBinding
  | binding (stroke : KeyStroke) (action : Option GSKeyBindingAction)
    (table : Option GSKeyBindingTable)

end

namespace GSKeyBinding

def stroke : GSKeyBinding → KeyStroke
  | .binding stroke _ _ => stroke

def action : GSKeyBinding → Option GSKeyBindingAction
  | .binding _ action _ => action

def subtable : GSKeyBinding → Option GSKeyBindingTable
  | .binding _ _ table => table

@[simp] theorem stroke_binding (stroke : KeyStroke) (action : Option GSKeyBindingAction)
    (table : Option GSKeyBindingTable) : (binding stroke action table).stroke = stroke := rfl

@[simp] theorem subtable_binding (stroke : KeyStroke) (action : Option GSKeyBindingAction)
    (table : Option GSKeyBindingTable) : (binding stroke action table).subtable = table := rfl

end GSKeyBinding

namespace GSKeyBindingTable

def bindings : GSKeyBindingTable → List GSKeyBinding
  | .table bindings => bindings

/-- `init` -/
def empty : GSKeyBindingTable := .table []

/-- Replace the binding of a keystroke, or append a new one: the action, and the table made of the
one that was there. -/
def bindStroke (stroke : KeyStroke) (action : Option GSKeyBindingAction)
    (table : Option GSKeyBindingTable → Option GSKeyBindingTable) :
    List GSKeyBinding → List GSKeyBinding
  | [] => [.binding stroke action (table none)]
  | b :: bindings =>
    if b.stroke = stroke then .binding stroke action (table b.subtable) :: bindings
    else b :: bindStroke stroke action table bindings

variable (p : KeyParser)

mutual

/-- `bindKey:toAction:` -/
def bindKey (t : GSKeyBindingTable) (key : BindingKey) (action : BindingValue) :
    GSKeyBindingTable :=
  match _h : unrollKey key action with
  | none => t
  | some (key', .dictionary entries) =>
    match p.keyStroke key' with
    | none => t
    | some stroke => .table (bindStroke stroke none (fun old =>
        some (loadBindingsFromDictionary (old.getD empty) entries)) t.bindings)
  | some (key', value) =>
    match p.keyStroke key' with
    | none => t
    | some stroke => .table (bindStroke stroke (p.actionFor value) (fun _ => none) t.bindings)
termination_by key.weight + action.weight
decreasing_by exact weight_unrollKey _h

def loadBindingsFromDictionary (t : GSKeyBindingTable) (entries : BindingDictionary) :
    GSKeyBindingTable :=
  match entries with
  | [] => t
  | (key, action) :: entries => loadBindingsFromDictionary (bindKey t key action) entries
termination_by dictionaryWeight entries
decreasing_by
  · simp only [dictionaryWeight]
    omega
  · have := key.weight_pos
    simp only [dictionaryWeight]
    omega

end

variable {p} {t : GSKeyBindingTable} {key key' : BindingKey} {action value : BindingValue}

theorem bindKey_none (h : unrollKey key action = none) : bindKey p t key action = t := by
  unfold bindKey
  split
  · rfl
  · simp_all
  · simp_all

theorem bindKey_dictionary {entries : BindingDictionary}
    (h : unrollKey key action = some (key', .dictionary entries)) :
    bindKey p t key action =
      match p.keyStroke key' with
      | none => t
      | some stroke => .table (bindStroke stroke none (fun old =>
          some (loadBindingsFromDictionary p (old.getD empty) entries)) t.bindings) := by
  conv_lhs => unfold bindKey
  split
  · simp_all
  · simp_all
  · simp_all

theorem bindKey_leaf (h : unrollKey key action = some (key', value))
    (hv : ∀ entries, value ≠ .dictionary entries) :
    bindKey p t key action =
      match p.keyStroke key' with
      | none => t
      | some stroke =>
        .table (bindStroke stroke (p.actionFor value) (fun _ => none) t.bindings) := by
  conv_lhs => unfold bindKey
  split
  · simp_all
  · rename_i k es he
    rw [h] at he
    obtain ⟨-, hd⟩ := Prod.mk.inj (Option.some.inj he)
    exact absurd hd (hv es)
  · simp_all

/-- `lookupKeyStroke:modifiers:returningActionIn:tableIn:` -/
def lookupKeyStroke (t : GSKeyBindingTable) (stroke : KeyStroke) :
    Option (Option GSKeyBindingAction × Option GSKeyBindingTable) :=
  match t.bindings.find? (·.stroke = stroke) with
  | none => none
  | some (.binding _ none none) => none
  | some (.binding _ action sub) => some (action, sub)

end GSKeyBindingTable

end GnustepGui.KeyBinding
