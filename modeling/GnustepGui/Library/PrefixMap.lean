import Mathlib.Data.List.Infix

/-!
# Tries as maps from sequences

A trie is described by what each sequence of symbols leads to: nothing, an action, or a further
table. `makeTable` and `setLeaf` are its two changes; both make tables of the proper prefixes of the
sequence, a leaf takes everything below it away, a table keeps what is below it. `under` is the
subtrie of a symbol, and the changes act on it as changes do (`perform_cons`).
-/

namespace PrefixMap

variable {K A : Type*} [DecidableEq K]

/-- What a sequence leads to. -/
inductive Answer (A : Type*)
  | miss
  | action (a : A)
  | table
deriving DecidableEq, Repr

/-- A leaf may be disabled. -/
def Answer.ofLeaf : Option A → Answer A
  | none => .miss
  | some a => .action a

/-- Only the empty sequence leads to a table. -/
def empty (q : List K) : Answer A := if q = [] then .table else .miss

/-- A change of a trie. -/
inductive Change (K A : Type*)
  | makeTable (p : List K)
  | setLeaf (p : List K) (leaf : Option A)

namespace Change

def perform (r : List K → Answer A) : Change K A → List K → Answer A
  | makeTable p, q => if q <+: p then .table else r q
  | setLeaf p leaf, q =>
    if q = p then .ofLeaf leaf
    else if q <+: p then .table
    else if p <+: q then .miss
    else r q

theorem perform_makeTable (r : List K → Answer A) (p q : List K) :
    (makeTable p).perform r q = if q <+: p then .table else r q := rfl

/-- The change below a symbol. -/
def cons (k : K) : Change K A → Change K A
  | makeTable p => makeTable (k :: p)
  | setLeaf p leaf => setLeaf (k :: p) leaf

end Change

/-- A run of changes. -/
def performAll (r : List K → Answer A) (changes : List (Change K A)) : List K → Answer A :=
  changes.foldl Change.perform r

def under (k : K) (r : List K → Answer A) (q : List K) : Answer A := r (k :: q)

variable {r : List K → Answer A} {k : K}

theorem performAll_append (changes changes' : List (Change K A)) :
    performAll r (changes ++ changes') = performAll (performAll r changes) changes' := by
  unfold performAll
  rw [List.foldl_append]

theorem perform_cons_nil (c : Change K A) : (c.cons k).perform r [] = .table := by
  cases c with
  | makeTable p => simp [Change.cons, Change.perform]
  | setLeaf p leaf => simp [Change.cons, Change.perform]

/-- A change below a symbol changes the subtrie of the symbol, and no other. -/
theorem perform_cons (c : Change K A) (k' : K) (q : List K) :
    (c.cons k).perform r (k' :: q) = if k' = k then c.perform (under k r) q else r (k' :: q) := by
  by_cases hk : k' = k
  · subst hk
    rw [if_pos rfl]
    cases c with
    | makeTable p => simp [Change.cons, Change.perform, under]
    | setLeaf p leaf => simp [Change.cons, Change.perform, under]
  · rw [if_neg hk]
    cases c with
    | makeTable p => simp [Change.cons, Change.perform, hk]
    | setLeaf p leaf => simp [Change.cons, Change.perform, hk, Ne.symm hk]

theorem performAll_cons (changes : List (Change K A)) (k' : K) (q : List K) :
    performAll r (changes.map (Change.cons k)) (k' :: q) =
      if k' = k then performAll (under k r) changes q else r (k' :: q) := by
  induction changes generalizing r with
  | nil => by_cases hk : k' = k <;> simp [performAll, under, hk]
  | cons c changes ih =>
    have hs : performAll r ((c :: changes).map (Change.cons k)) =
        performAll ((c.cons k).perform r) (changes.map (Change.cons k)) := rfl
    have hu : under k ((c.cons k).perform r) = c.perform (under k r) := by
      funext q
      unfold under
      rw [perform_cons, if_pos rfl]
      rfl
    rw [hs, ih, hu, perform_cons]
    by_cases hk : k' = k
    · simp [hk, performAll]
    · simp [hk]

theorem performAll_cons_nil (changes : List (Change K A)) (h : r [] = .table) :
    performAll r (changes.map (Change.cons k)) [] = .table := by
  induction changes generalizing r with
  | nil => exact h
  | cons c changes ih => exact ih (perform_cons_nil c)

/-- No leaf of one of two changes is at or above the path of the other. -/
def Change.Apart : Change K A → Change K A → Prop
  | makeTable _, makeTable _ => True
  | makeTable p, setLeaf p' _ => ¬ p' <+: p
  | setLeaf p _, makeTable p' => ¬ p <+: p'
  | setLeaf p _, setLeaf p' _ => ¬ p <+: p' ∧ ¬ p' <+: p

theorem perform_comm {c c' : Change K A} (h : c.Apart c') (r : List K → Answer A) :
    c'.perform (c.perform r) = c.perform (c'.perform r) := by
  funext q
  have ht (a b : List K) (h₁ : a <+: q) (h₂ : q <+: b) : a <+: b := h₁.trans h₂
  cases c with
  | makeTable p => cases c' <;> grind [Change.perform, Change.Apart]
  | setLeaf p leaf => cases c' <;> grind [Change.perform, Change.Apart]

/-- Changes that are apart may come in any order. -/
theorem performAll_perm {l l' : List (Change K A)} (hp : l.Perm l') (h : ∀ c ∈ l, ∀ c' ∈ l, c ≠ c' → c.Apart c')
    (r : List K → Answer A) : performAll r l = performAll r l' := by
  refine hp.foldl_eq' (fun c hc c' hc' s => ?_) r
  by_cases he : c = c'
  · rw [he]
  · exact perform_comm (h c hc c' hc' he) s

end PrefixMap
