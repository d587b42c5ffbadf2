import GnustepGui.VisualFormat.Parser

/-!
# The grammar of visual formats

A `Format` is what is written in a visual format, and `Format.Reads` says which texts spell it; a
text spells at most one (`Format.Reads.unique`). The trees are wider than the grammar: brackets and
priority marks may be repeated, a bar may follow any view, and so may a connection.
`Format.WellFormed` picks out the grammar

    [H:|V:] ["|" [connection]] view (connection view)* [[connection] "|"]
-/

namespace GnustepGui.VisualFormat

open Scanner

/-! ## What a format says -/

/-- A number, or the name of a metric (where a predicate compares, also of a view). -/
inductive Value (N : Type)
  | number (v : N)
  | name (identifier : List Char)

/-- Nothing written, a `-`, or a value between two. -/
inductive Connection (N : Type)
  | flush
  | standard
  | spaced (value : Value N)

structure Predicate (N : Type) where
  relation : Option NSLayoutRelation
  object : Value N
  /-- How many more marks than one there are, and the priority. -/
  priority : Option (Nat × Value N)

structure ViewText (N : Type) where
  moreOpens : Nat
  name : List Char
  /-- Empty when there is no list. -/
  predicates : List (Predicate N)
  moreCloses : Nat

/-- A view and what is written after it. -/
structure Item (N : Type) where
  view : ViewText N
  connection : Connection N
  bar : Bool

inductive Orientation
  | unmarked
  | marked (vertical upperCase : Bool)

structure Format (N : Type) where
  orientation : Orientation
  /-- The connection after a leading bar. -/
  leading : Option (Connection N)
  items : List (Item N)

/-! ## How it is spelled -/

/-- The text `s` is blanks, the token `t` and then `rest`. -/
def Token (t s rest : List Char) : Prop := skip whitespaceAndNewline s = t ++ rest

/-- The first character of `s` after blanks. -/
def Next (c : Char) (s : List Char) : Prop := (skip whitespaceAndNewline s).head? = some c

def AtEnd (s : List Char) : Prop := skip whitespaceAndNewline s = []

instance (t s rest : List Char) : Decidable (Token t s rest) :=
  inferInstanceAs (Decidable (skip whitespaceAndNewline s = t ++ rest))

instance (c : Char) (s : List Char) : Decidable (Next c s) :=
  inferInstanceAs (Decidable ((skip whitespaceAndNewline s).head? = some c))

/-- An identifier that ends where the text does or where a character of `after` stands. -/
structure ReadsName (after : List Char) (n s rest : List Char) : Prop where
  valid : isValidIdentifier n = true
  token : Token n s rest
  ends : ∀ c ∈ rest.head?, c ∈ after

section Spelling

variable {N : Type}

inductive Value.Reads (scan : List Char → Option (N × List Char)) (after : List Char) :
    Value N → List Char → List Char → Prop
  | number {v : N} {s rest : List Char} : scan s = some (v, rest) → Reads scan after (.number v) s rest
  | name {n s rest : List Char} : ReadsName after n s rest → Reads scan after (.name n) s rest

variable (numbers : NumberScanner N)

/-- After a `-` alone stands a bracket, a bar or the end. -/
inductive Connection.Reads : Connection N → List Char → List Char → Prop
  | flush {s : List Char} : ¬ Next '-' s → Reads .flush s s
  | standard {s rest : List Char} : Token ['-'] s rest → Next '[' rest ∨ Next '|' rest ∨ AtEnd rest →
      Reads .standard s rest
  | spaced {value : Value N} {s s₁ s₂ rest : List Char} : Token ['-'] s s₁ →
      value.Reads numbers.scanFloat ['-', '[', '|'] s₁ s₂ → Token ['-'] s₂ rest →
      Reads (.spaced value) s rest

def NSLayoutRelation.mark : NSLayoutRelation → List Char
  | .equal => ['=', '=']
  | .greaterThanOrEqual => ['>', '=']
  | .lessThanOrEqual => ['<', '=']

inductive ReadsRelation : Option NSLayoutRelation → List Char → List Char → Prop
  | unwritten {s : List Char} : (∀ relation rest, ¬ Token (NSLayoutRelation.mark relation) s rest) →
      ReadsRelation none s s
  | written {relation : NSLayoutRelation} {s rest : List Char} :
      Token (NSLayoutRelation.mark relation) s rest → ReadsRelation (some relation) s rest

inductive ReadsPriority : Option (Nat × Value N) → List Char → List Char → Prop
  | unwritten {s : List Char} : ¬ Next '@' s → ReadsPriority none s s
  | written {more : Nat} {value : Value N} {s s₁ rest : List Char} :
      Token (List.replicate (more + 1) '@') s s₁ → value.Reads numbers.scanDouble [')', ','] s₁ rest →
      ReadsPriority (some (more, value)) s rest

def Predicate.Reads (p : Predicate N) (s rest : List Char) : Prop :=
  ∃ s₁ s₂, ReadsRelation p.relation s s₁ ∧
    p.object.Reads numbers.scanDouble [')', ',', '@'] s₁ s₂ ∧ ReadsPriority numbers p.priority s₂ rest

/-- Predicates with commas between them, and the parenthesis that closes the list. -/
inductive ReadsPredicates : List (Predicate N) → List Char → List Char → Prop
  | last {p : Predicate N} {s s₁ rest : List Char} : p.Reads numbers s s₁ → Token [')'] s₁ rest →
      ReadsPredicates [p] s rest
  | cons {p : Predicate N} {ps : List (Predicate N)} {s s₁ s₂ rest : List Char} :
      p.Reads numbers s s₁ → Token [','] s₁ s₂ → ReadsPredicates ps s₂ rest →
      ReadsPredicates (p :: ps) s rest

inductive ReadsPredicateList : List (Predicate N) → List Char → List Char → Prop
  | unwritten {s : List Char} : ¬ Next '(' s → ReadsPredicateList [] s s
  | written {ps : List (Predicate N)} {s s₁ rest : List Char} : Token ['('] s s₁ →
      ReadsPredicates numbers ps s₁ rest → ReadsPredicateList ps s rest

def ViewText.Reads (v : ViewText N) (s rest : List Char) : Prop :=
  ∃ s₁ s₂ s₃, Token (List.replicate (v.moreOpens + 1) '[') s s₁ ∧ ReadsName [']', '('] v.name s₁ s₂ ∧
    ReadsPredicateList numbers v.predicates s₂ s₃ ∧
    Token (List.replicate (v.moreCloses + 1) ']') s₃ rest ∧ rest.head? ≠ some ']'

inductive ReadsBar : Bool → List Char → List Char → Prop
  | unwritten {s : List Char} : ¬ Next '|' s → ReadsBar false s s
  | written {s rest : List Char} : Token ['|'] s rest → ReadsBar true s rest

inductive ReadsItems : List (Item N) → List Char → Prop
  | nil {s : List Char} : AtEnd s → ReadsItems [] s
  | cons {item : Item N} {items : List (Item N)} {s s₁ s₂ s₃ : List Char} :
      item.view.Reads numbers s s₁ → item.connection.Reads numbers s₁ s₂ → ReadsBar item.bar s₂ s₃ →
      ReadsItems items s₃ → ReadsItems (item :: items) s

def orientationMark (vertical upperCase : Bool) : List Char :=
  [match vertical, upperCase with
    | true, true => 'V'
    | true, false => 'v'
    | false, true => 'H'
    | false, false => 'h', ':']

inductive Orientation.Reads : Orientation → List Char → List Char → Prop
  | unmarked {s : List Char} : (∀ vertical upperCase rest, ¬ Token (orientationMark vertical upperCase) s rest) →
      Reads .unmarked s s
  | marked {vertical upperCase : Bool} {s rest : List Char} :
      Token (orientationMark vertical upperCase) s rest → Reads (.marked vertical upperCase) s rest

inductive ReadsLeading : Option (Connection N) → List Char → List Char → Prop
  | unwritten {s : List Char} : ¬ Next '|' s → ReadsLeading none s s
  | written {connection : Connection N} {s s₁ rest : List Char} : Token ['|'] s s₁ →
      connection.Reads numbers s₁ rest → ReadsLeading (some connection) s rest

/-- The text `s`, which is not empty, spells the format. -/
def Format.Reads (f : Format N) (s : List Char) : Prop :=
  s ≠ [] ∧ ∃ s₁ s₂, f.orientation.Reads s s₁ ∧ ReadsLeading numbers f.leading s₁ s₂ ∧
    ReadsItems numbers f.items s₂

end Spelling

/-! ## The grammar -/

section WellFormed

variable {N : Type}

def Predicate.WellFormed (p : Predicate N) : Prop := ∀ priority ∈ p.priority, priority.1 = 0

structure ViewText.WellFormed (v : ViewText N) : Prop where
  opens : v.moreOpens = 0
  closes : v.moreCloses = 0
  predicates : ∀ p ∈ v.predicates, p.WellFormed

/-- There is a view, between two views there is no bar, and a connection after the last one leads to a
bar. -/
inductive WellFormedItems : List (Item N) → Prop
  | last {item : Item N} : item.view.WellFormed → (item.connection = .flush ∨ item.bar = true) →
      WellFormedItems [item]
  | cons {item : Item N} {items : List (Item N)} : item.view.WellFormed → item.bar = false →
      WellFormedItems items → WellFormedItems (item :: items)

structure Format.WellFormed (f : Format N) : Prop where
  orientation : ∀ vertical, f.orientation ≠ .marked vertical false
  items : WellFormedItems f.items

/-- A predicate that compares with a name and has a priority. -/
def Predicate.NamedWithPriority (p : Predicate N) : Prop :=
  (∃ n, p.object = .name n) ∧ p.priority ≠ none

def Format.NamedWithPriority (f : Format N) : Prop :=
  ∃ item ∈ f.items, ∃ p ∈ item.view.predicates, p.NamedWithPriority

end WellFormed

/-! ## The constraints it asks for -/

section Meaning

variable {V N : Type} [NatCast N] [Neg N]

def Value.metric (metrics : List Char → Option N) : Value N → Option N
  | .number v => some v
  | .name n => metrics n

/-- The constant of a connection; a standard one has none. -/
def Connection.spacing (metrics : List Char → Option N) : Connection N → Option (Option N)
  | .flush => some (some (0 : Nat))
  | .standard => some none
  | .spaced value => (value.metric metrics).map some

/-- A metric goes before a view of the same name. -/
def Value.object (metrics : List Char → Option N) (views : List Char → Option V) :
    Value N → Option (N × Option V)
  | .number v => some (v, none)
  | .name n =>
    match metrics n, views n with
    | some metric, _ => some (metric, none)
    | none, some view => some ((0 : Nat), some view)
    | none, none => none

variable (numbers : NumberScanner N)

def Value.priority (metrics : List Char → Option N) : Value N → Option N
  | .number v => some (numbers.numberWithFloat v)
  | .name n => metrics n

def priorityOf (metrics : List Char → Option N) : Option (Nat × Value N) → Option (Option N)
  | none => some none
  | some (_, value) => (value.priority numbers metrics).map some

/-- What the names of a format stand for, and how it is laid out. -/
structure Context (V N : Type) where
  metrics : List Char → Option N
  views : List Char → Option V
  superview : V → Option V
  options : Nat

variable (ctx : Context V N)

def Predicate.toObject (p : Predicate N) : Option (GSObjectOfPredicate V N) := do
  let (constant, view) ← p.object.object ctx.metrics ctx.views
  let priority ← priorityOf numbers ctx.metrics p.priority
  return ⟨priority, view, p.relation.getD .equal, constant⟩

def predicateConstraints (vertical : Bool) (view : V) (ps : List (Predicate N)) :
    Option (List (NSLayoutConstraint V N)) :=
  ps.mapM fun p =>
    (p.toObject numbers ctx).map (createConstraintFromParsedPredicate vertical (some view))

/-- What stands before a view: nothing, a bar or a view, and the connection to it. -/
inductive Before (V N : Type)
  | nothing
  | bar (spacing : Option N)
  | view (previous : V) (spacing : Option N)

/-- The constraint of the connection before a view. -/
def Before.constraints (vertical : Bool) (view : V) : Before V N → List (NSLayoutConstraint V N)
  | .nothing => []
  | .bar spacing =>
    [leadingSuperviewConstraint ctx.options vertical (some view) (ctx.superview view) spacing]
  | .view previous spacing => [viewSpacingConstraint ctx.options vertical (some view) (some previous) spacing]

/-- The constraints of the connections and of the predicates, in the order in which they are written. -/
def itemConstraints (vertical : Bool) : Before V N → List (Item N) → Option (List (NSLayoutConstraint V N))
  | _, [] => some []
  | before, item :: items => do
    let view ← ctx.views item.view.name
    let predicates ← predicateConstraints numbers ctx vertical view item.view.predicates
    let spacing ← item.connection.spacing ctx.metrics
    let rest ← itemConstraints vertical (.view view spacing) items
    return before.constraints ctx vertical view ++ predicates ++
      (if item.bar then
        [trailingToSuperviewConstraint ctx.options vertical (some view) (ctx.superview view) spacing]
      else []) ++ rest

/-- The constraints by which the options align two views; the options must fit the orientation. -/
def alignment (vertical : Bool) (previous view : V) : Option (List (NSLayoutConstraint V N)) :=
  if hasOption ctx.options alignmentMask then
    if isVerticalEdgeFormatLayoutOption ctx.options = vertical ∨ alignedAttributes ctx.options = [] then
      none
    else
      some (formatConstraints (alignedAttributes ctx.options) (some previous) (some view))
  else
    some []

def Before.alignment (vertical : Bool) (view : V) : Before V N → Option (List (NSLayoutConstraint V N))
  | .view previous _ => VisualFormat.alignment ctx vertical previous view
  | _ => some []

/-- The constraints by which the options align each view with the one before it. -/
def itemAlignments (vertical : Bool) : Before V N → List (Item N) → Option (List (NSLayoutConstraint V N))
  | _, [] => some []
  | before, item :: items => do
    let view ← ctx.views item.view.name
    let aligned ← before.alignment ctx vertical view
    let rest ← itemAlignments vertical (.view view none) items
    return aligned ++ rest

def Orientation.vertical : Orientation → Bool
  | .unmarked => false
  | .marked vertical _ => vertical

def leadingBefore (metrics : List Char → Option N) : Option (Connection N) → Option (Before V N)
  | none => some .nothing
  | some connection => (connection.spacing metrics).map .bar

/-- One for each connection and each predicate, as they are written, and then those of the options; none if a name
stands for nothing or the options do not fit. -/
def Format.constraints (f : Format N) : Option (List (NSLayoutConstraint V N)) := do
  let before ← leadingBefore ctx.metrics f.leading
  let written ← itemConstraints numbers ctx f.orientation.vertical before f.items
  let aligned ← itemAlignments ctx f.orientation.vertical before f.items
  return written ++ aligned

end Meaning

end GnustepGui.VisualFormat
