import Mathlib.Data.Nat.Cast.Defs
import GnustepGui.Library.Scanner
import GnustepGui.Library.StateExcept

/-!
# The visual format parser

`GSAutoLayoutVFLParser` reads a visual format with a scanner and builds layout constraints as it goes.
A format is a list of characters; a parser keeps what is left of it. How a number is written is up to
the scanner (`NumberScanner`); the constants of constraints are of any type `N`, views of any type `V`.
-/

namespace GnustepGui.VisualFormat

/-! ## Layout constraints -/

inductive NSLayoutAttribute
  | left | right | top | bottom | leading | trailing | width | height | centerX | centerY
  | baseline | firstBaseline | notAnAttribute
  deriving DecidableEq, Repr

def NSLayoutAttribute.value : NSLayoutAttribute → Nat
  | .left => 1
  | .right => 2
  | .top => 3
  | .bottom => 4
  | .leading => 5
  | .trailing => 6
  | .width => 7
  | .height => 8
  | .centerX => 9
  | .centerY => 10
  | .baseline => 11
  | .firstBaseline => 12
  | .notAnAttribute => 0

inductive NSLayoutRelation
  | lessThanOrEqual | equal | greaterThanOrEqual
  deriving DecidableEq, Repr

structure NSLayoutConstraint (V N : Type) where
  firstItem : Option V
  firstAttribute : NSLayoutAttribute
  relation : NSLayoutRelation
  secondItem : Option V
  secondAttribute : NSLayoutAttribute
  multiplier : N
  constant : N
  priority : N
  deriving DecidableEq, Repr

variable {V N : Type} [NatCast N] [Neg N]

def NSLayoutPriorityRequired : N := (1000 : Nat)

def constraintWithItem (view1 : Option V) (attr1 : NSLayoutAttribute) (relation : NSLayoutRelation)
    (view2 : Option V) (attr2 : NSLayoutAttribute) (c : N) : NSLayoutConstraint V N where
  firstItem := view1
  firstAttribute := attr1
  relation := relation
  secondItem := view2
  secondAttribute := attr2
  multiplier := (1 : Nat)
  constant := c
  priority := NSLayoutPriorityRequired

/-! ## Format options -/

def alignmentMask : Nat := 0xFFFF

def directionMask : Nat := 0x3 <<< 16

def directionLeftToRight : Nat := 1 <<< 16

def directionRightToLeft : Nat := 2 <<< 16

def alignAll (attr : NSLayoutAttribute) : Nat := 1 <<< attr.value

def hasOption (options option : Nat) : Bool := options &&& option != 0

def isVerticalEdgeFormatLayoutOption (options : Nat) : Bool :=
  [NSLayoutAttribute.top, .baseline, .firstBaseline, .bottom, .centerY].any
    fun attr => hasOption options (alignAll attr)

/-- The attributes that the options align. -/
def alignedAttributes (options : Nat) : List NSLayoutAttribute :=
  [NSLayoutAttribute.left, .right, .top, .bottom, .leading, .trailing, .centerX, .centerY, .baseline,
    .firstBaseline].filter fun attr => hasOption options (alignAll attr)

/-! ## Scanning -/

/-- The characters a scanner skips. -/
def whitespaceAndNewline (c : Char) : Bool :=
  (9 ≤ c.toNat && c.toNat ≤ 13) || (0x2000 ≤ c.toNat && c.toNat ≤ 0x200B) ||
    [0x20, 0x85, 0xA0, 0x1680, 0x2028, 0x2029, 0x202F, 0x205F, 0x3000].contains c.toNat

/-- A scanner matches text without regard to case; the two cases of a letter differ by 32. -/
def sameLetter (c d : Char) : Bool :=
  c == d || (c.isAlpha && d.isAlpha && c.toNat % 32 == d.toNat % 32)

def digitSignOrPoint (c : Char) : Bool := c.isDigit || c == '+' || c == '-' || c == '.'

/-- A reader of numbers takes something, and what it takes begins as a number does. -/
def ReadsNumbers (scan : List Char → Option (N × List Char)) : Prop :=
  ∀ s v rest, scan s = some (v, rest) →
    ∃ c t, Scanner.skip whitespaceAndNewline s = c :: t ∧ digitSignOrPoint c = true ∧ rest <:+ t

/-- How the scanner of Foundation reads numbers. -/
structure NumberScanner (N : Type) where
  scanFloat : List Char → Option (N × List Char)
  scanDouble : List Char → Option (N × List Char)
  numberWithFloat : N → N
  readsFloats : ReadsNumbers scanFloat
  readsDoubles : ReadsNumbers scanDouble

/-- The line ends before which `$` matches at the end of a text. -/
def lineTerminators : List Char :=
  ['\n', '\r', Char.ofNat 0x0B, Char.ofNat 0x0C, Char.ofNat 0x85, Char.ofNat 0x2028, Char.ofNat 0x2029]

def isIdentifierStart (c : Char) : Bool := c.isAlpha || c == '_'

def isIdentifierPart (c : Char) : Bool := c.isAlpha || c.isDigit || c == '_'

/-- `^[a-zA-Z_][a-zA-Z0-9_]*$`, where `$` also matches before a line end that ends the text. -/
def isValidIdentifier : List Char → Bool
  | [] => false
  | c :: cs =>
    isIdentifierStart c &&
      (let rest := cs.dropWhile isIdentifierPart
       rest.isEmpty || rest == ['\r', '\n'] || lineTerminators.any fun t => rest == [t])

/-! ## The parser -/

inductive ExceptionName
  | invalidArgument | internalInconsistency
  deriving DecidableEq, Repr

/-- Why a parse did not return: an exception, or a loop that ran out of its fuel. -/
inductive Failure
  | raised (name : ExceptionName) (reason : String)
  | outOfFuel
  deriving DecidableEq, Repr

structure GSObjectOfPredicate (V N : Type) where
  priority : Option N
  view : Option V
  relation : NSLayoutRelation
  constant : N

structure GSAutoLayoutVFLParser (V N : Type) where
  views : List Char → Option V
  options : Nat
  metrics : List Char → Option N
  scanner : List Char
  constraints : List (NSLayoutConstraint V N)
  layoutFormatConstraints : List (NSLayoutConstraint V N)
  view : Option V
  createLeadingConstraintToSuperview : Bool
  isVerticalOrientation : Bool

def initWithFormat (format : List Char) (options : Nat) (metrics : List Char → Option N)
    (views : List Char → Option V) : GSAutoLayoutVFLParser V N where
  views := views
  options := options
  metrics := metrics
  scanner := format
  constraints := []
  layoutFormatConstraints := []
  view := none
  createLeadingConstraintToSuperview := false
  isVerticalOrientation := false

abbrev ParserM (V N : Type) := EStateM Failure (GSAutoLayoutVFLParser V N)

def failParseWithMessage {β : Type} (parseErrorMessage : String) : ParserM V N β :=
  throw (.raised .invalidArgument ("Unable to parse constraint format: " ++ parseErrorMessage))

/-- A reading moves the scanner if it succeeds. -/
def scan {β : Type} (read : List Char → Option (β × List Char)) : ParserM V N (Option β) := fun p =>
  match read p.scanner with
  | some (v, rest) => .ok (some v) { p with scanner := rest }
  | none => .ok none p

def scanString (t : String) : ParserM V N Bool := do
  let found ← scan fun s =>
    (Scanner.scanString whitespaceAndNewline sameLetter t.toList s).map fun rest => ((), rest)
  return found.isSome

def scanCharactersFromSet (set : String) : ParserM V N (Option (List Char)) :=
  scan (Scanner.scanCharacters whitespaceAndNewline set.toList.contains)

def scanUpToCharactersFromSet (set : String) : ParserM V N (Option (List Char)) :=
  scan (Scanner.scanUpTo whitespaceAndNewline set.toList.contains)

def resolveMetricWithIdentifier (identifier : List Char) : ParserM V N N := do
  match (← get).metrics identifier with
  | some metric => return metric
  | none => failParseWithMessage "Found metric not inside metric dictionary"

def resolveViewWithIdentifier (identifier : List Char) : ParserM V N V := do
  match (← get).views identifier with
  | some view => return view
  | none => failParseWithMessage "Found view not inside view dictionary"

def parseOrientation : ParserM V N Unit := do
  if ← scanString "V:" then
    modify fun p => { p with isVerticalOrientation := true }
  else
    let _ ← scanString "H:"

section Numbers

variable (numbers : NumberScanner N)

def parseSimplePredicate : ParserM V N (Option N) := do
  match ← scan numbers.scanFloat with
  | some constant => return some constant
  | none =>
    match ← scanUpToCharactersFromSet "-[|" with
    | none => return none
    | some metricName =>
      if isValidIdentifier metricName then
        return some (← resolveMetricWithIdentifier metricName)
      else
        failParseWithMessage ("Invalid metric identifier. Metric identifiers must be a " ++
          "valid C identifier and may only contain letters, numbers and underscores")

def parseConnection : ParserM V N (Option N) := do
  if ← scanString "-" then
    let simplePredicateValue ← parseSimplePredicate numbers
    let endConnectionFound ← scanString "-"
    if simplePredicateValue.isSome && !endConnectionFound then
      failParseWithMessage "A connection must end with a '-'"
    else if simplePredicateValue.isNone && endConnectionFound then
      failParseWithMessage "Found invalid connection"
    else
      return simplePredicateValue
  else
    return some (0 : Nat)

def parseLeadingSuperViewConnection : ParserM V N (Option N) := do
  if ← scanString "|" then
    modify fun p => { p with createLeadingConstraintToSuperview := true }
    parseConnection numbers
  else
    return none

def parseRelation : ParserM V N NSLayoutRelation := do
  if ← scanString "==" then
    return .equal
  else if ← scanString ">=" then
    return .greaterThanOrEqual
  else if ← scanString "<=" then
    return .lessThanOrEqual
  else
    return .equal

def parseIdentifier : ParserM V N (List Char) := do
  match ← scanUpToCharactersFromSet ")," with
  | some identifierName => return identifierName
  | none => failParseWithMessage "Failed to find constant or metric"

def parseConstant : ParserM V N N := do
  match ← scan numbers.scanDouble with
  | some constant => return numbers.numberWithFloat constant
  | none =>
    let metricName ← parseIdentifier
    if isValidIdentifier metricName then
      resolveMetricWithIdentifier metricName
    else
      failParseWithMessage ("Invalid metric identifier. Metric identifiers must be a " ++
        "valid C identifier and may only contain letters, numbers and underscores")

def parsePriority : ParserM V N (Option N) := do
  match ← scanCharactersFromSet "@" with
  | none => return none
  | some _ => return some (← parseConstant numbers)

/-- What a predicate compares the view with: a constant, or the same attribute of a view. -/
def parsePredicatedValue : ParserM V N (N × Option V) := do
  match ← scan numbers.scanDouble with
  | some constant => return (constant, none)
  | none =>
    let identifierName ← parseIdentifier
    if isValidIdentifier identifierName then
      let p ← get
      match p.metrics identifierName, p.views identifierName with
      | some metric, _ => return (metric, none)
      | none, some view => return ((0 : Nat), some view)
      | none, none =>
        failParseWithMessage ("Failed to find constant or metric for identifier '" ++
          String.ofList identifierName ++ "'")
    else
      failParseWithMessage ("Invalid metric or view identifier. Metric/View " ++
        "identifiers must be a valid C identifier and may only " ++
        "contain letters, numbers and underscores")

def parseObjectOfPredicate : ParserM V N (GSObjectOfPredicate V N) := do
  let relation ← parseRelation
  let (parsedConstant, predicatedView) ← parsePredicatedValue numbers
  let priorityValue ← parsePriority numbers
  return ⟨priorityValue, predicatedView, relation, parsedConstant⟩

def createConstraintFromParsedPredicate (vertical : Bool) (view : Option V)
    (predicate : GSObjectOfPredicate V N) : NSLayoutConstraint V N :=
  let attr : NSLayoutAttribute := if vertical then .height else .width
  let constraint :=
    match predicate.view with
    | some other =>
      constraintWithItem view attr predicate.relation (some other) attr predicate.constant
    | none =>
      constraintWithItem view attr predicate.relation none .notAnAttribute predicate.constant
  match predicate.priority with
  | some priority => { constraint with priority := priority }
  | none => constraint

def parsePredicates : Nat → List (NSLayoutConstraint V N) → ParserM V N (List (NSLayoutConstraint V N))
  | 0, _ => throw .outOfFuel
  | fuel + 1, viewPredicateConstraints => do
    let predicate ← parseObjectOfPredicate numbers
    let p ← get
    let constraint := createConstraintFromParsedPredicate p.isVerticalOrientation p.view predicate
    if ← scanString "," then
      parsePredicates fuel (viewPredicateConstraints ++ [constraint])
    else
      return viewPredicateConstraints ++ [constraint]

def parsePredicateList : ParserM V N (List (NSLayoutConstraint V N)) := do
  if ← scanString "(" then
    let viewPredicateConstraints ← parsePredicates numbers ((← get).scanner.length + 1) []
    if ← scanString ")" then
      return viewPredicateConstraints
    else
      failParseWithMessage "A predicate on a view must end with ')'"
  else
    return []

def parseViewOpen : ParserM V N Unit := do
  match ← scanCharactersFromSet "[" with
  | some _ => return ()
  | none => throw (.raised .internalInconsistency "A view must start with a '['")

def parseViewClose : ParserM V N Unit := do
  match ← scanCharactersFromSet "]" with
  | some _ => return ()
  | none => throw (.raised .internalInconsistency "A view must end with a ']'")

def parseViewName : ParserM V N V := do
  match ← scanUpToCharactersFromSet "](" with
  | none => failParseWithMessage "Failed to parse view name"
  | some viewName =>
    if isValidIdentifier viewName then
      resolveViewWithIdentifier viewName
    else
      failParseWithMessage ("Invalid view name. A view name must be a valid C identifier " ++
        "and may only contain letters, numbers and underscores")

def parseView : ParserM V N (List (NSLayoutConstraint V N)) := do
  parseViewOpen
  let view ← parseViewName
  modify fun p => { p with view := some view }
  let viewConstraints ← parsePredicateList numbers
  parseViewClose
  return viewConstraints

end Numbers

/-! ## The constraints between views -/

def formatConstraints (attributes : List NSLayoutAttribute) (lastView view : Option V) :
    List (NSLayoutConstraint V N) :=
  attributes.map fun attr => constraintWithItem lastView attr .equal view attr (0 : Nat)

def assertHasValidFormatLayoutOptions : ParserM V N Unit := do
  let p ← get
  if p.isVerticalOrientation && isVerticalEdgeFormatLayoutOption p.options then
    failParseWithMessage ("A vertical alignment format option cannot " ++
      "be used with a vertical layout")
  else if !p.isVerticalOrientation && !isVerticalEdgeFormatLayoutOption p.options then
    failParseWithMessage ("A horizontal alignment format option " ++
      "cannot be used with a horizontal layout")
  else
    return ()

def layoutAttributesForLayoutFormatOptions (options : Nat) : ParserM V N (List NSLayoutAttribute) :=
  let attributes := alignedAttributes options
  if attributes.isEmpty then
    failParseWithMessage "Unrecognized layout formatting option"
  else
    return attributes

def addFormattingConstraints (lastView : Option V) : ParserM V N Unit := do
  if hasOption (← get).options alignmentMask then
    assertHasValidFormatLayoutOptions
    let attributes ← layoutAttributesForLayoutFormatOptions (← get).options
    modify fun p => { p with
      layoutFormatConstraints := p.layoutFormatConstraints ++ formatConstraints attributes lastView p.view }
  else
    return ()

/-- The constant of a connection, which points down in a vertical layout. -/
def directed (vertical : Bool) (spacing : N) : N := if vertical then -spacing else spacing

def viewSpacingConstraint (options : Nat) (vertical : Bool) (view previousView : Option V)
    (spacing : Option N) : NSLayoutConstraint V N :=
  let viewSpacingConstant := spacing.getD (8 : Nat)
  let directionOptions := options &&& directionMask
  let constant := directed vertical viewSpacingConstant
  if vertical then
    constraintWithItem view .top .equal previousView .bottom constant
  else if hasOption directionOptions directionRightToLeft then
    constraintWithItem previousView .left .equal view .right constant
  else if hasOption directionOptions directionLeftToRight then
    constraintWithItem view .left .equal previousView .right constant
  else
    constraintWithItem view .leading .equal previousView .trailing constant

def leadingSuperviewConstraint (options : Nat) (vertical : Bool) (view superview : Option V)
    (spacing : Option N) : NSLayoutConstraint V N :=
  let directionOptions := options &&& directionMask
  let constant := directed vertical (spacing.getD (20 : Nat))
  if vertical then
    constraintWithItem view .top .equal superview .top constant
  else if hasOption directionOptions directionRightToLeft then
    constraintWithItem superview .right .equal view .right constant
  else if hasOption directionOptions directionLeftToRight then
    constraintWithItem view .left .equal superview .left constant
  else
    constraintWithItem view .leading .equal superview .leading constant

def trailingToSuperviewConstraint (options : Nat) (vertical : Bool) (view superview : Option V)
    (spacing : Option N) : NSLayoutConstraint V N :=
  let directionOptions := options &&& directionMask
  let constant := directed vertical (spacing.getD (20 : Nat))
  if vertical then
    constraintWithItem superview .bottom .equal view .bottom constant
  else if hasOption directionOptions directionRightToLeft then
    constraintWithItem view .left .equal superview .left constant
  else if hasOption directionOptions directionLeftToRight then
    constraintWithItem superview .right .equal view .right constant
  else
    constraintWithItem superview .trailing .equal view .trailing constant

section Views

variable (numbers : NumberScanner N) (superview : V → Option V)

def addConstraint (constraint : GSAutoLayoutVFLParser V N → NSLayoutConstraint V N) : ParserM V N Unit :=
  modify fun p => { p with constraints := p.constraints ++ [constraint p] }

def addLeadingSuperviewConstraint (spacing : Option N) : ParserM V N Unit :=
  addConstraint fun p =>
    leadingSuperviewConstraint p.options p.isVerticalOrientation p.view (p.view.bind superview) spacing

def addTrailingToSuperviewConstraint (spacing : Option N) : ParserM V N Unit :=
  addConstraint fun p =>
    trailingToSuperviewConstraint p.options p.isVerticalOrientation p.view (p.view.bind superview) spacing

def addViewSpacingConstraint (spacing : Option N) (previousView : Option V) : ParserM V N Unit :=
  addConstraint fun p =>
    viewSpacingConstraint p.options p.isVerticalOrientation p.view previousView spacing

/-- The part of the loop that connects the first view to the bar before it. -/
def connectLeading (spacingConstant : Option N) : ParserM V N Unit := do
  if (← get).createLeadingConstraintToSuperview then
    addLeadingSuperviewConstraint superview spacingConstant
    modify fun p => { p with createLeadingConstraintToSuperview := false }
  else
    return ()

/-- The part of the loop that connects a view to the one before it. -/
def connectPrevious (spacingConstant : Option N) (previousView : Option V) : ParserM V N Unit :=
  match previousView with
  | none => return ()
  | some _ => do
    addViewSpacingConstraint spacingConstant previousView
    addFormattingConstraints previousView

/-- The part of the loop that connects a view to a bar after it. -/
def connectTrailing (spacingConstant : Option N) : ParserM V N Unit := do
  if ← scanString "|" then
    addTrailingToSuperviewConstraint superview spacingConstant
  else
    return ()

def parseViews : Nat → Option N → Option V → ParserM V N Unit
  | 0, _, _ => throw .outOfFuel
  | fuel + 1, spacingConstant, previousView => do
    if Scanner.isAtEnd whitespaceAndNewline (← get).scanner then
      return ()
    else
      let viewConstraints ← parseView numbers
      connectLeading superview spacingConstant
      connectPrevious spacingConstant previousView
      modify fun p => { p with constraints := p.constraints ++ viewConstraints }
      let spacingConstant ← parseConnection numbers
      connectTrailing superview spacingConstant
      parseViews fuel spacingConstant (← get).view

def parse : ParserM V N (List (NSLayoutConstraint V N)) := do
  if (← get).scanner.isEmpty then
    failParseWithMessage "Cannot parse an empty string"
  else
    parseOrientation
    let spacingConstant ← parseLeadingSuperViewConnection numbers
    parseViews numbers superview ((← get).scanner.length + 1) spacingConstant none
    modify fun p => { p with constraints := p.constraints ++ p.layoutFormatConstraints }
    return (← get).constraints

end Views

end GnustepGui.VisualFormat
