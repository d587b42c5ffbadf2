import GnustepGui.Cassowary.TableauIndex

/-!
# `GSCassowarySolver`

The methods of the solver in `SolverM`, a state with exceptions: a method that raises keeps what it
did before. Every loop that need not end takes its fuel from the machine and raises `outOfFuel` when
it is used up, so a call that returns `ok` is one that ends.

A constraint is an object; `address` is its identity, and a map keyed by constraints compares whole
constraints. The constraints the solver makes for itself have addresses of their own.
-/

namespace GnustepGui.Cassowary

inductive GSCSConstraintType
  | edit
  | stay
  | linear
  | linearInequity
deriving DecidableEq, Repr

structure GSCSStrength where
  name : String
  strength : ℚ
deriving DecidableEq, Repr

namespace GSCSStrength

def strengthRequired : GSCSStrength := ⟨"<Required>", 1000⟩

def strengthStrong : GSCSStrength := ⟨"strong", 750⟩

def strengthMedium : GSCSStrength := ⟨"medium", 500⟩

def strengthWeak : GSCSStrength := ⟨"weak", 250⟩

def isRequired (tol : ℚ) (s : GSCSStrength) : Bool :=
  isApproxiatelyEqual tol s.strength strengthRequired.strength

end GSCSStrength

/-- Constraints are given by the caller or made by `addEditVariable:strength:`. -/
inductive ConstraintAddress
  | given (number : Nat)
  | made (number : Nat)
deriving DecidableEq, Repr

/-- A constraint says that its expression is zero, or not negative; it is over external variables. -/
structure GSCSConstraint where
  address : ConstraintAddress
  type : GSCSConstraintType
  strength : GSCSStrength
  expression : GSCSLinearExpression
  editVariable : Option GSCSVariable
  external : ∀ v ∈ expression.termVariables, v.isExternal = true
deriving DecidableEq

namespace GSCSConstraint

def isRequired (tol : ℚ) (c : GSCSConstraint) : Bool := c.strength.isRequired tol

def isEditConstraint (c : GSCSConstraint) : Bool := c.type = .edit

def isInequality (c : GSCSConstraint) : Bool := c.type = .linearInequity

/-- `initEditConstraintWithVariable:strength:` for the external variable of the number, whose value
is given. -/
def initEditConstraint (tol : ℚ) (address : ConstraintAddress) (number : Nat) (value : ℚ)
    (strength : GSCSStrength) : GSCSConstraint where
  address := address
  type := .edit
  strength := strength
  expression := (GSCSLinearExpression.initWithConstant 0 value).addVariable tol (.external number) (-1)
  editVariable := some (.external number)
  external := by
    intro v hv
    rw [GSCSLinearExpression.mem_termVariables, GSCSLinearExpression.mem_addVariable] at hv
    rcases hv with hv | ⟨rfl, -⟩
    · simp [GSCSLinearExpression.initWithConstant] at hv
    · rfl

end GSCSConstraint

structure GSCSEditInfo where
  constraint : GSCSConstraint
  editVariable : GSCSVariable
  plusVariable : GSCSVariable
  minusVariable : Option GSCSVariable
  previousConstant : ℚ

structure GSCassowarySolver where
  tableau : GSCSTableau
  editInfos : List GSCSEditInfo
  markerVariables : AList fun _ : GSCSConstraint => GSCSVariable
  errorVariables : AList fun _ : GSCSConstraint => List GSCSVariable
  externalVariables : List GSCSVariable
  /-- The values kept in the variable objects. -/
  values : GSCSVariable → ℚ
  artificialCounter : Nat
  slackCounter : Nat
  dummyCounter : Nat
  /-- The addresses of the next expression and of the next constraint the solver makes. -/
  nextExpression : Nat
  nextConstraint : Nat

def GSCassowarySolver.init (values : GSCSVariable → ℚ) : GSCassowarySolver :=
  ⟨GSCSTableau.init, [], ∅, ∅, [], values, 0, 0, 0, 1, 0⟩

abbrev SolverM := EStateM SolverException GSCassowarySolver

namespace GSCassowarySolver

variable (m : Machine)

/-! ## Tableau operations on the solver's tableau -/

def modifyTableau (g : GSCSTableau → GSCSTableau) : SolverM Unit :=
  modify fun s => { s with tableau := g s.tableau }

/-- An operation of the tableau that raises leaves the tableau unchanged. -/
def tableauM (g : GSCSTableau → Except SolverException GSCSTableau) : SolverM Unit := do
  match g (← get).tableau with
  | .ok T => modify fun s => { s with tableau := T }
  | .error e => throw e

def pivot (entry exit : GSCSVariable) : SolverM Unit :=
  tableauM fun T => T.pivotWithEntryVariable m entry exit

def removeRow (v : GSCSVariable) : SolverM Unit := tableauM fun T => T.removeRowForVariable v

def newExpressionAddress : SolverM Nat := do
  let s ← get
  set { s with nextExpression := s.nextExpression + 1 }
  return s.nextExpression

/-- `_slackCounter++` and a variable named by it. -/
def newSlack : SolverM GSCSVariable := do
  let s ← get
  set { s with slackCounter := s.slackCounter + 1 }
  return .slack (s.slackCounter + 1)

def newDummy : SolverM GSCSVariable := do
  let s ← get
  set { s with dummyCounter := s.dummyCounter + 1 }
  return .dummy (s.dummyCounter + 1)

/-! ## The expression of a new constraint -/

/-- `addVariable:coefficient:toExpression:` -/
def accumulate (expression : GSCSLinearExpression) (v : GSCSVariable) (coefficient : ℚ) :
    GSCSLinearExpression :=
  let existing := if expression.isTermForVariable v then expression.coefficientForTerm v else 0
  let updated := existing + coefficient
  if isApproxiatelyZero m.tol updated then expression.removeVariable v
  else expression.addVariable m.tol v updated

/-- `addExpression:multiplier:toExpression:` -/
def addExpression (source : GSCSLinearExpression) (multiplier : ℚ)
    (destination : GSCSLinearExpression) : GSCSLinearExpression :=
  source.termVariables.foldl
    (fun e v => accumulate m e v (multiplier * source.coefficientForTerm v))
    (destination.setConstant (destination.constant + multiplier * source.constant))

/-- A term of the constraint: a basic variable is replaced by its row. -/
def expandTerm (T : GSCSTableau) (constraintExpression expression : GSCSLinearExpression)
    (v : GSCSVariable) : GSCSLinearExpression :=
  match T.rowExpressionForVariable v with
  | none => accumulate m expression v (constraintExpression.coefficientForTerm v)
  | some row => addExpression m row (constraintExpression.coefficientForTerm v) expression

def expandTerms (T : GSCSTableau) (constraintExpression : GSCSLinearExpression) (address : Nat) :
    GSCSLinearExpression :=
  constraintExpression.termVariables.foldl (expandTerm m T constraintExpression)
    (GSCSLinearExpression.initWithConstant address constraintExpression.constant)

/-- The external variables met in a constraint that are not basic. -/
def recordExternal (T : GSCSTableau) (externalVariables : List GSCSVariable) (v : GSCSVariable) :
    List GSCSVariable :=
  if T.isBasicVariable v then externalVariables
  else if v.isExternal then externalVariables.insert v else externalVariables

def addErrorVariable (v : GSCSVariable) (strength : GSCSStrength) : SolverM Unit :=
  modifyTableau fun T => T.addVariableToRow m v strength.strength .objective

structure NewConstraint where
  expression : GSCSLinearExpression
  marker : GSCSVariable
  errors : Option (List GSCSVariable)

/-- Introduce slack, dummy and error variables by the relation and the strength. -/
def augment (constraint : GSCSConstraint) (expression : GSCSLinearExpression) :
    SolverM NewConstraint := do
  if constraint.isInequality then
    let slack ← newSlack
    let expression := accumulate m expression slack (-1)
    if constraint.isRequired m.tol then return ⟨expression, slack, none⟩
    else
      let eMinus ← newSlack
      addErrorVariable m eMinus constraint.strength
      return ⟨accumulate m expression eMinus 1, slack, some [eMinus]⟩
  else if constraint.isRequired m.tol then
    let dummy ← newDummy
    return ⟨accumulate m expression dummy 1, dummy, none⟩
  else
    let ePlus ← newSlack
    let eMinus ← newSlack
    addErrorVariable m ePlus constraint.strength
    addErrorVariable m eMinus constraint.strength
    return ⟨accumulate m (accumulate m expression ePlus (-1)) eMinus 1, ePlus, some [ePlus, eMinus]⟩

def expressionForNewConstraint (constraint : GSCSConstraint) : SolverM NewConstraint := do
  let address ← newExpressionAddress
  let T := (← get).tableau
  let expression := expandTerms m T constraint.expression address
  modify fun s => { s with externalVariables :=
    constraint.expression.termVariables.foldl (recordExternal T) s.externalVariables }
  let r ← augment m constraint expression
  return if r.expression.constant < 0 then { r with expression := r.expression.normalize } else r

/-! ## Adding the row -/

/-- The first loop of `chooseSubject:`. -/
def chooseSubjectLoop (T : GSCSTableau) (expression : GSCSLinearExpression) :
    List GSCSVariable → Option GSCSVariable → Bool → Bool → Option GSCSVariable
  | [], subject, _, _ => subject
  | v :: vs, subject, true, foundNewRestricted =>
    if !v.isRestricted && !T.hasColumnForVariable v then some v
    else chooseSubjectLoop T expression vs subject true foundNewRestricted
  | v :: vs, subject, false, foundNewRestricted =>
    if v.isRestricted then
      if !foundNewRestricted && !v.isDummy && expression.coefficientForTerm v < 0 &&
          (T.column v = [] || T.column v = [.objective]) then
        chooseSubjectLoop T expression vs (some v) false true
      else chooseSubjectLoop T expression vs subject false foundNewRestricted
    else chooseSubjectLoop T expression vs (some v) true foundNewRestricted

/-- The second loop: the last dummy without a column; `none` when there is a term that is no dummy. -/
def chooseDummyLoop (T : GSCSTableau) :
    List GSCSVariable → Option GSCSVariable → Option (Option GSCSVariable)
  | [], subject => some subject
  | v :: vs, subject =>
    if !v.isDummy then none
    else if !T.hasColumnForVariable v then chooseDummyLoop T vs (some v)
    else chooseDummyLoop T vs subject

/-- The subject of a new row, and the expression, which may have been normalized. -/
def chooseSubject (T : GSCSTableau) (expression : GSCSLinearExpression) :
    Option (GSCSVariable × GSCSLinearExpression) :=
  match chooseSubjectLoop T expression expression.termVariables none false false with
  | some subject => some (subject, expression)
  | none =>
    match chooseDummyLoop T expression.termVariables none with
    | none => none
    | some subject =>
      if !isApproxiatelyZero m.tol expression.constant then none
      else subject.map fun v =>
        (v, if 0 < expression.coefficientForTerm v then expression.normalize else expression)

def tryAddingDirectly (expression : GSCSLinearExpression) : SolverM Bool := do
  match chooseSubject m (← get).tableau expression with
  | none => return false
  | some (subject, expression) =>
    let expression := (expression.newSubject subject).1
    modifyTableau fun T =>
      (if T.hasColumnForVariable subject then T.substituteOutVariable m subject expression
        else T).addRowForVariable subject expression
    return true

/-- One term in the search for the entry variable of `optimize:`. -/
def entryStep (objectiveRow : GSCSLinearExpression) (best : Option GSCSVariable × ℚ)
    (v : GSCSVariable) : Option GSCSVariable × ℚ :=
  if v.isPivotable ∧ objectiveRow.coefficientForTerm v < best.2 then
    (some v, objectiveRow.coefficientForTerm v)
  else best

def entryVariable (objectiveRow : GSCSLinearExpression) : Option GSCSVariable :=
  (objectiveRow.termVariables.foldl (entryStep objectiveRow) (none, -m.tol)).1

def optimizeLoop (z : GSCSVariable) : Nat → SolverM Unit
  | 0 => throw .outOfFuel
  | fuel + 1 => do
    let T := (← get).tableau
    match (T.rowExpressionForVariable z).bind (entryVariable m) with
    | none => return ()
    | some entry =>
      match T.findPivotableExitVariable m entry with
      | none => throw (.internalInconsistency "Objective function is unbounded")
      | some exit =>
        pivot m entry exit
        optimizeLoop z fuel

def optimize (z : GSCSVariable) : SolverM Unit := optimizeLoop m z m.fuel

/-- After the artificial objective was minimised to 0: take the artificial variable out. -/
def removeArtificial (artificial artificialObjective : GSCSVariable) : SolverM Unit := do
  match (← get).tableau.rowExpressionForVariable artificial with
  | some artificialRow =>
    if artificialRow.isConstant then
      removeRow artificial
      removeRow artificialObjective
      return ()
    else
      match artificialRow.anyPivotableVariable with
      | some entry => pivot m entry artificial
      -- a nil key, which the map of rows refuses
      | none => throw (.invalidArgument "nil key")
  | none => pure ()
  removeRow artificialObjective
  modifyTableau fun T => T.removeColumn m artificial

def addWithArtificialVariable (expression : GSCSLinearExpression) : SolverM Unit := do
  modify fun s => { s with artificialCounter := s.artificialCounter + 1 }
  let number := (← get).artificialCounter
  let artificial := GSCSVariable.artificial number
  let artificialObjective := GSCSVariable.artificialObjective number
  let artificialObjectiveRow := expression.copy m.tol (← newExpressionAddress)
  modifyTableau fun T => T.addRowForVariable artificialObjective artificialObjectiveRow
  modifyTableau fun T => T.addRowForVariable artificial expression
  optimize m artificialObjective
  if !isApproxiatelyZero m.tol ((← get).tableau.rowConstant artificialObjective) then
    removeRow artificialObjective
    modifyTableau fun T => T.removeColumn m artificial
    throw (.invalidArgument "Cannot satisfy the required constraints")
  removeArtificial m artificial artificialObjective

/-! ## Edit information -/

def editInfoForConstraint (s : GSCassowarySolver) (constraint : GSCSConstraint) : Option GSCSEditInfo :=
  s.editInfos.find? fun info => info.constraint = constraint

def editInfosForVariable (s : GSCassowarySolver) (v : GSCSVariable) : List GSCSEditInfo :=
  s.editInfos.filter fun info => info.editVariable = v

def editInfoForVariable (s : GSCassowarySolver) (v : GSCSVariable) : Option GSCSEditInfo :=
  (s.editInfosForVariable v).getLast?

def registerEditInfoForConstraint (constraint : GSCSConstraint) (marker : GSCSVariable)
    (errors : Option (List GSCSVariable)) : SolverM Unit := do
  let s ← get
  match constraint.editVariable with
  | none => return ()
  | some editVariable =>
    if (s.editInfoForConstraint constraint).isSome then return ()
    let minusVariable := ((errors.getD []).filter (· ≠ marker)).getLast?
    let editInfo : GSCSEditInfo :=
      ⟨constraint, editVariable, marker, minusVariable, s.values editVariable⟩
    set { s with editInfos := s.editInfos ++ [editInfo] }

/-! ## Adding and removing constraints -/

def setExternalVariables : SolverM Unit :=
  modify fun s => { s with values := fun v =>
    if v ∈ s.externalVariables then s.tableau.rowConstant v else s.values v }

def resolve : SolverM Unit := do
  optimize m .objective
  setExternalVariables

def addConstraintToTableau (constraint : GSCSConstraint) : SolverM Unit := do
  let r ← expressionForNewConstraint m constraint
  if !(← tryAddingDirectly m r.expression) then addWithArtificialVariable m r.expression
  modify fun s => { s with
    markerVariables := s.markerVariables.insert constraint r.marker
    errorVariables := r.errors.elim s.errorVariables fun errors =>
      s.errorVariables.insert constraint errors }
  if constraint.isEditConstraint then registerEditInfoForConstraint constraint r.marker r.errors

def addConstraint (constraint : GSCSConstraint) : SolverM Unit := do
  addConstraintToTableau m constraint
  resolve m

def addConstraintsLoop : List GSCSConstraint → SolverM Unit
  | [] => pure ()
  | constraint :: rest => do
    addConstraintToTableau m constraint
    addConstraintsLoop rest

def addConstraints (constraints : List GSCSConstraint) : SolverM Unit := do
  if constraints.length = 0 then return ()
  addConstraintsLoop m constraints
  resolve m

/-- Take an error variable back out of the objective. -/
def removeErrorFromObjective (weight : ℚ) (T : GSCSTableau) (errorVariable : GSCSVariable) :
    GSCSTableau :=
  match T.rowExpressionForVariable errorVariable with
  | none => T.addVariableToRow m errorVariable (-weight) .objective
  | some errorRow => T.addNewExpressionToRow m errorRow (-weight) .objective

/-- The first rule of `exitVariableForMarker:`. -/
def negativeRatioStep (T : GSCSTableau) (marker : GSCSVariable)
    (best : Option (GSCSVariable × ℚ)) (v : GSCSVariable) : Option (GSCSVariable × ℚ) :=
  if v.isRestricted ∧ T.rowCoefficient v marker < 0 then
    let ratio := -T.rowConstant v / T.rowCoefficient v marker
    if best.elim true fun b => ratio < b.2 then some (v, ratio) else best
  else best

/-- The second rule. -/
def ratioStep (T : GSCSTableau) (marker : GSCSVariable)
    (best : Option (GSCSVariable × ℚ)) (v : GSCSVariable) : Option (GSCSVariable × ℚ) :=
  if v.isRestricted then
    let ratio := T.rowConstant v / T.rowCoefficient v marker
    if best.elim true fun b => ratio < b.2 then some (v, ratio) else best
  else best

def exitVariableForMarker (T : GSCSTableau) (marker : GSCSVariable) : Option GSCSVariable :=
  let column := m.enumerate (T.column marker)
  match column.foldl (negativeRatioStep T marker) none with
  | some best => some best.1
  | none =>
    match column.foldl (ratioStep T marker) none with
    | some best => some best.1
    | none => (column.filter (· ≠ .objective)).getLast?

/-- Make the marker basic if a row mentions it. -/
def makeMarkerBasic (marker : GSCSVariable) : SolverM Unit := do
  let T := (← get).tableau
  if T.isBasicVariable marker then return ()
  match exitVariableForMarker m T marker with
  | some exitVariable => pivot m marker exitVariable
  | none => return ()

/-- Make the marker basic, and drop its row and its column. -/
def removeMarker (marker : GSCSVariable) : SolverM Unit := do
  makeMarkerBasic m marker
  if (← get).tableau.isBasicVariable marker then removeRow marker
  modifyTableau fun T => if T.hasColumnForVariable marker then T.removeColumn m marker else T

def removeConstraintFromTableau (constraint : GSCSConstraint) : SolverM Unit := do
  let s ← get
  match s.markerVariables.lookup constraint with
  | none => throw (.invalidArgument "Constraint was not previously added to the solver")
  | some marker =>
    let errors := (s.errorVariables.lookup constraint).getD []
    modifyTableau fun T =>
      errors.foldl (removeErrorFromObjective m constraint.strength.strength) T
    modify fun s => { s with markerVariables := s.markerVariables.erase constraint }
    removeMarker m marker
    modifyTableau fun T => (errors.filter (· ≠ marker)).foldl (fun T v => T.removeColumn m v) T
    modify fun s => { s with errorVariables := s.errorVariables.erase constraint }

def removeConstraint (constraint : GSCSConstraint) : SolverM Unit := do
  removeConstraintFromTableau m constraint
  resolve m

def removeConstraintsLoop : List GSCSConstraint → SolverM Unit
  | [] => pure ()
  | constraint :: rest => do
    removeConstraintFromTableau m constraint
    removeConstraintsLoop rest

def removeConstraints (constraints : List GSCSConstraint) : SolverM Unit := do
  if constraints.length = 0 then return ()
  removeConstraintsLoop m constraints
  resolve m

/-- `solve`: the results of a `GSCSSolution`. -/
def solve : SolverM (List (GSCSVariable × ℚ)) := do
  setExternalVariables
  let s ← get
  return s.externalVariables.map fun v => (v, s.values v)

/-! ## Suggesting values -/

/-- `addEditVariable:strength:` -/
def addEditVariable (number : Nat) (strength : GSCSStrength) : SolverM Unit := do
  let s ← get
  set { s with nextConstraint := s.nextConstraint + 1 }
  addConstraint m (.initEditConstraint m.tol (.made s.nextConstraint) number
    (s.values (.external number)) strength)

/-- A row of the column of the plus variable, in `deltaEditConstant`. -/
def deltaRow (delta : ℚ) (plusVariable : GSCSVariable) (T : GSCSTableau)
    (basicVariable : GSCSVariable) : GSCSTableau :=
  match T.rowExpressionForVariable basicVariable with
  | none => T
  | some row =>
    let row := row.setConstant (row.constant + row.coefficientForTerm plusVariable * delta)
    { T.setRow basicVariable row with
      infeasibleRows := if basicVariable.isRestricted ∧ row.constant < 0
        then T.infeasibleRows ++ [basicVariable] else T.infeasibleRows }

/-- The row of an error variable of the edit, in `deltaEditConstant`. -/
def deltaErrorRow (change : ℚ) (v : GSCSVariable) (row : GSCSLinearExpression) (T : GSCSTableau) :
    GSCSTableau :=
  { T.setRow v (row.setConstant (row.constant + change)) with
    infeasibleRows := if row.constant + change < 0 then T.infeasibleRows ++ [v]
      else T.infeasibleRows }

def deltaEditConstant (delta : ℚ) (plusVariable : GSCSVariable)
    (minusVariable : Option GSCSVariable) (T : GSCSTableau) : GSCSTableau :=
  match T.rowExpressionForVariable plusVariable with
  | some plusRow => deltaErrorRow delta plusVariable plusRow T
  | none =>
    match minusVariable.bind fun v => (T.rowExpressionForVariable v).map fun row => (v, row) with
    | some (v, minusRow) => deltaErrorRow (-delta) v minusRow T
    | none => (m.enumerate (T.column plusVariable)).foldl (deltaRow delta plusVariable) T

/-- One term in the search for the entry variable of `dualOptimize`; `none` stands for `DBL_MAX`. -/
def dualEntryStep (objectiveRow : Option GSCSLinearExpression) (expression : GSCSLinearExpression)
    (best : Option (GSCSVariable × ℚ)) (v : GSCSVariable) : Option (GSCSVariable × ℚ) :=
  let coefficient := expression.coefficientForTerm v
  if 0 < coefficient ∧ v.isPivotable then
    let ratio := objectiveRow.elim 0 (·.coefficientForTerm v) / coefficient
    if best.elim true fun b => ratio < b.2 then some (v, ratio) else best
  else best

def dualOptimizeLoop : Nat → SolverM Unit
  | 0 => throw .outOfFuel
  | fuel + 1 => do
    let T := (← get).tableau
    match T.infeasibleRows with
    | [] => return ()
    | exitVariable :: rest =>
      modifyTableau fun T => { T with infeasibleRows := rest }
      match T.rowExpressionForVariable exitVariable with
      | none => dualOptimizeLoop fuel
      | some expression =>
        if 0 ≤ expression.constant then dualOptimizeLoop fuel
        else
          match expression.termVariables.foldl
              (dualEntryStep (T.rowExpressionForVariable .objective) expression) none with
          | none =>
            throw (.internalInconsistency "Unable to restore feasibility after an edit")
          | some (entryVariable, _) =>
            pivot m entryVariable exitVariable
            dualOptimizeLoop fuel

def dualOptimize : SolverM Unit := dualOptimizeLoop m m.fuel

/-- `setPreviousConstant:` on the last edit information of a variable. -/
def setPreviousConstant (v : GSCSVariable) (value : ℚ) (infos : List GSCSEditInfo) :
    List GSCSEditInfo :=
  match infos.reverse.findIdx? fun info => info.editVariable = v with
  | none => infos
  | some i => infos.modify (infos.length - 1 - i) fun info => { info with previousConstant := value }

/-- `suggestEditVariable:equals:` for the external variable of the number. -/
def suggestEditVariable (number : Nat) (value : ℚ) : SolverM Unit := do
  if ((← get).editInfoForVariable (.external number)).isNone then
    addEditVariable m number .strengthStrong
  match (← get).editInfoForVariable (.external number) with
  | none => return ()
  | some editInfo =>
    let delta := value - editInfo.previousConstant
    modify fun s => { s with
      editInfos := setPreviousConstant (.external number) value s.editInfos }
    modifyTableau (deltaEditConstant m (-delta) editInfo.plusVariable editInfo.minusVariable)
    dualOptimize m
    setExternalVariables
    modifyTableau fun T => { T with infeasibleRows := [] }

end GSCassowarySolver

/-! ## Calls -/

inductive SolverCall
  | addConstraint (constraint : GSCSConstraint)
  | addConstraints (constraints : List GSCSConstraint)
  | removeConstraint (constraint : GSCSConstraint)
  | removeConstraints (constraints : List GSCSConstraint)
  | suggestEditVariable (number : Nat) (value : ℚ)

def SolverCall.perform (m : Machine) : SolverCall → SolverM Unit
  | addConstraint c => GSCassowarySolver.addConstraint m c
  | addConstraints cs => GSCassowarySolver.addConstraints m cs
  | removeConstraint c => GSCassowarySolver.removeConstraint m c
  | removeConstraints cs => GSCassowarySolver.removeConstraints m cs
  | suggestEditVariable number value => GSCassowarySolver.suggestEditVariable m number value

def performCalls (m : Machine) : List SolverCall → SolverM Unit
  | [] => pure ()
  | call :: calls => do
    call.perform m
    performCalls m calls

end GnustepGui.Cassowary
