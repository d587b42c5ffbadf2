import GnustepGui.Cassowary.LinearExpression

/-!
# `GSCSTableau`

The rows of a tableau are equations `variable = expression`; `columns` tells for each variable the
rows that mention it. Rows change in place, and `externalRows` holds the same expression objects, so
it is kept as a map to their addresses. A message to a nil row answers 0 or nothing, as in
Objective-C.

`Machine` collects what the code leaves open: the order in which a set is enumerated, the tolerance
of the comparator, and the number of turns after which a loop is taken not to return.
-/

namespace GnustepGui.Cassowary

structure Machine where
  tol : ℚ
  enumerate : List GSCSVariable → List GSCSVariable
  enumerate_perm : ∀ l, (enumerate l).Perm l
  fuel : Nat

inductive SolverException
  | invalidArgument (reason : String)
  | internalInconsistency (reason : String)
  | outOfFuel
deriving DecidableEq, Repr

abbrev Columns := AList fun _ : GSCSVariable => List GSCSVariable

structure GSCSTableau where
  rows : AList fun _ : GSCSVariable => GSCSLinearExpression
  columns : Columns
  externalParametricVariables : List GSCSVariable
  externalRows : AList fun _ : GSCSVariable => Nat
  infeasibleRows : List GSCSVariable

/-! ## The column index -/

/-- `addMappingFromExpressionVariable:toRowVariable:` -/
def Columns.addMapping (columns : Columns) (columnVariable rowVariable : GSCSVariable) : Columns :=
  columns.insert columnVariable (((columns.lookup columnVariable).getD []).insert rowVariable)

/-- `removeMappingFromExpressionVariable:toRowVariable:` -/
def Columns.removeMapping (columns : Columns) (columnVariable rowVariable : GSCSVariable) : Columns :=
  match columns.lookup columnVariable with
  | none => columns
  | some columnSet => columns.insert columnVariable (columnSet.filter (· ≠ rowVariable))

namespace GSCSTableau

variable (m : Machine)

def empty : GSCSTableau := ⟨∅, ∅, [], ∅, []⟩

def columnForVariable (T : GSCSTableau) (v : GSCSVariable) : Option (List GSCSVariable) :=
  T.columns.lookup v

def hasColumnForVariable (T : GSCSTableau) (v : GSCSVariable) : Bool := (T.columnForVariable v).isSome

/-- The members of a column, none when there is no column. -/
def column (T : GSCSTableau) (v : GSCSVariable) : List GSCSVariable := (T.columns.lookup v).getD []

def rowExpressionForVariable (T : GSCSTableau) (v : GSCSVariable) : Option GSCSLinearExpression :=
  T.rows.lookup v

def isBasicVariable (T : GSCSTableau) (v : GSCSVariable) : Bool := (T.rowExpressionForVariable v).isSome

def rowConstant (T : GSCSTableau) (v : GSCSVariable) : ℚ :=
  (T.rowExpressionForVariable v).elim 0 (·.constant)

def rowCoefficient (T : GSCSTableau) (row v : GSCSVariable) : ℚ :=
  (T.rowExpressionForVariable row).elim 0 (·.coefficientForTerm v)

def shouldPreferPivotableVariable (lhs rhs : GSCSVariable) : Bool := lhs.id < rhs.id

/-! ## Rows -/

/-- One turn of `addTermVariablesForExpression:variable:`. -/
def addTermVariable (rowVariable : GSCSVariable) (T : GSCSTableau) (v : GSCSVariable) : GSCSTableau :=
  { T with
    columns := T.columns.addMapping v rowVariable
    externalParametricVariables := if v.isExternal then T.externalParametricVariables.insert v
      else T.externalParametricVariables }

def addRowForVariable (T : GSCSTableau) (v : GSCSVariable) (expression : GSCSLinearExpression) :
    GSCSTableau :=
  expression.termVariables.foldl (addTermVariable v) { T with
    rows := T.rows.insert v expression
    externalRows := if v.isExternal then T.externalRows.insert v expression.address
      else T.externalRows }

/-- Replace the row of a variable after its expression object was changed in place. -/
def setRow (T : GSCSTableau) (v : GSCSVariable) (expression : GSCSLinearExpression) : GSCSTableau :=
  { T with rows := T.rows.insert v expression }

/-- One row of `removeColumn:`. -/
def removeColumnRow (v : GSCSVariable) (T : GSCSTableau) (row : GSCSVariable) : GSCSTableau :=
  match T.rowExpressionForVariable row with
  | none => T
  | some expression => T.setRow row (expression.removeVariable v)

def removeColumn (T : GSCSTableau) (v : GSCSVariable) : GSCSTableau :=
  let T := (m.enumerate (T.column v)).foldl (removeColumnRow v) T
  { T with
    columns := T.columns.erase v
    externalRows := if v.isExternal then T.externalRows.erase v else T.externalRows }

def removeRowForVariable (T : GSCSTableau) (v : GSCSVariable) : Except SolverException GSCSTableau :=
  match T.rowExpressionForVariable v with
  | none => .error (.invalidArgument "No expression exists for the provided variable")
  | some expression => .ok { T with
      rows := T.rows.erase v
      externalRows := if v.isExternal then T.externalRows.erase v else T.externalRows
      columns := expression.termVariables.foldl (fun columns t => columns.removeMapping t v) T.columns }

/-! ## Substitution -/

/-- `substituteOutTermInExpression:newExpression:subject:term:multiplier:`, on the expression and the
column index. -/
def substituteOutTermInExpression (newExpression : GSCSLinearExpression) (subject : GSCSVariable)
    (multiplier : ℚ) (s : GSCSLinearExpression × Columns) (term : GSCSVariable) :
    GSCSLinearExpression × Columns :=
  let coefficentInNewExpression := newExpression.coefficientForTerm term
  match s.1.multiplierForTerm term with
  | some coefficentInExistingExpression =>
    let newCoefficent := coefficentInExistingExpression + multiplier * coefficentInNewExpression
    if isApproxiatelyZero m.tol newCoefficent then
      (s.1.removeVariable term, s.2.removeMapping term subject)
    else (s.1.addVariable m.tol term newCoefficent, s.2)
  | none =>
    (s.1.addVariable m.tol term (multiplier * coefficentInNewExpression), s.2.addMapping term subject)

/-- `substituteOutTerm:withExpression:inExpression:subject:` -/
def substituteOutTerm (term : GSCSVariable) (newExpression expression : GSCSLinearExpression)
    (subject : GSCSVariable) (columns : Columns) : GSCSLinearExpression × Columns :=
  let coefficient := expression.coefficientForTerm term
  let expression := (expression.removeVariable term).setConstant
    (coefficient * newExpression.constant + expression.constant)
  newExpression.termVariables.foldl
    (substituteOutTermInExpression m newExpression subject coefficient) (expression, columns)

/-- One row of `substituteOutVariable:forExpression:`. -/
def substituteOutRow (term : GSCSVariable) (expression : GSCSLinearExpression) (T : GSCSTableau)
    (columnVariable : GSCSVariable) : GSCSTableau :=
  match T.rowExpressionForVariable columnVariable with
  | none => { T with
      columns := expression.termVariables.foldl (fun columns t => columns.addMapping t columnVariable)
        T.columns }
  | some row =>
    let s := substituteOutTerm m term expression row columnVariable T.columns
    { T with
      rows := T.rows.insert columnVariable s.1
      columns := s.2
      infeasibleRows := if columnVariable.isRestricted ∧ s.1.constant < 0
        then T.infeasibleRows ++ [columnVariable] else T.infeasibleRows }

def substituteOutVariable (T : GSCSTableau) (term : GSCSVariable)
    (expression : GSCSLinearExpression) : GSCSTableau :=
  let T := (m.enumerate (T.column term)).foldl (substituteOutRow m term expression) T
  { T with
    externalRows := if term.isExternal then T.externalRows.insert term expression.address
      else T.externalRows
    externalParametricVariables := if term.isExternal
      then T.externalParametricVariables.filter (· ≠ term) else T.externalParametricVariables
    columns := T.columns.erase term }

/-! ## Adding to a row -/

def recordUpdatedVariable (T : GSCSTableau) (v : GSCSVariable) : GSCSTableau :=
  { T with externalParametricVariables := if v.isExternal then T.externalParametricVariables.insert v
      else T.externalParametricVariables }

/-- `addVariable:toExpression:withCoefficient:subject:` for the row of `subject`. -/
def addVariableToRow (T : GSCSTableau) (v : GSCSVariable) (coefficient : ℚ) (subject : GSCSVariable) :
    GSCSTableau :=
  match T.rowExpressionForVariable subject with
  | none => T
  | some expression =>
    if expression.isTermForVariable v then
      let newCoefficient := expression.coefficientForTerm v + coefficient
      if newCoefficient = 0 ∨ isApproxiatelyZero m.tol newCoefficient then
        { T.setRow subject (expression.removeVariable v) with
          columns := T.columns.removeMapping v subject }
      else (T.setRow subject (expression.addVariable m.tol v newCoefficient)).recordUpdatedVariable v
    else if isApproxiatelyZero m.tol coefficient then T
    else
      let T := (T.setRow subject (expression.addVariable m.tol v coefficient)).recordUpdatedVariable v
      { T with columns := T.columns.addMapping v subject }

/-- `addNewExpression:toExpression:n:subject:` for the row of `subject`. -/
def addNewExpressionToRow (T : GSCSTableau) (newExpression : GSCSLinearExpression) (n : ℚ)
    (subject : GSCSVariable) : GSCSTableau :=
  match T.rowExpressionForVariable subject with
  | none => newExpression.termVariables.foldl recordUpdatedVariable T
  | some expression =>
    newExpression.termVariables.foldl
      (fun T term => (addVariableToRow m T term (newExpression.coefficientForTerm term * n)
        subject).recordUpdatedVariable term)
      (T.setRow subject (expression.setConstant (expression.constant + n * newExpression.constant)))

/-! ## Pivoting -/

/-- `changeSubjectOnExpression:existingSubject:newSubject:`, on the expression. -/
def changeSubject (expression : GSCSLinearExpression) (existingSubject newSubject : GSCSVariable) :
    GSCSLinearExpression :=
  let (expression, reciprocal) := expression.newSubject newSubject
  expression.addVariable m.tol existingSubject reciprocal

def pivotWithEntryVariable (T : GSCSTableau) (entryVariable exitVariable : GSCSVariable) :
    Except SolverException GSCSTableau := do
  let row := T.rowExpressionForVariable exitVariable
  let T ← T.removeRowForVariable exitVariable
  match row with
  | none => return T
  | some expression =>
    let expression := changeSubject m expression exitVariable entryVariable
    let T := T.recordUpdatedVariable exitVariable
    let T := T.substituteOutVariable m entryVariable expression
    let T := if entryVariable.isExternal then { T with
        externalParametricVariables := T.externalParametricVariables.filter (· ≠ entryVariable) }
      else T
    return T.addRowForVariable entryVariable expression

/-- One turn of the loop of `findPivotableExitVariable:`; `none` stands for `DBL_MAX`. -/
def pivotableExitStep (T : GSCSTableau) (entryVariable : GSCSVariable)
    (best : Option (GSCSVariable × ℚ)) (row : GSCSVariable) : Option (GSCSVariable × ℚ) :=
  if row.isPivotable then
    let coefficient := T.rowCoefficient row entryVariable
    if coefficient < 0 then
      let r := -T.rowConstant row / coefficient
      match best with
      | none => some (row, r)
      | some (exitVariable, minRatio) =>
        if r < minRatio ∨ (isApproxiatelyEqual m.tol r minRatio ∧
            shouldPreferPivotableVariable row exitVariable) then some (row, r)
        else best
    else best
  else best

def findPivotableExitVariable (T : GSCSTableau) (entryVariable : GSCSVariable) :
    Option GSCSVariable :=
  ((m.enumerate (T.column entryVariable)).foldl (pivotableExitStep m T entryVariable) none).map (·.1)

end GSCSTableau

end GnustepGui.Cassowary
