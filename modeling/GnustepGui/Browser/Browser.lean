import Mathlib.Data.Rat.Floor
import GnustepGui.Browser.Matrix

/-!
# A browser with a passive delegate

The columns, the window on them and the calls that load, select and scroll. A call is `none` where it would index
outside the array of columns. The delegate shows the children of what is selected, titles first to last; drawing, the
column titles, first responders and messages to the delegate about scrolling are left out. Window: `setLastColumn`,
`tile` and the scroll methods.
-/

namespace GnustepGui.Browser

/-- `isLoaded` and the matrix, which an unloaded column may have kept. -/
structure NSBrowserColumn where
  isLoaded : Bool
  columnMatrix : Option NSMatrix
  deriving DecidableEq, Repr

/-- What stays the same while the browser is used. -/
structure Settings where
  reusesColumns : Bool
  allowsEmptySelection : Bool
  allowsMultipleSelection : Bool
  separatesColumns : Bool
  pathSeparator : List Char
  minColumnWidth : ℚ
  scrollerWidth : ℚ
  browserColumnSeparation : ℚ
  scrollerWidth_nonneg : 0 ≤ scrollerWidth
  browserColumnSeparation_nonneg : 0 ≤ browserColumnSeparation

/-- What the delegate shows below the selected titles. -/
abbrev Delegate := List Title → List (Title × Bool)

/-- Columns are numbered from 0, and there is no loaded column where `lastColumnLoaded` is -1. -/
structure NSBrowser where
  browserColumns : List NSBrowserColumn
  lastColumnLoaded : Int
  firstVisibleColumn : Int
  lastVisibleColumn : Int
  maxVisibleColumns : Int
  frameWidth : ℚ
  isLoaded : Bool
  cellsMade : Nat

/-- What `_createColumn` adds. -/
def createdColumn : NSBrowserColumn :=
  ⟨false, none⟩

def initWithFrame (frameWidth : ℚ) : NSBrowser where
  browserColumns := [createdColumn]
  lastColumnLoaded := -1
  firstVisibleColumn := 0
  lastVisibleColumn := 0
  maxVisibleColumns := 3
  frameWidth := frameWidth
  isLoaded := false
  cellsMade := 0

/-- The settings that a matrix gets. -/
def Settings.matrix (settings : Settings) : MatrixSettings where
  mode := if settings.allowsMultipleSelection then .list else .radio
  allowsEmptySelection := settings.allowsEmptySelection

/-- The room that a column takes. -/
def Settings.colWidth (settings : Settings) : ℚ :=
  settings.minColumnWidth + settings.scrollerWidth +
    if settings.separatesColumns then settings.browserColumnSeparation else 0

namespace NSBrowser

variable (settings : Settings) (delegate : Delegate) (browser : NSBrowser)

/-- `[_browserColumns objectAtIndex: index]` -/
def columnAt (index : Int) : Option NSBrowserColumn :=
  if index < 0 then none else browser.browserColumns[index.toNat]?

/-! ## The window -/

/-- The loop over the visible columns from the first on. -/
def showFromFirst (columns : List NSBrowserColumn) (last : Nat) : Nat → Nat → Option Unit
  | 0, _ => some ()
  | fuel + 1, i =>
    if i ≤ last then do
      let _ ← columns[i]?
      showFromFirst columns last fuel (i + 1)
    else some ()

/-- The loop over the visible columns from the last on. The index is unsigned: after 0 comes the largest one,
where there is no column. -/
def showFromLast (columns : List NSBrowserColumn) (first : Nat) : Nat → Option Unit
  | 0 => if first ≤ 0 then none else some ()
  | i + 1 =>
    if first ≤ i + 1 then do
      let _ ← columns[i + 1]?
      showFromLast columns first i
    else some ()

def remapColumnSubviews (fromFirst : Bool) : Option Unit :=
  let first := browser.firstVisibleColumn
  let last := browser.lastVisibleColumn
  if first > last then some ()
  else if first < 0 then none
  else if fromFirst then
    showFromFirst browser.browserColumns last.toNat (last.toNat + 1 - first.toNat) first.toNat
  else showFromLast browser.browserColumns first.toNat last.toNat

/-- `_createColumn` until there are `count` columns. -/
def createColumns (count : Int) : NSBrowser :=
  { browser with
    browserColumns := browser.browserColumns ++
      List.replicate (count.toNat - browser.browserColumns.length) createdColumn }

def numberOfVisibleColumns : Int :=
  let num := browser.lastVisibleColumn - browser.firstVisibleColumn + 1
  if num > 0 then num else 1

/-- The number of columns for which there is room. -/
def fittingColumnCount : Int :=
  if settings.minColumnWidth > 0 then
    if browser.frameWidth > settings.colWidth then ⌊browser.frameWidth / settings.colWidth⌋ else 1
  else browser.lastVisibleColumn - browser.firstVisibleColumn + 1

/-- The number of columns that `tile` makes visible. -/
def columnCount : Int :=
  if browser.maxVisibleColumns > 0 ∧ browser.fittingColumnCount settings > browser.maxVisibleColumns then
    browser.maxVisibleColumns
  else browser.fittingColumnCount settings

/-- The first visible column once `columnCount` are to be visible: the window grows to the left as long as
its last column may be loaded. -/
def firstVisibleFor (columnCount : Int) : Int :=
  let num := browser.lastVisibleColumn - browser.firstVisibleColumn + 1
  let delta := if num > 0 then columnCount - num else columnCount - 1
  if delta > 0 ∧ browser.lastVisibleColumn ≤ browser.lastColumnLoaded then
    if browser.firstVisibleColumn - delta > 0 then browser.firstVisibleColumn - delta else 0
  else browser.firstVisibleColumn

/-- The columns that `tile` makes visible where there is to be another number of them. -/
def retile : NSBrowser :=
  let columnCount := browser.columnCount settings
  let first := browser.firstVisibleFor columnCount
  { browser.createColumns columnCount with
    firstVisibleColumn := first
    lastVisibleColumn := first + columnCount - 1 }

/-- A negative first column is never reached: `none` stands for a loop that does not end. -/
def tile : Option NSBrowser :=
  let num := browser.lastVisibleColumn - browser.firstVisibleColumn + 1
  let changed := browser.columnCount settings ≠ num
  let browser := if changed then browser.retile settings else browser
  if browser.firstVisibleColumn > browser.lastVisibleColumn then some browser
  else if browser.firstVisibleColumn < 0 then none
  else do
    let browser := browser.createColumns (browser.lastVisibleColumn + 1)
    if changed then browser.remapColumnSubviews true
    return browser

/-- The window moved to the right. -/
def shifted (shiftAmount : Int) : NSBrowser :=
  { browser with
    firstVisibleColumn := browser.firstVisibleColumn + shiftAmount
    lastVisibleColumn := browser.lastVisibleColumn + shiftAmount }

def scrollColumnsLeftBy (shiftAmount : Int) : Option NSBrowser :=
  let shiftAmount :=
    if browser.firstVisibleColumn - shiftAmount < 0 then browser.firstVisibleColumn else shiftAmount
  if shiftAmount ≤ 0 then some browser
  else do
    let browser ← (browser.shifted (-shiftAmount)).tile settings
    browser.remapColumnSubviews true
    return browser

def scrollColumnsRightBy (shiftAmount : Int) : Option NSBrowser :=
  let shiftAmount :=
    if shiftAmount + browser.lastVisibleColumn > browser.lastColumnLoaded then
      browser.lastColumnLoaded - browser.lastVisibleColumn
    else shiftAmount
  if shiftAmount ≤ 0 then some browser
  else do
    let browser ← (browser.shifted shiftAmount).tile settings
    browser.remapColumnSubviews false
    return browser

def scrollColumnToVisible (column : Int) : Option NSBrowser :=
  if browser.lastVisibleColumn < column then
    browser.scrollColumnsRightBy settings (column - browser.lastVisibleColumn)
  else if browser.firstVisibleColumn > column then
    browser.scrollColumnsLeftBy settings (browser.firstVisibleColumn - column)
  else some browser

def setMaxVisibleColumns (columnCount : Int) : Option NSBrowser :=
  if columnCount < 1 ∨ browser.maxVisibleColumns = columnCount then some browser
  else tile settings { browser with maxVisibleColumns := columnCount }

/-- A new width, and `resizeSubviewsWithOldSize:`. -/
def setFrameWidth (frameWidth : ℚ) : Option NSBrowser :=
  tile settings { browser with frameWidth }

/-- The loop that unloads the columns from `i` on. A column that is taken out leaves its index to the next
one. -/
def unloadColumns (reusesColumns : Bool) (lastVisibleColumn : Int) : Int → List NSBrowserColumn → List NSBrowserColumn
  | _, [] => []
  | i, column :: columns =>
    let column := { column with isLoaded := false }
    if reusesColumns = false ∧ i > lastVisibleColumn then unloadColumns reusesColumns lastVisibleColumn i columns
    else column :: unloadColumns reusesColumns lastVisibleColumn (i + 1) columns

/-- `setLastColumn:` before it scrolls. -/
def unloadAfter (column : Int) : NSBrowser :=
  { browser with
    lastColumnLoaded := column
    browserColumns := browser.browserColumns.take (column + 1).toNat ++
      unloadColumns settings.reusesColumns browser.lastVisibleColumn (column + 1)
        (browser.browserColumns.drop (column + 1).toNat) }

def setLastColumn (column : Int) : Option NSBrowser :=
  if column > browser.lastColumnLoaded then some browser
  else if column < 0 then
    scrollColumnToVisible settings { browser.unloadAfter settings (-1) with isLoaded := false } (-1)
  else (browser.unloadAfter settings column).scrollColumnToVisible settings column

/-! ## The selection -/

/-- `matrixInColumn:`; the inner `none` is `nil`. -/
def matrixInColumn (column : Int) : Option (Option NSMatrix) :=
  if column < 0 ∨ column > browser.lastColumnLoaded then some none
  else do
    let browserColumn ← browser.columnAt column
    return if browserColumn.isLoaded then browserColumn.columnMatrix else none

def selectedCellInColumn (column : Int) : Option (Option NSBrowserCell) := do
  let matrix ← browser.matrixInColumn column
  return matrix.bind (·.selectedCell)

/-- The titles that `pathToColumn:` joins, in columns from `column` on. -/
def titlesFrom : Nat → Int → Option (List Title)
  | 0, _ => some []
  | columns + 1, column => do
    match ← browser.selectedCellInColumn column with
    | none => return []
    | some cell => return cell.stringValue :: (← titlesFrom columns (column + 1))

def titlesToColumn (column : Int) : Option (List Title) :=
  let column := if column > browser.lastColumnLoaded then browser.lastColumnLoaded + 1 else column
  browser.titlesFrom column.toNat 0

def pathToColumn (column : Int) : Option (List Char) := do
  let titles ← browser.titlesToColumn column
  return settings.pathSeparator ++ settings.pathSeparator.intercalate titles

def path : Option (List Char) :=
  browser.pathToColumn settings (browser.lastColumnLoaded + 1)

/-- A change of the matrix in a column. -/
def setMatrix (column : Int) (matrix : NSMatrix) : NSBrowser :=
  { browser with
    browserColumns := browser.browserColumns.modify column.toNat ({ · with columnMatrix := some matrix }) }

/-! ## Loading -/

/-- The matrix with its contents, and how many cells have been made then. -/
def loadedMatrix (column : NSBrowserColumn) (contents : List (Title × Bool)) : NSMatrix × Nat :=
  match settings.reusesColumns, column.columnMatrix with
  | true, some matrix =>
    (((matrix.renewRows settings.matrix contents.length browser.cellsMade).markUnloaded).loadCells contents,
      browser.cellsMade + (contents.length - matrix.cells.length))
  | _, _ =>
    ((NSMatrix.newMatrix contents.length browser.cellsMade).loadCells contents,
      browser.cellsMade + contents.length)

/-- `_performLoadOfColumn:`, which tiles where the column is visible. -/
def performLoadOfColumn (column : Int) : Option NSBrowser := do
  let titles ← browser.titlesToColumn column
  let browserColumn ← browser.columnAt column
  let (matrix, cellsMade) := browser.loadedMatrix settings browserColumn (delegate titles)
  let browser :=
    { browser with
      browserColumns := browser.browserColumns.set column.toNat ⟨true, some matrix⟩
      lastColumnLoaded := if column > browser.lastColumnLoaded then column else browser.lastColumnLoaded
      cellsMade }
  if column < browser.firstVisibleColumn ∨ column > browser.lastVisibleColumn then return browser
  browser.tile settings

def addColumn : Option NSBrowser := do
  let count : Int := browser.browserColumns.length
  let i := if browser.lastColumnLoaded + 1 ≥ count then count else browser.lastColumnLoaded + 1
  let i := if i < 0 then 0 else i
  let browser := if browser.lastColumnLoaded + 1 ≥ count then browser.createColumns (count + 1) else browser
  let browser ← browser.performLoadOfColumn settings delegate i
  let browser ← browser.setLastColumn settings i
  let browser ← tile settings { browser with isLoaded := true }
  if i > 0 ∧ i - 1 = browser.lastVisibleColumn then browser.scrollColumnsRightBy settings 1 else return browser

def loadColumnZero : Option NSBrowser := do
  let browser ← browser.setLastColumn settings (-1)
  let browser ← browser.addColumn settings delegate
  browser.remapColumnSubviews true
  return browser

/-- The delegate has no `browser:selectRow:inColumn:`. -/
def selectRow (row column : Int) : Option NSBrowser := do
  let some matrix ← browser.matrixInColumn column | return browser
  let some cell := matrix.cellAtRow row | return browser
  let browser ← browser.setLastColumn settings column
  let matrix := if settings.allowsMultipleSelection then matrix else matrix.deselectAllCells settings.matrix
  let browser := browser.setMatrix column (matrix.selectCellAtRow settings.matrix row.toNat)
  if cell.isLeaf then return browser else browser.addColumn settings delegate

/-- The selected cells are looked up in the new matrix by identity. -/
def reselect (matrix : NSMatrix) (cells : List NSBrowserCell) : NSMatrix :=
  cells.foldl (fun matrix cell =>
    match matrix.rowOfCell cell with
    | none => matrix
    | some row => matrix.selectCellAtRow settings.matrix row) matrix

def reloadColumn (column : Int) : Option NSBrowser := do
  let some matrix ← browser.matrixInColumn column | return browser
  let browser ← browser.performLoadOfColumn settings delegate column
  let browser ← browser.setLastColumn settings column
  let some newMatrix ← browser.matrixInColumn column | return browser
  return browser.setMatrix column (reselect settings newMatrix matrix.selectedCells)

/-! ## Paths -/

/-- The components from a place on, `skip` characters of which belong to the separator before it. -/
def componentsFrom (separator : List Char) : Nat → List Char → List Char → List (List Char)
  | _, current, [] => [current]
  | skip + 1, current, _ :: rest => componentsFrom separator skip current rest
  | 0, current, c :: rest =>
    if separator ≠ [] ∧ separator.isPrefixOf (c :: rest) then
      current :: componentsFrom separator (separator.length - 1) [] rest
    else componentsFrom separator 0 (current ++ [c]) rest

def componentsSeparatedByString (separator string : List Char) : List (List Char) :=
  componentsFrom separator 0 [] string

/-- The components of a path that are not empty. -/
def subStrings (separator path : List Char) : List Title :=
  (componentsSeparatedByString separator path).filter (· ≠ [])

/-- The loop over the loaded columns that keeps those selected as in the path, and empties the selection of the
first other one. The last column that is kept comes with it. -/
def keepMatching : Nat → Nat → List Title → Int → NSBrowser → Option (NSBrowser × Int)
  | 0, _, _, column, browser => some (browser, column)
  | columns + 1, i, titles, column, browser => do
    let selectedCell ← browser.selectedCellInColumn i
    match titles with
    | title :: titles =>
      if selectedCell.map (·.stringValue) = some title then keepMatching columns (i + 1) titles i browser
      else return (← deselect i browser, column)
    | [] => return (← deselect i browser, column)
where
  deselect (i : Nat) (browser : NSBrowser) : Option NSBrowser := do
    let some matrix ← browser.matrixInColumn i | return browser
    return browser.setMatrix i (matrix.deselectAllCells settings.matrix)

/-- The first row with this title. -/
def rowWithTitle (matrix : NSMatrix) (title : Title) : Option Nat :=
  (List.range matrix.numRows).find? fun row => (matrix.cellAtRow row).map (·.stringValue) = some title

/-- The loop over the components; whether all of them have been found comes with it. -/
def selectTitles : List Title → Int → NSBrowser → Option (NSBrowser × Bool)
  | [], _, browser => some (browser, true)
  | title :: titles, column, browser => do
    let browserColumn ← browser.columnAt column
    let some matrix := browserColumn.columnMatrix | return (browser, false)
    let some row := rowWithTitle matrix title | return (browser, false)
    let some selectedCell := matrix.cellAtRow row | return (browser, false)
    let browser := browser.setMatrix column (matrix.selectCellAtRow settings.matrix row)
    if selectedCell.isLeaf then return (browser, titles.isEmpty)
    let browser ← browser.addColumn settings delegate
    selectTitles titles (column + 1) browser

/-- `setPath:` loads the first column where none is loaded. -/
def ensureLoaded : Option NSBrowser :=
  if browser.lastColumnLoaded < 0 then browser.loadColumnZero settings delegate else some browser

/-- The delegate has no `browser:selectCellWithString:inColumn:`. -/
def setPath (path : List Char) : Option (NSBrowser × Bool) := do
  let browser ← browser.ensureLoaded settings delegate
  let titles := subStrings settings.pathSeparator path
  if settings.pathSeparator.isPrefixOf path then
    let (browser, column) ← keepMatching settings (browser.lastColumnLoaded + 1).toNat 0 titles 0 browser
    let browser ← browser.setLastColumn settings column
    selectTitles settings delegate (titles.drop column.toNat) column browser
  else selectTitles settings delegate titles browser.lastColumnLoaded browser

end NSBrowser

/-! ## Calls -/

inductive Call where
  | loadColumnZero
  | addColumn
  | setLastColumn (column : Int)
  | selectRow (row column : Int)
  | setPath (path : List Char)
  | reloadColumn (column : Int)
  | scrollColumnsLeftBy (shiftAmount : Int)
  | scrollColumnsRightBy (shiftAmount : Int)
  | scrollColumnToVisible (column : Int)
  | setMaxVisibleColumns (columnCount : Int)
  | setFrameWidth (frameWidth : ℚ)

def Call.perform (settings : Settings) (delegate : Delegate) (browser : NSBrowser) : Call → Option NSBrowser
  | .loadColumnZero => browser.loadColumnZero settings delegate
  | .addColumn => browser.addColumn settings delegate
  | .setLastColumn column => browser.setLastColumn settings column
  | .selectRow row column => browser.selectRow settings delegate row column
  | .setPath path => (browser.setPath settings delegate path).map Prod.fst
  | .reloadColumn column => browser.reloadColumn settings delegate column
  | .scrollColumnsLeftBy shiftAmount => browser.scrollColumnsLeftBy settings shiftAmount
  | .scrollColumnsRightBy shiftAmount => browser.scrollColumnsRightBy settings shiftAmount
  | .scrollColumnToVisible column => browser.scrollColumnToVisible settings column
  | .setMaxVisibleColumns columnCount => browser.setMaxVisibleColumns settings columnCount
  | .setFrameWidth frameWidth => browser.setFrameWidth settings frameWidth

end GnustepGui.Browser
