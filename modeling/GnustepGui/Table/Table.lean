import Mathlib.Algebra.Order.Ring.Rat

/-!
# Tables of views

The geometry of a `GSTable`. Its columns and its rows are laid out by the same code along the two axes, so an `Axis`
has what the four arrays, the borders and the sizes hold for one of them. Numbers are rational.
-/

namespace GnustepGui.Table

/-- A column or a row: an entry of each of the arrays. -/
structure Line where
  expand : Bool
  dimension : ℚ
  origin : ℚ
  minDimension : ℚ
  deriving DecidableEq, Repr

structure Axis where
  minBorder : ℚ
  maxBorder : ℚ
  /-- `_minimumSize` along the axis. -/
  minimum : ℚ
  /-- The size of the frame along the axis. -/
  frame : ℚ
  lines : List Line
  expandingNumber : Int
  deriving DecidableEq, Repr

namespace Axis

/-- `initWithNumberOfRows:numberOfColumns:` -/
def init (number : Int) : Axis :=
  let number := if 0 < number then number.toNat else 2
  ⟨0, 0, 0, 0, List.replicate number ⟨true, 0, 0, 0⟩, number⟩

def shift (d : ℚ) (l : Line) : Line := { l with origin := l.origin + d }

/-- `setMinXBorder:` -/
def setMinBorder (a : Axis) (border : ℚ) : Axis :=
  let border := if border < 0 then 0 else border
  let borderChange := border - a.minBorder
  { a with
    lines := a.lines.map (shift borderChange)
    minimum := a.minimum + borderChange
    frame := a.frame + borderChange
    minBorder := border }

/-- `setMaxXBorder:` -/
def setMaxBorder (a : Axis) (border : ℚ) : Axis :=
  let border := if border < 0 then 0 else border
  let borderChange := border - a.maxBorder
  { a with minimum := a.minimum + borderChange, frame := a.frame + borderChange, maxBorder := border }

/-- The part of `putView:atRow:column:withMinXMargin:…` for one axis; `extent` is that of the view with its margins. -/
def put (a : Axis) (i : Nat) (extent : ℚ) : Axis :=
  match a.lines[i]? with
  | none => a
  | some l =>
    if l.dimension < extent then
      let d := extent - l.dimension
      -- the minimum is below the dimension that has been outgrown
      let grown := if l.minDimension < extent then extent - l.minDimension else 0
      { a with
        frame := a.frame + d
        minimum := a.minimum + grown
        lines := a.lines.take i ++
          { l with dimension := extent, minDimension := l.minDimension + grown } :: (a.lines.drop (i + 1)).map (shift d) }
    else
      -- the extent is that of the line from here on
      let grown := if l.minDimension < l.dimension then l.dimension - l.minDimension else 0
      { a with
        minimum := a.minimum + grown
        lines := a.lines.set i { l with minDimension := l.minDimension + grown } }

/-- `addColumn` -/
def addLine (a : Axis) : Axis :=
  { a with
    lines := a.lines ++ [⟨true, 0, (a.lines.getLast?).elim 0 fun l => l.origin + l.dimension, 0⟩]
    expandingNumber := a.expandingNumber + 1 }

/-- `setXResizingEnabled:forColumn:` -/
def setResizingEnabled (a : Axis) (flag : Bool) (i : Int) : Axis :=
  if i > a.lines.length - 1 ∨ i < 0 then a
  else
    match a.lines[i.toNat]? with
    | none => a
    | some l =>
      if l.expand = true ∧ flag = false then
        { a with expandingNumber := a.expandingNumber - 1, lines := a.lines.set i.toNat { l with expand := flag } }
      else if l.expand = false ∧ flag = true then
        { a with expandingNumber := a.expandingNumber + 1, lines := a.lines.set i.toNat { l with expand := flag } }
      else a

/-- All lines at their minimum, from a border on. -/
def fitLines : ℚ → List Line → List Line
  | _, [] => []
  | origin, l :: lines =>
    { l with dimension := l.minDimension, origin := origin } :: fitLines (origin + l.minDimension) lines

/-- Each line that expands gets the increment. -/
def expandLines (dimensionIncrement : ℚ) : ℚ → List Line → List Line
  | _, [] => []
  | originShift, l :: lines =>
    { l with
      origin := l.origin + originShift
      dimension := if l.expand then l.dimension + dimensionIncrement else l.dimension } ::
      expandLines dimensionIncrement (if l.expand then originShift + dimensionIncrement else originShift) lines

/-- What each expanding line is to get. -/
def dimensionIncrement (a : Axis) (size : ℚ) : ℚ :=
  let oldSize := if a.frame < a.minimum then a.minimum else a.frame
  (size - oldSize) / a.expandingNumber

/-- `_updateForNewFrameSize:`, and the frame is set. -/
def setFrameSize (a : Axis) (size : ℚ) : Axis :=
  if size ≤ a.minimum then
    if a.minimum < a.frame then { a with lines := fitLines a.minBorder a.lines, frame := size }
    else { a with frame := size }
  else
    let oldSize := if a.frame < a.minimum then a.minimum else a.frame
    if size ≠ oldSize ∧ a.expandingNumber ≠ 0 then
      { a with lines := expandLines (a.dimensionIncrement size) 0 a.lines, frame := size }
    else { a with frame := size }

def sizeToFit (a : Axis) : Axis := { a with lines := fitLines a.minBorder a.lines, frame := a.minimum }

end Axis

structure GSTable where
  rows : Axis
  columns : Axis
  deriving DecidableEq, Repr

namespace GSTable

/-- `initWithNumberOfRows:numberOfColumns:` -/
def init (rows columns : Int) : GSTable := ⟨Axis.init rows, Axis.init columns⟩

/-- The line of an index that is within the table. -/
def lineAt (a : Axis) (i : Int) : Option Nat := if i > a.lines.length - 1 ∨ i < 0 then none else some i.toNat

/-- `putView:atRow:column:withMinXMargin:maxXMargin:minYMargin:maxYMargin:` of a view of a size. -/
def putView (t : GSTable) (width height : ℚ) (row column : Int) (minXMargin maxXMargin minYMargin maxYMargin : ℚ) :
    GSTable :=
  match lineAt t.rows row, lineAt t.columns column with
  | some r, some c =>
    { t with
      columns := t.columns.put c (width + (minXMargin + maxXMargin))
      rows := t.rows.put r (height + (minYMargin + maxYMargin)) }
  | _, _ => t

end GSTable

end GnustepGui.Table
