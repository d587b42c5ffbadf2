import GnustepGui.Library.ListTable

/-!
# The PPD tables of `NSPrinter`

A table has a list of strings for each key. In the table PPD the key of a main keyword has its values, or
its option keywords behind an empty string; the value for an option is at the key main/option. What the
scanner reads of a line is a statement here.
-/

namespace GnustepGui.Printer

inductive Exception where
  | rangeException
  deriving DecidableEq, Repr

structure NSPrinter where
  ppd : ListTable String String
  optionTranslation : ListTable String String
  argumentTranslation : ListTable String String
  orderDependency : ListTable String String
  uiConstraints : ListTable String String
  deriving DecidableEq, Repr

namespace NSPrinter

def empty : NSPrinter :=
  ⟨[], [], [], [], []⟩

/-! ## Reading -/

def table (printer : NSPrinter) (name : String) : Option (ListTable String String) :=
  if name = "PPD" then some printer.ppd
  else if name = "PPDOptionTranslation" then some printer.optionTranslation
  else if name = "PPDArgumentTranslation" then some printer.argumentTranslation
  else if name = "PPDOrderDependency" then some printer.orderDependency
  else if name = "PPDUIConstraints" then some printer.uiConstraints
  else none

/-- `stringListForKey:inTable:`. An empty string at the beginning is left out. -/
def stringListForKey (printer : NSPrinter) (key table : String) : Except Exception (Option (List String)) :=
  match (printer.table table).bind (List.lookup key) with
  | none => .ok none
  | some [] => .error .rangeException
  | some (s :: rest) => .ok (some (if s = "" then rest else s :: rest))

/-- `stringForKey:inTable:`, the first string of the list. -/
def stringForKey (printer : NSPrinter) (key table : String) : Except Exception (Option String) := do
  match ← printer.stringListForKey key table with
  | none => return none
  | some [] => throw .rangeException
  | some (s :: _) => return some s

def isKey (printer : NSPrinter) (key table : String) : Bool :=
  ((printer.table table).bind (List.lookup key)).isSome

/-! ## Statements -/

/-- A main keyword with its option keyword, value and translations, as they are scanned. -/
structure KeywordStatement where
  mainKeyword : String
  optionKeyword : Option String
  value : String
  valueTranslation : Option String
  optionTranslation : Option String
  deriving DecidableEq, Repr

/-- The repeated keywords. -/
def repKeys : List String :=
  ["Emulators", "Extensions", "FaxSupport", "Message", "PrinterError", "Product", "Protocols", "PSVersion",
    "Source", "Status", "InkName"]

def addTranslation (translation : Option String) (key : String) (t : ListTable String String) :
    ListTable String String :=
  match translation with
  | none => t
  | some s => .add s key t

/-- `addValue:andValueTranslation:andOptionTranslation:forKey:`. -/
def addValue (printer : NSPrinter) (value : String) (valueTranslation optionTranslation : Option String)
    (key : String) : NSPrinter :=
  { printer with
    ppd := .add value key printer.ppd
    argumentTranslation := addTranslation valueTranslation key printer.argumentTranslation
    optionTranslation := addTranslation optionTranslation key printer.optionTranslation }

/-- The mark of a keyword with options. -/
def addMark (printer : NSPrinter) (mainKeyword : String) : NSPrinter :=
  { printer with
    ppd := .add "" mainKeyword printer.ppd
    optionTranslation := .add "" mainKeyword printer.optionTranslation
    argumentTranslation := .add "" mainKeyword printer.argumentTranslation }

def optionKey (mainKeyword optionKeyword : String) : String :=
  mainKeyword ++ "/" ++ optionKeyword

/-- The end of `addPPDKeyword:withScanner:withPPDPath:`, with what it has scanned. -/
def addPPDKeyword (printer : NSPrinter) (s : KeywordStatement) : NSPrinter :=
  match s.optionKeyword with
  | some option =>
    if printer.isKey (optionKey s.mainKeyword option) "PPD" then
      printer
    else
      let printer := printer.addValue s.value s.valueTranslation s.optionTranslation
        (optionKey s.mainKeyword option)
      let printer := if printer.isKey s.mainKeyword "PPD" then printer else printer.addMark s.mainKeyword
      printer.addValue option (some option) (some option) s.mainKeyword
  | none =>
    if printer.isKey s.mainKeyword "PPD" ∧ s.mainKeyword ∉ repKeys then
      printer
    else
      printer.addValue s.value s.valueTranslation s.optionTranslation s.mainKeyword

/-- The end of `addPPDUIConstraint:withPPDPath:`; the first key may have an option. -/
def addPPDUIConstraint (printer : NSPrinter) (mainKey1 mainKey2 optionKey2 : String) : NSPrinter :=
  { printer with
    uiConstraints := .add optionKey2 mainKey1 (.add mainKey2 mainKey1 printer.uiConstraints) }

/-- The end of `addPPDOrderDependency:withPPDPath:`; the keyword may have an option. -/
def addPPDOrderDependency (printer : NSPrinter) (realValue section' keyword : String) : NSPrinter :=
  { printer with
    orderDependency := .add section' keyword (.add realValue keyword printer.orderDependency) }

inductive Statement where
  | keyword (s : KeywordStatement)
  | uiConstraint (mainKey1 mainKey2 optionKey2 : String)
  | orderDependency (realValue section' keyword : String)
  | symbolValue (symbolName symbolVal : String)
  deriving DecidableEq, Repr

def add (printer : NSPrinter) : Statement → NSPrinter
  | .keyword s => printer.addPPDKeyword s
  | .uiConstraint mainKey1 mainKey2 optionKey2 => printer.addPPDUIConstraint mainKey1 mainKey2 optionKey2
  | .orderDependency realValue section' keyword => printer.addPPDOrderDependency realValue section' keyword
  | .symbolValue _ _ => printer

def load (statements : List Statement) : NSPrinter :=
  statements.foldl add empty

/-! ## Symbol values -/

/-- The value of a symbol, which is the one given last. -/
def symbolValue (symbolName : String) : List Statement → Option String
  | [] => none
  | .symbolValue name val :: rest =>
    (symbolValue symbolName rest).or (if name = symbolName then some val else none)
  | _ :: rest => symbolValue symbolName rest

/-- A string that begins with ^ is replaced by the value of the symbol. -/
def substitute (statements : List Statement) (oldValue : String) : Option String :=
  match oldValue.toList with
  | '^' :: symbol => symbolValue (String.ofList symbol) statements
  | _ => some oldValue

/-- `parsePPDAtPath:` of these statements; `none` where a symbol has no value. -/
def parsePPD (statements : List Statement) : Option NSPrinter :=
  let printer := load statements
  (printer.ppd.replace (substitute statements)).map fun ppd => { printer with ppd := ppd }

end NSPrinter

end GnustepGui.Printer
