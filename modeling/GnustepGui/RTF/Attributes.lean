import GnustepGui.RTF.Producer

/-!
# The attributes that RTF sets

`RTFAttribute` and the functions of `RTFConsumer` that the statements of the grammar call. Each of them
changes the innermost attributes of the consumer. The text, the attributes of the document and `changed`,
which says whether the next text is given its attributes anew, are left out.
-/

namespace GnustepGui.RTF

inductive NSTextAlignment where
  | left | right | center | justified | natural
  deriving DecidableEq, Repr

structure NSParagraphStyle where
  alignment : NSTextAlignment
  headIndent : Rat
  firstLineHeadIndent : Rat
  tailIndent : Rat
  tabStops : List Rat
  paragraphSpacing : Rat
  minimumLineHeight : Rat
  maximumLineHeight : Rat
  deriving DecidableEq, Repr

def NSParagraphStyle.defaultParagraphStyle : NSParagraphStyle :=
  ⟨.natural, 0, 0, 0, (List.range 12).map fun (i : Nat) => ((i : Rat) + 1) * 28, 0, 0, 0⟩

/-- Behind the last tab stop that is not farther. -/
def NSParagraphStyle.addTabStop (style : NSParagraphStyle) (location : Rat) : NSParagraphStyle :=
  let farther := (style.tabStops.reverse.takeWhile (location < ·)).reverse
  let others := (style.tabStops.reverse.dropWhile (location < ·)).reverse
  { style with tabStops := others ++ location :: farther }

inductive NSColor where
  | calibrated (red green blue : Int)
  | textColor
  | whiteColor
  | blackColor
  deriving DecidableEq, Repr

structure RTFAttribute where
  tabChanged : Bool
  paragraph : NSParagraphStyle
  fgColour : Option NSColor
  bgColour : Option NSColor
  ulColour : Option NSColor
  fontName : List Nat
  fontSize : Rat
  bold : Bool
  italic : Bool
  underline : Nat
  strikethrough : Nat
  script : Int
  real_fi : Rat
  real_li : Rat
  deriving DecidableEq, Repr

/-- The attributes of the open groups, the innermost first, with the tables of fonts and colours. -/
structure RTFConsumer where
  attrs : List RTFAttribute
  ignore : Int
  fonts : List (Int × List Nat)
  colours : List NSColor
  deriving DecidableEq, Repr

def halfpoints2points (n : Int) : Rat := n / 2

def twips2points (n : Int) : Rat := n / 20

def NSUnderlineStyleNone : Nat := 0

def NSUnderlineStyleSingle : Nat := 0x01

def NSUnderlineStyleDouble : Nat := 0x09

def NSUnderlinePatternSolid : Nat := 0

namespace RTFAttribute

def resetParagraphStyle (attr : RTFAttribute) : RTFAttribute :=
  { attr with
    paragraph := .defaultParagraphStyle
    real_fi := 0
    real_li := 0
    tabChanged := false }

/-- `resetFont`, with the name of the user font. -/
def resetFont (userFont : List Nat) (attr : RTFAttribute) : RTFAttribute :=
  { attr with
    fontName := userFont
    fontSize := 12
    italic := false
    bold := false
    underline := NSUnderlineStyleNone
    strikethrough := NSUnderlineStyleNone
    script := 0
    fgColour := none
    bgColour := none
    ulColour := none }

def init (userFont : List Nat) : RTFAttribute :=
  ⟨false, .defaultParagraphStyle, none, none, none, userFont, 12, false, false, NSUnderlineStyleNone,
    NSUnderlineStyleNone, 0, 0, 0⟩

def addTab (location : Rat) (attr : RTFAttribute) : RTFAttribute :=
  if attr.tabChanged then
    { attr with paragraph := attr.paragraph.addTabStop location }
  else
    { attr with paragraph := { attr.paragraph with tabStops := [location] }, tabChanged := true }

def setAlignment (alignment : NSTextAlignment) (attr : RTFAttribute) : RTFAttribute :=
  { attr with paragraph := { attr.paragraph with alignment := alignment } }

/-- Only a positive indent is allowed. -/
def setFirstLineHeadIndent (indent : Rat) (attr : RTFAttribute) : RTFAttribute :=
  if 0 ≤ indent then
    { attr with paragraph := { attr.paragraph with firstLineHeadIndent := indent } }
  else attr

def setHeadIndent (indent : Rat) (attr : RTFAttribute) : RTFAttribute :=
  if 0 ≤ indent then
    { attr with paragraph := { attr.paragraph with headIndent := indent } }
  else attr

/-- The tail indent is compared with what is not negated. -/
def setTailIndent (indent : Rat) (attr : RTFAttribute) : RTFAttribute :=
  if 0 ≤ indent ∧ attr.paragraph.tailIndent ≠ indent then
    { attr with paragraph := { attr.paragraph with tailIndent := -indent } }
  else attr

end RTFAttribute

/-! ## Statements -/

/-- The statements, with the parameter if there is one. -/
inductive Statement where
  | font (parameter : Option Int)
  | fontSize (parameter : Option Int)
  | paperWidth (parameter : Option Int)
  | paperHeight (parameter : Option Int)
  | marginLeft (parameter : Option Int)
  | marginRight (parameter : Option Int)
  | marginTop (parameter : Option Int)
  | marginButtom (parameter : Option Int)
  | firstLineIndent (parameter : Option Int)
  | leftIndent (parameter : Option Int)
  | rightIndent (parameter : Option Int)
  | tabstop (parameter : Option Int)
  | alignCenter
  | alignJustified
  | alignLeft
  | alignRight
  | spaceAbove (parameter : Option Int)
  | lineSpace (parameter : Int)
  | defaultParagraph
  | style (parameter : Int)
  | colorbg (parameter : Option Int)
  | colorfg (parameter : Option Int)
  | underlinecolor (parameter : Option Int)
  | subscript (parameter : Option Int)
  | superscript (parameter : Option Int)
  | bold (parameter : Option Int)
  | italic (parameter : Option Int)
  | underline (style : Nat) (parameter : Option Int)
  | underlineStop
  | strikethrough (parameter : Option Int)
  | strikethroughDouble
  | unichar (parameter : Int)
  | plain
  | paragraph
  | row
  | otherStatement
  deriving DecidableEq, Repr

namespace RTFConsumer

/-- A change of `CTXT`, the innermost attributes. -/
def modifyAttr (f : RTFAttribute → RTFAttribute) (c : RTFConsumer) : RTFConsumer :=
  { c with
    attrs :=
      match c.attrs with
      | [] => []
      | attr :: attrs => f attr :: attrs }

/-- An undefined font raises. -/
def GSRTFfontNumber (fontNumber : Int) (c : RTFConsumer) : Option RTFConsumer :=
  (c.fonts.lookup fontNumber).map fun fontName =>
    c.modifyAttr fun attr => { attr with fontName := fontName }

/-- The colour of the number, which is taken as unsigned. -/
def colour (c : RTFConsumer) (color : Int) (absent : NSColor) : NSColor :=
  if 0 ≤ color then c.colours.getD color.toNat absent else absent

/-- The attribute that a number of half points is in thirds of points, cut off. -/
def scriptOf (halfpoints : Int) : Int := halfpoints.tdiv 6

def isOn (parameter : Option Int) : Bool := parameter ≠ some 0

/-- The action of a statement. -/
def perform (userFont : List Nat) (c : RTFConsumer) : Statement → Option RTFConsumer
  | .font parameter => c.GSRTFfontNumber (parameter.getD 0)
  | .fontSize parameter =>
    some (c.modifyAttr fun attr => { attr with fontSize := halfpoints2points (parameter.getD 24) })
  | .paperWidth _ | .paperHeight _ | .marginLeft _ | .marginRight _ | .marginTop _ | .marginButtom _ => some c
  | .firstLineIndent parameter =>
    some (c.modifyAttr fun attr =>
      let indent := twips2points (parameter.getD 0)
      { attr with real_fi := indent }.setFirstLineHeadIndent (attr.real_li + indent))
  | .leftIndent parameter =>
    some (c.modifyAttr fun attr =>
      let indent := twips2points (parameter.getD 0)
      ({ attr with real_li := indent }.setHeadIndent indent).setFirstLineHeadIndent (indent + attr.real_fi))
  | .rightIndent parameter => some (c.modifyAttr (.setTailIndent (twips2points (parameter.getD 0))))
  | .tabstop parameter =>
    some (if 0 ≤ twips2points (parameter.getD 0) then
      c.modifyAttr (.addTab (twips2points (parameter.getD 0)))
    else c)
  | .alignCenter => some (c.modifyAttr (.setAlignment .center))
  | .alignJustified => some (c.modifyAttr (.setAlignment .justified))
  | .alignLeft => some (c.modifyAttr (.setAlignment .left))
  | .alignRight => some (c.modifyAttr (.setAlignment .right))
  | .spaceAbove parameter =>
    some (if 0 ≤ twips2points (parameter.getD 0) then
      c.modifyAttr fun attr =>
        { attr with paragraph := { attr.paragraph with paragraphSpacing := twips2points (parameter.getD 0) } }
    else c)
  | .lineSpace parameter =>
    some (c.modifyAttr fun attr =>
      let space := twips2points parameter
      if parameter = 1000 then
        { attr with paragraph := { attr.paragraph with minimumLineHeight := 0, maximumLineHeight := 0 } }
      else if space < 0 then
        { attr with paragraph := { attr.paragraph with maximumLineHeight := -space } }
      else
        { attr with paragraph := { attr.paragraph with minimumLineHeight := space } })
  | .defaultParagraph => some (c.modifyAttr .resetParagraphStyle)
  | .style _ => some c
  | .colorbg parameter =>
    some (c.modifyAttr fun attr => { attr with bgColour := c.colour (parameter.getD 0) .whiteColor })
  | .colorfg parameter =>
    some (c.modifyAttr fun attr => { attr with fgColour := c.colour (parameter.getD 0) .blackColor })
  | .underlinecolor parameter =>
    some (c.modifyAttr fun attr => { attr with ulColour := c.colour (parameter.getD 0) .blackColor })
  | .subscript parameter => some (c.modifyAttr fun attr => { attr with script := scriptOf (-parameter.getD 6) })
  | .superscript parameter => some (c.modifyAttr fun attr => { attr with script := scriptOf (parameter.getD 6) })
  | .bold parameter => some (c.modifyAttr fun attr => { attr with bold := isOn parameter })
  | .italic parameter => some (c.modifyAttr fun attr => { attr with italic := isOn parameter })
  | .underline style parameter =>
    some (c.modifyAttr fun attr =>
      { attr with underline := if isOn parameter then style else NSUnderlineStyleNone })
  | .underlineStop => some (c.modifyAttr fun attr => { attr with underline := NSUnderlineStyleNone })
  | .strikethrough parameter =>
    some (c.modifyAttr fun attr =>
      { attr with
        strikethrough :=
          if isOn parameter then NSUnderlineStyleSingle ||| NSUnderlinePatternSolid else NSUnderlineStyleNone })
  | .strikethroughDouble =>
    some (c.modifyAttr fun attr =>
      { attr with strikethrough := NSUnderlineStyleDouble ||| NSUnderlinePatternSolid })
  | .unichar _ => some c
  | .plain => some (c.modifyAttr (.resetFont userFont))
  | .paragraph | .row => some (c.modifyAttr fun attr => { attr with tabChanged := false })
  | .otherStatement => some c

/-- An empty font name raises. -/
def GSRTFregisterFont (fontName : List Nat) (fontNumber : Int) (c : RTFConsumer) : Option RTFConsumer :=
  match fontName.getLast? with
  | none => none
  | some last =>
    let name := if last = 59 then fontName.dropLast else fontName
    some { c with fonts := (fontNumber, name) :: c.fonts }

def GSRTFaddColor (red green blue : Int) (c : RTFConsumer) : RTFConsumer :=
  { c with colours := c.colours ++ [.calibrated red green blue] }

def GSRTFaddDefaultColor (c : RTFConsumer) : RTFConsumer :=
  { c with colours := c.colours ++ [.textColor] }

/-! ## Groups -/

def push (c : RTFConsumer) : RTFConsumer :=
  { c with attrs := c.attrs.head?.toList ++ c.attrs }

def pop (c : RTFConsumer) : RTFConsumer :=
  { c with attrs := c.attrs.tail }

/-- Output is switched off for ignored block statements. -/
def GSRTFopenBlock (ignore : Bool) (c : RTFConsumer) : RTFConsumer :=
  let c := if c.ignore = 0 then c.push else c
  if ignore then { c with ignore := c.ignore + 1 } else c

def GSRTFcloseBlock (ignore : Bool) (c : RTFConsumer) : RTFConsumer :=
  let c := if ignore then { c with ignore := c.ignore - 1 } else c
  if c.ignore = 0 then c.pop else c

def reset (userFont : List Nat) : RTFConsumer :=
  ⟨[.init userFont], 0, [], []⟩

end RTFConsumer

end GnustepGui.RTF
